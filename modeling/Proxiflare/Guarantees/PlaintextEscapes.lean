import Proxiflare.Daemon.CryptoMemory

/-!
# What a failed decryption leaves with its caller

The bytes are decrypted into `out` before the tag is checked and stay there when it does not
match. `*out_len` is written on success only.
-/

namespace Proxiflare.Guarantees.PlaintextEscapes

open Lib.CString Lib.Aead
open Proxiflare.Daemon Proxiflare.Daemon.CryptoMemory

variable {κ : Type} {p : Primitives κ}

/-- If the call fails, the caller's buffer and length are as before it. -/
def Untouched (args : OutArgs) (run : Except PfErr Unit × OutArgs) : Prop :=
  ∀ e, run.1 = .error e → run.2 = args

/-- The call decrypts `plain`, which `out` did not hold already, and fails at the tag. -/
def Spills (st : Streaming p) (ctx : Crypto κ) (input : Bytes) (evp : EvpCalls)
    (out plain : Bytes) : Prop :=
  ∃ iv ct tag, Writes ctx input evp iv ct tag ∧
    (evp.setTag = false ∨ p.cipher.decrypt ctx.key iv ct tag = none) ∧
    plain = st.update ctx.key iv ct ∧ ¬ plain <+: out

/-- `Spills` of a decryption with pointers. -/
def DecryptSpills (st : Streaming p) (ctx : Option (Crypto κ)) (input : Option Bytes)
    (evp : EvpCalls) (args : OutArgs) (plain : Bytes) : Prop :=
  ∃ c i out n, ctx = some c ∧ input = some i ∧ args = ⟨some out, some n⟩ ∧
    Spills st c i evp out plain

/-- `Spills` of an import: the salt comes first and gives the key. -/
def ExportSpills (st : Streaming p) (password : Option CStr) (input : Option Bytes) (kdfOk : Bool)
    (evp : EvpCalls) (args : OutArgs) (plain : Bytes) : Prop :=
  ∃ (pw : CStr) (salt : Salt) (rest : Bytes),
    password = some pw ∧ input = some (salt.bytes ++ rest) ∧ kdfOk = true ∧
    DecryptSpills st (some ⟨p.kdf pw salt, salt, true⟩) (some rest) evp args plain

/-- Where nothing is spilt a failed call leaves the caller's buffer and length alone; what is spilt
stands at the start of the buffer when the call fails, and nothing else is changed. -/
structure LeftOnError (args : OutArgs) (run : Except PfErr Unit × OutArgs) (spills : Bytes → Prop) :
    Prop where
  untouched : Untouched args run ↔ ∀ plain, ¬ spills plain
  spilt : ∀ plain, spills plain →
    (∃ e, run.1 = .error e) ∧ run.2 = { args with out := args.out.map (overwrite plain) }

variable {st : Streaming p} {ctx : Crypto κ} {input out ct tag : Bytes} {iv : Iv} {evp : EvpCalls}
  {n : Nat} {args : OutArgs}

/-! ## Decryption -/

theorem untouched_of_unchanged {run : Except PfErr Unit × OutArgs} (h : run.2 = args) :
    Untouched args run := fun _ _ => h

theorem LeftOnError.of_unchanged {run : Except PfErr Unit × OutArgs} {spills : Bytes → Prop}
    (h : run.2 = args) (hno : ∀ plain, ¬ spills plain) : LeftOnError args run spills where
  untouched := iff_of_true (untouched_of_unchanged h) hno
  spilt plain hs := absurd hs (hno plain)

theorem LeftOnError.congr {run : Except PfErr Unit × OutArgs} {spills spills' : Bytes → Prop}
    (h : LeftOnError args run spills) (heq : ∀ plain, spills plain ↔ spills' plain) :
    LeftOnError args run spills' := by
  obtain rfl : spills = spills' := funext fun plain => propext (heq plain)
  exact h

/-- A call that gets to the bytes fails just by the tag, with the bytes written. -/
theorem untouched_writes (h : Writes ctx input evp iv ct tag) :
    Untouched ⟨some out, some n⟩ (decryptInto st ctx input evp out n) ↔
      (evp.setTag = false ∨ p.cipher.decrypt ctx.key iv ct tag = none →
        st.update ctx.key iv ct <+: out) := by
  rw [decryptInto_of_writes h, ← overwrite_eq_iff]
  unfold Untouched
  cases hset : evp.setTag with
  | false => simp
  | true =>
    cases hdec : p.cipher.decrypt ctx.key iv ct tag with
    | none => simp
    | some msg => simp

theorem spilt_writes (h : Writes ctx input evp iv ct tag)
    (hlate : evp.setTag = false ∨ p.cipher.decrypt ctx.key iv ct tag = none) :
    ∃ e, decryptInto st ctx input evp out n =
      (.error e, ⟨some (overwrite (st.update ctx.key iv ct) out), some n⟩) := by
  rw [decryptInto_of_writes h]
  cases hset : evp.setTag with
  | false => exact ⟨.crypto, rfl⟩
  | true =>
    refine ⟨.auth, ?_⟩
    have hdec := hlate.resolve_left (by rw [hset]; decide)
    rw [hdec]
    rfl

theorem left_decryptInto :
    LeftOnError ⟨some out, some n⟩ (decryptInto st ctx input evp out n)
      (Spills st ctx input evp out) := by
  by_cases hw : ∃ iv ct tag, Writes ctx input evp iv ct tag
  · obtain ⟨iv, ct, tag, hw⟩ := hw
    constructor
    · rw [untouched_writes hw]
      constructor
      · rintro h plain ⟨iv', ct', tag', hw', hlate, rfl, hnew⟩
        obtain ⟨rfl, rfl, rfl⟩ := hw.unique hw'
        exact hnew (h hlate)
      · intro h hlate
        by_contra hnew
        exact h _ ⟨iv, ct, tag, hw, hlate, rfl, hnew⟩
    · rintro plain ⟨iv', ct', tag', hw', hlate, rfl, -⟩
      obtain ⟨e, he⟩ : ∃ e, decryptInto st ctx input evp out n =
          (.error e, ⟨some (overwrite (st.update ctx.key iv' ct') out), some n⟩) :=
        spilt_writes hw' hlate
      rw [he]
      exact ⟨⟨e, rfl⟩, rfl⟩
  · obtain ⟨e, he⟩ : ∃ e, decryptInto st ctx input evp out n = (.error e, ⟨some out, some n⟩) :=
      decryptInto_of_not_writes fun iv ct tag h => hw ⟨iv, ct, tag, h⟩
    refine .of_unchanged (by rw [he]) ?_
    rintro plain ⟨iv, ct, tag, h, -⟩
    exact hw ⟨iv, ct, tag, h⟩

theorem left_decrypt (st : Streaming p) (ctx : Option (Crypto κ)) (input : Option Bytes)
    (evp : EvpCalls) (args : OutArgs) :
    LeftOnError args (CryptoMemory.pfCryptoDecrypt st ctx input evp args)
      (DecryptSpills st ctx input evp args) := by
  obtain ⟨out, outLen⟩ := args
  -- with a NULL pointer the call returns at once
  cases ctx with
  | none => exact .of_unchanged rfl (by rintro plain ⟨c, i, o, n, hc, -⟩; cases hc)
  | some c =>
  cases input with
  | none => exact .of_unchanged rfl (by rintro plain ⟨c, i, o, n, -, hi, -⟩; cases hi)
  | some i =>
  cases out with
  | none => exact .of_unchanged rfl (by rintro plain ⟨c, i, o, n, -, -, ha, -⟩; cases ha)
  | some o =>
  cases outLen with
  | none => exact .of_unchanged rfl (by rintro plain ⟨c, i, o, n, -, -, ha, -⟩; cases ha)
  | some n =>
    refine left_decryptInto.congr fun plain => ⟨fun h => ⟨c, i, o, n, rfl, rfl, rfl, h⟩, ?_⟩
    rintro ⟨c, i, o, n, hc, hi, ha, h⟩
    cases hc
    cases hi
    cases ha
    exact h

/-! ## Import -/

/-- Past its own checks an import is a decryption under the key of its password and salt. -/
theorem exportDecrypt_of_salt (password : CStr) (salt : Salt) {rest : Bytes}
    (hlen : pfIvLen + pfTagLen ≤ rest.length) (evp : EvpCalls) (out : Bytes) (n : Nat) :
    CryptoMemory.pfCryptoExportDecrypt st (some password) (some (salt.bytes ++ rest)) true evp
        ⟨some out, some n⟩ =
      CryptoMemory.pfCryptoDecrypt st (some ⟨p.kdf password salt, salt, true⟩) (some rest) evp
        ⟨some out, some n⟩ := by
  have hsalt : salt.bytes.length = pfSaltLen := salt.size
  have hlong : ¬ (salt.bytes ++ rest).length < pfSaltLen + pfIvLen + pfTagLen := by
    rw [List.length_append, hsalt]
    omega
  unfold CryptoMemory.pfCryptoExportDecrypt
  dsimp only
  rw [dif_neg hlong]
  simp only [Block.read_append, pfCryptoUnlock, deriveAndUnlock, if_true, List.drop_left' hsalt]

/-- An import has its pointers, a password the key is derived from, and an input that is long enough. -/
def GetsToDecrypt (password : Option CStr) (input : Option Bytes) (kdfOk : Bool) (args : OutArgs) :
    Prop :=
  ∃ (pw : CStr) (salt : Salt) (rest out : Bytes) (n : Nat),
    password = some pw ∧ input = some (salt.bytes ++ rest) ∧ kdfOk = true ∧
      args = ⟨some out, some n⟩ ∧ pfIvLen + pfTagLen ≤ rest.length

/-- An import that fails before the decryption, which writes nothing. -/
theorem exportDecrypt_early {password : Option CStr} {input : Option Bytes} {kdfOk : Bool}
    (h : ¬ GetsToDecrypt password input kdfOk args) :
    ∃ e, CryptoMemory.pfCryptoExportDecrypt st password input kdfOk evp args = (.error e, args) := by
  obtain ⟨out, outLen⟩ := args
  cases password with
  | none => exact ⟨.err, rfl⟩
  | some pw =>
  cases input with
  | none => exact ⟨.err, rfl⟩
  | some i =>
  cases out with
  | none => exact ⟨.err, rfl⟩
  | some o =>
  cases outLen with
  | none => exact ⟨.err, rfl⟩
  | some n =>
    refine ⟨.crypto, ?_⟩
    unfold CryptoMemory.pfCryptoExportDecrypt
    dsimp only
    by_cases hlen : i.length < pfSaltLen + pfIvLen + pfTagLen
    · rw [dif_pos hlen]
    · rw [dif_neg hlen]
      have hsplit : (Block.read pfSaltLen i (by omega)).bytes ++ i.drop pfSaltLen = i :=
        List.take_append_drop pfSaltLen i
      have hrest : pfIvLen + pfTagLen ≤ (i.drop pfSaltLen).length := by
        rw [List.length_drop]
        omega
      have hkdf : kdfOk = false := Bool.eq_false_iff.mpr fun hk =>
        h ⟨pw, _, i.drop pfSaltLen, o, n, rfl, congrArg some hsplit.symm, hk, rfl, hrest⟩
      rw [hkdf]
      simp [pfCryptoUnlock, deriveAndUnlock]

theorem left_exportDecrypt (st : Streaming p) (password : Option CStr) (input : Option Bytes)
    (kdfOk : Bool) (evp : EvpCalls) (args : OutArgs) :
    LeftOnError args (CryptoMemory.pfCryptoExportDecrypt st password input kdfOk evp args)
      (ExportSpills st password input kdfOk evp args) := by
  by_cases h : GetsToDecrypt password input kdfOk args
  · obtain ⟨pw, salt, rest, out, n, rfl, rfl, rfl, rfl, hlen⟩ := h
    rw [exportDecrypt_of_salt pw salt hlen]
    refine (left_decrypt st _ _ evp _).congr fun plain =>
      ⟨fun h => ⟨pw, salt, rest, rfl, rfl, rfl, h⟩, ?_⟩
    rintro ⟨pw', salt', rest', hpw, hi, -, h⟩
    obtain rfl := Option.some.inj hpw
    obtain ⟨hsalt, rfl⟩ := List.append_inj (Option.some.inj hi) (salt.size.trans salt'.size.symm)
    obtain ⟨bytes, size⟩ := salt
    obtain ⟨bytes', size'⟩ := salt'
    obtain rfl : bytes = bytes' := hsalt
    exact h
  · obtain ⟨e, he⟩ : ∃ e, CryptoMemory.pfCryptoExportDecrypt st password input kdfOk evp args =
        (.error e, args) := exportDecrypt_early h
    refine .of_unchanged (by rw [he]) ?_
    rintro plain ⟨pw, salt, rest, hpw, hi, hk, c, i, out, n, -, hrest, ha, iv, ct, tag, hw, -⟩
    obtain rfl := Option.some.inj hrest
    exact h ⟨pw, salt, rest, out, n, hpw, hi, hk, ha, hw.parts.length_le⟩

/-! ## Both -/

/-- A failed call never changes the caller's length, and changes the buffer exactly if it has
decrypted bytes into it, which are then all that is changed. -/
theorem left_on_error (st : Streaming p) (evp : EvpCalls) (args : OutArgs) :
    (∀ ctx input, LeftOnError args (CryptoMemory.pfCryptoDecrypt st ctx input evp args)
      (DecryptSpills st ctx input evp args)) ∧
    ∀ password input kdfOk,
      LeftOnError args (CryptoMemory.pfCryptoExportDecrypt st password input kdfOk evp args)
        (ExportSpills st password input kdfOk evp args) :=
  ⟨fun ctx input => left_decrypt st ctx input evp args,
    fun password input kdfOk => left_exportDecrypt st password input kdfOk evp args⟩

/-- A cipher that leaves the message as it is, under a zero tag. -/
def plainCipher : Primitives Unit where
  zeroKey := ()
  kdf _ _ := ()
  cipher := ⟨fun _ _ msg => (msg, List.replicate pfTagLen 0),
    fun _ _ ct tag => if tag = List.replicate pfTagLen 0 then some ct else none⟩

def plainStream : Streaming plainCipher where
  update _ _ ct := ct
  length_update _ _ _ := rfl
  opened _ _ ct tag msg h := by
    simp only [plainCipher] at h
    split at h
    · exact (Option.some.inj h).symm
    · cases h

/-- The byte of a box with a wrong tag is in `out` although the call rejects it. -/
theorem rejected_byte_in_out :
    ¬ Untouched ⟨some [0], some 9⟩ (CryptoMemory.pfCryptoDecrypt plainStream
      (some ⟨(), .zero pfSaltLen, true⟩)
      (some (List.replicate pfIvLen 0 ++ 7 :: List.replicate pfTagLen 1)) .allOk
      ⟨some [0], some 9⟩) := by
  intro h
  have hrun : CryptoMemory.pfCryptoDecrypt plainStream (some ⟨(), .zero pfSaltLen, true⟩)
      (some (List.replicate pfIvLen 0 ++ 7 :: List.replicate pfTagLen 1)) .allOk
      ⟨some [0], some 9⟩ = (.error .auth, ⟨some [7], some 9⟩) := by decide +kernel
  rw [hrun] at h
  exact absurd (h .auth rfl) (by decide)

end Proxiflare.Guarantees.PlaintextEscapes
