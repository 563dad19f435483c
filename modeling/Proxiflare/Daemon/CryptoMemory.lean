import Proxiflare.Daemon.Crypto

/-!
# Decryption into the caller's buffer

`pf_crypto_decrypt` and `pf_crypto_export_decrypt` of `daemon/src/crypto.c` with every exit they
have and with what `out` and `*out_len` hold when they return. `EVP_DecryptUpdate` writes the
decrypted bytes; the tag is checked after it. A caller's `out` has room for them.
-/

namespace Proxiflare.Daemon.CryptoMemory

open Lib.CString Lib.Aead

variable {κ : Type}

/-- The cipher as it is driven: bytes come out as they go in, whatever the tag will be. -/
structure Streaming (p : Primitives κ) where
  update : κ → Iv → Bytes → Bytes
  length_update : ∀ key iv ct, (update key iv ct).length = ct.length
  opened : ∀ key iv ct tag msg, p.cipher.decrypt key iv ct tag = some msg → msg = update key iv ct

/-- Whether each of the calls before the tag is checked succeeds: `EVP_CIPHER_CTX_new`, the three
that set cipher, IV length and key, `EVP_DecryptUpdate` and the one that sets the tag. -/
structure EvpCalls where
  new : Bool
  init : Bool
  setIvLen : Bool
  setKey : Bool
  update : Bool
  setTag : Bool

def EvpCalls.allOk : EvpCalls := ⟨true, true, true, true, true, true⟩

/-- The caller's `out` and `*out_len`; `none` is a NULL pointer. -/
structure OutArgs where
  out : Option Bytes
  outLen : Option Nat
  deriving DecidableEq

/-- A buffer after `bytes` have been written to its start. -/
def overwrite (bytes out : Bytes) : Bytes := bytes ++ out.drop bytes.length

variable {p : Primitives κ} (st : Streaming p)

/-- From `EVP_CIPHER_CTX_new` on. `EVP_DecryptFinal_ex` puts out no further bytes. -/
def runEvp (key : κ) (iv : Iv) (ciphertext tag : Bytes) (evp : EvpCalls) (out : Bytes)
    (outLen : Nat) : Except PfErr Unit × OutArgs :=
  if !evp.new then (.error .crypto, ⟨some out, some outLen⟩)
  else if !evp.init then (.error .crypto, ⟨some out, some outLen⟩)
  else if !evp.setIvLen then (.error .crypto, ⟨some out, some outLen⟩)
  else if !evp.setKey then (.error .crypto, ⟨some out, some outLen⟩)
  else if !evp.update then (.error .crypto, ⟨some out, some outLen⟩)
  else match evpInput ciphertext with
    | none => (.error .crypto, ⟨some out, some outLen⟩)
    | some ct =>
      let plain := st.update key iv ct
      if !evp.setTag then (.error .crypto, ⟨some (overwrite plain out), some outLen⟩)
      else if (p.cipher.decrypt key iv ct tag).isNone then
        (.error .auth, ⟨some (overwrite plain out), some outLen⟩)
      else (.ok ⟨⟩, ⟨some (overwrite plain out), some plain.length⟩)

theorem iv_fits {input : Bytes} (h : ¬ input.length < pfIvLen + pfTagLen) :
    pfIvLen ≤ input.length := by
  omega

theorem salt_fits {input : Bytes} (h : ¬ input.length < pfSaltLen + pfIvLen + pfTagLen) :
    pfSaltLen ≤ input.length := by
  omega

/-- Past the NULL checks. -/
def decryptInto (ctx : Crypto κ) (input : Bytes) (evp : EvpCalls) (out : Bytes) (outLen : Nat) :
    Except PfErr Unit × OutArgs :=
  if !ctx.unlocked then (.error .locked, ⟨some out, some outLen⟩)
  else if h : input.length < pfIvLen + pfTagLen then (.error .crypto, ⟨some out, some outLen⟩)
  else
    let ctLen := input.length - pfIvLen - pfTagLen
    runEvp st ctx.key (Block.read pfIvLen input (iv_fits h)) ((input.drop pfIvLen).take ctLen)
      (input.drop (pfIvLen + ctLen)) evp out outLen

def pfCryptoDecrypt (ctx : Option (Crypto κ)) (input : Option Bytes) (evp : EvpCalls)
    (args : OutArgs) : Except PfErr Unit × OutArgs :=
  match ctx, input, args.out, args.outLen with
  | some ctx, some input, some out, some outLen => decryptInto st ctx input evp out outLen
  | _, _, _, _ => (.error .err, args)

/-- The context lives on the stack and is locked again before the return. -/
def pfCryptoExportDecrypt (password : Option CStr) (input : Option Bytes) (kdfOk : Bool)
    (evp : EvpCalls) (args : OutArgs) : Except PfErr Unit × OutArgs :=
  match password, input, args.out, args.outLen with
  | some password, some input, some _, some _ =>
    if h : input.length < pfSaltLen + pfIvLen + pfTagLen then (.error .crypto, args)
    else
      let salt := Block.read pfSaltLen input (salt_fits h)
      match pfCryptoUnlock p (some password) (some salt) kdfOk (pfCryptoInit p) with
      | (.error e, _) => (.error e, args)
      | (.ok _, ctx) => pfCryptoDecrypt st (some ctx) (some (input.drop pfSaltLen)) evp args
  | _, _, _, _ => (.error .err, args)

/-! ## What a call can do -/

/-- All calls before the tag is set succeed. -/
def EvpCalls.untilUpdate (evp : EvpCalls) : Bool :=
  evp.new && evp.init && evp.setIvLen && evp.setKey && evp.update

/-- An input of IV, body and tag, and what of the body is processed. -/
structure Parts (input : Bytes) (iv : Iv) (ct tag : Bytes) : Prop where
  layout : ∃ body, input = iv.bytes ++ (body ++ tag) ∧ evpInput body = some ct
  tagLength : tag.length = pfTagLen

/-- A call gets to the bytes of an input: it writes what `plain` is. -/
structure Writes (ctx : Crypto κ) (input : Bytes) (evp : EvpCalls) (iv : Iv) (ct tag : Bytes) :
    Prop where
  unlocked : ctx.unlocked = true
  calls : evp.untilUpdate = true
  parts : Parts input iv ct tag

variable {st} {ctx : Crypto κ} {input out ct tag body : Bytes} {iv : Iv} {evp : EvpCalls} {n : Nat}

theorem overwrite_eq_iff (plain out : Bytes) : overwrite plain out = out ↔ plain <+: out := by
  unfold overwrite
  constructor
  · intro h
    exact ⟨_, h⟩
  · rintro ⟨rest, rfl⟩
    rw [List.drop_left]

theorem Writes.unique {iv' : Iv} {ct' tag' : Bytes} (h : Writes ctx input evp iv ct tag)
    (h' : Writes ctx input evp iv' ct' tag') : iv = iv' ∧ ct = ct' ∧ tag = tag' := by
  obtain ⟨body, rfl, hct⟩ := h.parts.layout
  obtain ⟨body', heq, hct'⟩ := h'.parts.layout
  obtain ⟨hiv, hrest⟩ := List.append_inj heq (iv.size.trans iv'.size.symm)
  have htags : tag.length = tag'.length := h.parts.tagLength.trans h'.parts.tagLength.symm
  obtain ⟨rfl, rfl⟩ := List.append_inj' hrest htags
  rw [hct] at hct'
  obtain ⟨bytes, size⟩ := iv
  obtain ⟨bytes', size'⟩ := iv'
  obtain rfl : bytes = bytes' := hiv
  exact ⟨rfl, Option.some.inj hct', rfl⟩

theorem Parts.length_le (h : Parts input iv ct tag) : pfIvLen + pfTagLen ≤ input.length := by
  obtain ⟨body, rfl, -⟩ := h.layout
  have hshort : ¬ (iv.bytes ++ (body ++ tag)).length < pfIvLen + pfTagLen :=
    not_short_layout h.tagLength
  omega

theorem exists_layout (h : pfIvLen + pfTagLen ≤ input.length) :
    ∃ (iv : Iv) (body tag : Bytes), input = iv.bytes ++ (body ++ tag) ∧ tag.length = pfTagLen := by
  refine ⟨Block.read pfIvLen input (by omega), (input.drop pfIvLen).take (input.length - pfIvLen - pfTagLen),
    (input.drop pfIvLen).drop (input.length - pfIvLen - pfTagLen), ?_, ?_⟩
  · rw [List.take_append_drop]
    exact (List.take_append_drop pfIvLen input).symm
  · rw [List.length_drop, List.length_drop]
    omega

/-- A call on the parts of its input. -/
theorem decryptInto_parts (hun : ctx.unlocked = true) (htag : tag.length = pfTagLen) :
    decryptInto st ctx (iv.bytes ++ (body ++ tag)) evp out n =
      runEvp st ctx.key iv body tag evp out n := by
  unfold decryptInto
  rw [hun, dif_neg (not_short_layout htag)]
  simp only [Bool.not_true, Bool.false_eq_true, if_false, bodyLength_layout htag, body_layout,
    tag_layout, Block.read_append]

theorem runEvp_of_calls (h : evp.untilUpdate = true) {key : κ} (hct : evpInput body = some ct) :
    runEvp st key iv body tag evp out n =
      if !evp.setTag then (.error .crypto, ⟨some (overwrite (st.update key iv ct) out), some n⟩)
      else if (p.cipher.decrypt key iv ct tag).isNone then
        (.error .auth, ⟨some (overwrite (st.update key iv ct) out), some n⟩)
      else (.ok ⟨⟩, ⟨some (overwrite (st.update key iv ct) out), some ct.length⟩) := by
  unfold EvpCalls.untilUpdate at h
  simp only [Bool.and_eq_true] at h
  obtain ⟨⟨⟨⟨hnew, hinit⟩, hivLen⟩, hkey⟩, hupdate⟩ := h
  unfold runEvp
  simp only [hnew, hinit, hivLen, hkey, hupdate, hct, Bool.not_true, Bool.false_eq_true, if_false,
    st.length_update]

theorem runEvp_of_not_calls {key : κ}
    (h : evp.untilUpdate = true → evpInput body = none) :
    runEvp st key iv body tag evp out n = (.error .crypto, ⟨some out, some n⟩) := by
  obtain ⟨new, init, setIvLen, setKey, update, setTag⟩ := evp
  unfold EvpCalls.untilUpdate at h
  unfold runEvp
  cases new with
  | false => rfl
  | true =>
  cases init with
  | false => rfl
  | true =>
  cases setIvLen with
  | false => rfl
  | true =>
  cases setKey with
  | false => rfl
  | true =>
  cases update with
  | false => rfl
  | true =>
    rw [h rfl]
    rfl

/-- A call that does not get to the bytes fails and leaves the caller's buffer alone. -/
theorem decryptInto_of_not_writes (h : ∀ iv ct tag, ¬ Writes ctx input evp iv ct tag) :
    ∃ e, decryptInto st ctx input evp out n = (.error e, ⟨some out, some n⟩) := by
  by_cases hun : ctx.unlocked = true
  · by_cases hlen : pfIvLen + pfTagLen ≤ input.length
    · obtain ⟨iv, body, tag, rfl, htag⟩ := exists_layout hlen
      rw [decryptInto_parts hun htag]
      refine ⟨.crypto, runEvp_of_not_calls fun hcalls => ?_⟩
      cases hct : evpInput body with
      | none => rfl
      | some ct => exact absurd ⟨hun, hcalls, ⟨body, rfl, hct⟩, htag⟩ (h iv ct tag)
    · refine ⟨.crypto, ?_⟩
      unfold decryptInto
      rw [hun, dif_pos (by omega)]
      simp
  · refine ⟨.locked, ?_⟩
    unfold decryptInto
    rw [Bool.eq_false_iff.mpr hun]
    simp

/-- A call that gets to the bytes writes them all, and what it returns depends on what follows. -/
theorem decryptInto_of_writes (h : Writes ctx input evp iv ct tag) :
    decryptInto st ctx input evp out n =
      if !evp.setTag then (.error .crypto, ⟨some (overwrite (st.update ctx.key iv ct) out), some n⟩)
      else if (p.cipher.decrypt ctx.key iv ct tag).isNone then
        (.error .auth, ⟨some (overwrite (st.update ctx.key iv ct) out), some n⟩)
      else (.ok ⟨⟩, ⟨some (overwrite (st.update ctx.key iv ct) out), some ct.length⟩) := by
  obtain ⟨body, rfl, hct⟩ := h.parts.layout
  rw [decryptInto_parts h.unlocked h.parts.tagLength, runEvp_of_calls h.calls hct]

/-! ## What the caller is told -/

theorem runEvp_result (key : κ) (iv : Iv) (body tag : Bytes) (evp : EvpCalls) (out : Bytes) (n : Nat) :
    (runEvp st key iv body tag evp out n).1 =
      if !(evp.untilUpdate && evp.setTag) then .error .crypto
      else match evpInput body with
        | none => .error .crypto
        | some ct => match p.cipher.decrypt key iv ct tag with
          | none => .error .auth
          | some _ => .ok () := by
  by_cases hcalls : evp.untilUpdate = true
  · cases hct : evpInput body with
    | none =>
      rw [runEvp_of_not_calls fun _ => hct]
      simp
    | some ct =>
      rw [runEvp_of_calls hcalls hct, hcalls]
      cases evp.setTag with
      | false => rfl
      | true => cases hdec : p.cipher.decrypt key iv ct tag <;> simp [hdec]
  · rw [runEvp_of_not_calls fun h => absurd h hcalls, Bool.eq_false_iff.mpr hcalls]
    rfl

/-- It is what decryption without the buffer gives. -/
theorem decryptInto_result (ctx : Crypto κ) (input : Bytes) (evp : EvpCalls) (out : Bytes) (n : Nat) :
    (decryptInto st ctx input evp out n).1 =
      (Daemon.pfCryptoDecrypt p ctx input (evp.untilUpdate && evp.setTag)).map fun _ => () := by
  unfold decryptInto Daemon.pfCryptoDecrypt
  by_cases hun : ctx.unlocked = true
  · by_cases hlen : input.length < pfIvLen + pfTagLen
    · rw [hun, dif_pos hlen, dif_pos hlen]
      rfl
    · rw [hun, dif_neg hlen, dif_neg hlen]
      simp only [Bool.not_true, Bool.false_eq_true, if_false]
      rw [runEvp_result]
      cases (evp.untilUpdate && evp.setTag) with
      | false => rfl
      | true =>
        simp only [Bool.not_true, Bool.false_eq_true, if_false]
        cases evpInput ((input.drop pfIvLen).take (input.length - pfIvLen - pfTagLen)) with
        | none => rfl
        | some ct =>
          dsimp only
          cases p.cipher.decrypt ctx.key (Block.read pfIvLen input (by omega)) ct
            (input.drop (pfIvLen + (input.length - pfIvLen - pfTagLen))) <;> rfl
  · rw [Bool.eq_false_iff.mpr hun]
    rfl

end Proxiflare.Daemon.CryptoMemory
