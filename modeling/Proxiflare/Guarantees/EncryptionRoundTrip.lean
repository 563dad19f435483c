import Proxiflare.Daemon.Crypto
import Mathlib.Data.List.TakeDrop

/-!
# What encryption puts out, decryption takes back

Both layouts, with an ideal cipher and a key derivation that tells passwords and salts
apart. `made` are the encryptions that take place: besides what those put out, nothing
decrypts.
-/

namespace Proxiflare.Guarantees.EncryptionRoundTrip

open Lib.CString Lib.Aead
open Proxiflare.Daemon

variable {κ : Type} {p : Primitives κ} {made : κ → Iv → Bytes → Prop}

structure IdealCrypto (p : Primitives κ) (made : κ → Iv → Bytes → Prop) : Prop where
  kdf : Function.Injective2 p.kdf
  cipher : Ideal p.cipher pfTagLen made

/-- The context after an unlock. -/
def unlockedWith (p : Primitives κ) (password : CStr) (salt : Salt) : Crypto κ :=
  (pfCryptoUnlock p (some password) (some salt) true (pfCryptoInit p)).2

/-- IV, ciphertext and tag of one message. -/
def box (p : Primitives κ) (key : κ) (iv : Iv) (msg : Bytes) : Bytes :=
  iv.bytes ++ ((p.cipher.encrypt key iv msg).1 ++ (p.cipher.encrypt key iv msg).2)

/-- Among the encryptions that take place, only the one of `msg` puts these bytes out. -/
def NoOther (p : Primitives κ) (made : κ → Iv → Bytes → Prop) (key : κ) (iv : Iv) (msg bytes : Bytes) :
    Prop :=
  ∀ key' iv' msg', made key' iv' msg' → box p key' iv' msg' = bytes →
    key' = key ∧ iv' = iv ∧ msg' = msg

theorem evpInput_of_short {input : Bytes} (h : input.length < 2 ^ 31) :
    evpInput input = some input := by
  have hcast : intOfSize input.length = input.length := by
    unfold intOfSize
    rw [Int.bmod_eq_of_le] <;> omega
  unfold evpInput
  rw [hcast]
  simp

/-! ## One layer -/

theorem box_length (h : Ideal p.cipher pfTagLen made) (key : κ) (iv : Iv) (msg : Bytes) :
    (box p key iv msg).length = msg.length + 28 := by
  have hiv : iv.bytes.length = 12 := iv.size
  have htag : (p.cipher.encrypt key iv msg).2.length = 16 := h.tagLength key iv msg
  unfold box
  rw [List.length_append, List.length_append, h.cipherLength, htag, hiv]
  omega

theorem encrypt_box {ctx : Crypto κ} (hun : ctx.unlocked = true) {msg : Bytes}
    (hlen : msg.length < 2 ^ 31) (iv : Iv) :
    pfCryptoEncrypt p ctx msg ⟨iv, true⟩ true = .ok (box p ctx.key iv msg) := by
  unfold pfCryptoEncrypt
  rw [hun, evpInput_of_short hlen]
  simp [box]

/-- A decryption of the three parts of its input. -/
theorem decrypt_parts {ctx : Crypto κ} (hun : ctx.unlocked = true) {iv : Iv} {ct tag : Bytes}
    (htag : tag.length = pfTagLen) (hlen : ct.length < 2 ^ 31) :
    pfCryptoDecrypt p ctx (iv.bytes ++ (ct ++ tag)) true =
      (p.cipher.decrypt ctx.key iv ct tag).elim (.error .auth) .ok :=
  pfCryptoDecrypt_parts hun htag (evpInput_of_short hlen)

theorem decrypt_box (h : Ideal p.cipher pfTagLen made) {ctx : Crypto κ} (hun : ctx.unlocked = true)
    {iv : Iv} {msg : Bytes} (hlen : msg.length < 2 ^ 31) (hmade : made ctx.key iv msg) :
    pfCryptoDecrypt p ctx (box p ctx.key iv msg) true = .ok msg := by
  unfold box
  rw [decrypt_parts hun (h.tagLength _ _ _) (by rw [h.cipherLength]; exact hlen),
    h.correct _ _ _ hmade]
  rfl

/-- Only what an encryption under the key put out decrypts. -/
theorem decrypt_ok (h : Ideal p.cipher pfTagLen made) {ctx : Crypto κ} {bytes msg : Bytes}
    {evpOk : Bool} (hlen : bytes.length < 2 ^ 31)
    (hok : pfCryptoDecrypt p ctx bytes evpOk = .ok msg) :
    ∃ iv, made ctx.key iv msg ∧ box p ctx.key iv msg = bytes := by
  unfold pfCryptoDecrypt at hok
  split at hok
  · cases hok
  split at hok
  · cases hok
  next hshort =>
  dsimp only at hok
  split at hok
  · cases hok
  rw [evpInput_of_short (by simp; omega)] at hok
  dsimp only at hok
  split at hok
  · cases hok
  next opened hdec =>
  obtain rfl := Except.ok.inj hok
  obtain ⟨hmade, henc⟩ := h.authentic _ _ _ _ _ hdec
  refine ⟨_, hmade, ?_⟩
  unfold box
  rw [henc, ← List.drop_drop, List.take_append_drop]
  exact List.take_append_drop pfIvLen bytes

theorem decrypt_short (ctx : Crypto κ) (hun : ctx.unlocked = true) {bytes : Bytes}
    (hshort : bytes.length < 28) (evpOk : Bool) :
    pfCryptoDecrypt p ctx bytes evpOk = .error .crypto := by
  unfold pfCryptoDecrypt
  rw [hun, dif_pos (by show _ < 28; omega)]
  rfl

/-! ## Exports -/

theorem exportEncrypt_of {password : Option CStr} {msg out : Bytes} {rand : Random pfSaltLen}
    {iv : Random pfIvLen} {kdfOk evpOk : Bool} {c : Crypto κ}
    (hset : pfCryptoSetMaster p password none rand kdfOk (pfCryptoInit p) = (.ok (), c))
    (henc : pfCryptoEncrypt p c msg iv evpOk = .ok out) :
    pfCryptoExportEncrypt p password msg rand kdfOk iv evpOk = .ok (c.salt.bytes ++ out) := by
  unfold pfCryptoExportEncrypt
  rw [hset]
  dsimp only
  rw [henc]

theorem exportEncrypt_box (password : CStr) (salt : Salt) (iv : Iv) {msg : Bytes}
    (hlen : msg.length < 2 ^ 31) :
    pfCryptoExportEncrypt p (some password) msg ⟨salt, true⟩ true ⟨iv, true⟩ true =
      .ok (salt.bytes ++ box p (p.kdf password salt) iv msg) :=
  exportEncrypt_of (c := unlockedWith p password salt) rfl (encrypt_box rfl hlen iv)

/-- Reading the salt back is an unlock with it. -/
theorem exportDecrypt_eq (password : CStr) {bytes : Bytes} (hlen : 44 ≤ bytes.length) (evpOk : Bool) :
    pfCryptoExportDecrypt p (some password) bytes true evpOk =
      pfCryptoDecrypt p (unlockedWith p password (Block.read pfSaltLen bytes (by
        show 16 ≤ _
        omega))) (bytes.drop pfSaltLen) evpOk := by
  unfold pfCryptoExportDecrypt
  rw [if_neg (by simp), dif_neg (by show ¬ _ < 44; omega)]
  rfl

theorem exportDecrypt_short (password : CStr) {bytes : Bytes} (hshort : bytes.length < 44)
    (kdfOk evpOk : Bool) :
    pfCryptoExportDecrypt p (some password) bytes kdfOk evpOk = .error .crypto := by
  unfold pfCryptoExportDecrypt
  rw [if_neg (by simp), dif_pos (by show _ < 44; omega)]

/-! ## The whole of it -/

/-- Under any password and salt, bytes that no other encryption put out are turned away. -/
theorem no_forgery (h : IdealCrypto p made) {password password' : CStr} {salt salt' : Salt} {iv : Iv}
    {msg bytes : Bytes} {evpOk : Bool} (hlen : bytes.length < 2 ^ 31)
    (hother : NoOther p made (p.kdf password salt) iv msg bytes)
    (hne : password' = password → salt' = salt → bytes ≠ box p (p.kdf password salt) iv msg) :
    ∃ e, pfCryptoDecrypt p (unlockedWith p password' salt') bytes evpOk = .error e := by
  cases hdec : pfCryptoDecrypt p (unlockedWith p password' salt') bytes evpOk with
  | error e => exact ⟨e, rfl⟩
  | ok out =>
    obtain ⟨iv', hmade, hbox⟩ := decrypt_ok h.cipher hlen hdec
    obtain ⟨hkey, rfl, rfl⟩ := hother _ _ _ hmade hbox
    obtain ⟨hpw, hsalt⟩ := h.kdf hkey
    have hsame : bytes = box p (p.kdf password salt) iv' out := by
      rw [← hbox]
      exact congrArg (box p · iv' out) hkey
    exact absurd hsame (hne hpw hsalt)

/-- Both layouts come back, and nothing else does that was not put out by another encryption. -/
theorem encryption_round_trip (h : IdealCrypto p made) (password : CStr) (salt : Salt) (iv : Iv)
    {msg : Bytes} (hlen : msg.length < 2 ^ 31 - 64) (hmade : made (p.kdf password salt) iv msg) :
    (∃ out, pfCryptoEncrypt p (unlockedWith p password salt) msg ⟨iv, true⟩ true = .ok out ∧
      out.length = msg.length + 28 ∧
      pfCryptoDecrypt p (unlockedWith p password salt) out true = .ok msg ∧
      ∀ password' bytes evpOk, bytes.length < 28 ∨ bytes.length < 2 ^ 31 ∧
          (password' ≠ password ∨ bytes ≠ out) ∧
          NoOther p made (p.kdf password salt) iv msg bytes →
        ∃ e, pfCryptoDecrypt p (unlockedWith p password' salt) bytes evpOk = .error e) ∧
    ∃ out, pfCryptoExportEncrypt p (some password) msg ⟨salt, true⟩ true ⟨iv, true⟩ true = .ok out ∧
      out.length = msg.length + 44 ∧
      pfCryptoExportDecrypt p (some password) out true true = .ok msg ∧
      ∀ password' bytes evpOk, bytes.length < 44 ∨ bytes.length < 2 ^ 31 ∧
          (password' ≠ password ∨ bytes ≠ out) ∧
          NoOther p made (p.kdf password salt) iv msg (bytes.drop 16) →
        ∃ e, pfCryptoExportDecrypt p (some password') bytes true evpOk = .error e := by
  have hshort : msg.length < 2 ^ 31 := by omega
  have hbox := box_length h.cipher (p.kdf password salt) iv msg
  constructor
  · refine ⟨_, encrypt_box rfl hshort iv, hbox, decrypt_box h.cipher rfl hshort hmade, ?_⟩
    rintro password' bytes evpOk (htrunc | ⟨hbytes, hne, hother⟩)
    · exact ⟨_, decrypt_short _ rfl htrunc evpOk⟩
    · refine no_forgery h hbytes hother fun hpw _ => ?_
      exact hne.resolve_left (not_not.mpr hpw)
  · have hsalt : salt.bytes.length = 16 := salt.size
    have hsize : (salt.bytes ++ box p (p.kdf password salt) iv msg).length = msg.length + 44 := by
      rw [List.length_append, hbox, hsalt]
      omega
    refine ⟨_, exportEncrypt_box password salt iv hshort, hsize, ?_, ?_⟩
    · rw [exportDecrypt_eq password (by omega)]
      have hread : (salt.bytes ++ box p (p.kdf password salt) iv msg).drop pfSaltLen =
          box p (p.kdf password salt) iv msg := List.drop_left' hsalt
      rw [hread, Block.read_append]
      exact decrypt_box h.cipher rfl hshort hmade
    · rintro password' bytes evpOk (htrunc | ⟨hbytes, hne, hother⟩)
      · exact ⟨_, exportDecrypt_short password' htrunc true evpOk⟩
      · by_cases hlong : 44 ≤ bytes.length
        · rw [exportDecrypt_eq password' hlong]
          refine no_forgery h ?_ hother fun hpw hread hsame => ?_
          · rw [List.length_drop]
            omega
          · refine hne.resolve_left (not_not.mpr hpw) ?_
            rw [← hsame, ← hread]
            exact (List.take_append_drop pfSaltLen bytes).symm
        · exact ⟨_, exportDecrypt_short password' (by omega) true evpOk⟩

/-! ## One encryption -/

def onlySalt : Salt := .zero pfSaltLen

def onlyIv : Iv := .zero pfIvLen

/-- One message under one password is all that is ever encrypted. -/
def OnlySecret (key : Option (CStr × Salt)) (iv : Iv) (msg : Bytes) : Prop :=
  key = some (lit "hunter2", onlySalt) ∧ iv = onlyIv ∧ msg = lit "secret"

instance (key : Option (CStr × Salt)) (iv : Iv) (msg : Bytes) : Decidable (OnlySecret key iv msg) :=
  inferInstanceAs (Decidable (_ ∧ _ ∧ _))

/-- Keys are what they were derived from; the cipher opens the one box that was made. -/
def onlyCrypto : Primitives (Option (CStr × Salt)) where
  zeroKey := none
  kdf password salt := some (password, salt)
  cipher :=
    { encrypt := fun _ _ msg => (msg, List.replicate pfTagLen 0)
      decrypt := fun key iv ct tag =>
        if OnlySecret key iv ct ∧ tag = List.replicate pfTagLen 0 then some ct else none }

theorem onlyCrypto_ideal : IdealCrypto onlyCrypto OnlySecret where
  kdf := by
    intro pw pw' salt salt' heq
    exact Prod.mk.inj (Option.some.inj heq)
  cipher :=
    { cipherLength := fun _ _ _ => rfl
      tagLength := fun _ _ _ => List.length_replicate
      correct := fun _ _ _ hmade => if_pos ⟨hmade, rfl⟩
      authentic := by
        intro key iv ct tag msg hopen
        obtain ⟨⟨hmade, htag⟩, hmsg⟩ := Option.ite_none_right_eq_some.mp hopen
        obtain rfl := Option.some.inj hmsg
        exact ⟨hmade, Prod.ext rfl htag.symm⟩ }

theorem noOther_onlySecret (bytes : Bytes) :
    NoOther onlyCrypto OnlySecret (onlyCrypto.kdf (lit "hunter2") onlySalt) onlyIv (lit "secret")
      bytes :=
  fun _ _ _ hmade _ => hmade

/-- IV, ciphertext and tag. -/
def sealedSecret : Bytes := onlyIv.bytes ++ (lit "secret" ++ List.replicate pfTagLen 0)

/-- Its first byte of ciphertext is another one. -/
def alteredSecret : Bytes := sealedSecret.set 12 0

theorem secret_round_trip :
    (pfCryptoEncrypt onlyCrypto (unlockedWith onlyCrypto (lit "hunter2") onlySalt) (lit "secret")
        ⟨onlyIv, true⟩ true = .ok sealedSecret ∧
      pfCryptoDecrypt onlyCrypto (unlockedWith onlyCrypto (lit "hunter2") onlySalt) sealedSecret
        true = .ok (lit "secret") ∧
      (∃ e, pfCryptoDecrypt onlyCrypto (unlockedWith onlyCrypto (lit "hunter3") onlySalt) sealedSecret
        true = .error e) ∧
      ∃ e, pfCryptoDecrypt onlyCrypto (unlockedWith onlyCrypto (lit "hunter2") onlySalt) alteredSecret
        true = .error e) ∧
    pfCryptoExportEncrypt onlyCrypto (some (lit "hunter2")) (lit "secret") ⟨onlySalt, true⟩ true
        ⟨onlyIv, true⟩ true = .ok (onlySalt.bytes ++ sealedSecret) ∧
      pfCryptoExportDecrypt onlyCrypto (some (lit "hunter2")) (onlySalt.bytes ++ sealedSecret) true
        true = .ok (lit "secret") ∧
      (∃ e, pfCryptoExportDecrypt onlyCrypto (some (lit "hunter3")) (onlySalt.bytes ++ sealedSecret)
        true true = .error e) ∧
      ∃ e, pfCryptoExportDecrypt onlyCrypto (some (lit "hunter2")) (onlySalt.bytes ++ alteredSecret)
        true true = .error e := by
  have hlen : (lit "secret").length < 2 ^ 31 := by decide
  have hfits : (lit "secret").length < 2 ^ 31 - 64 := by decide
  obtain ⟨⟨out, henc, -, hdec, hrefused⟩, out', henc', -, hdec', hrefused'⟩ :=
    encryption_round_trip onlyCrypto_ideal (lit "hunter2") onlySalt onlyIv hfits ⟨rfl, rfl, rfl⟩
  have hbox : box onlyCrypto (onlyCrypto.kdf (lit "hunter2") onlySalt) onlyIv (lit "secret") =
      sealedSecret := rfl
  obtain rfl : sealedSecret = out := by
    rw [encrypt_box rfl hlen onlyIv] at henc
    exact Except.ok.inj henc
  obtain rfl : onlySalt.bytes ++ sealedSecret = out' := by
    rw [exportEncrypt_box _ onlySalt onlyIv hlen, hbox] at henc'
    exact Except.ok.inj henc'
  have hpassword : lit "hunter3" ≠ lit "hunter2" := by decide
  have haltered : alteredSecret ≠ sealedSecret := by decide
  refine ⟨⟨henc, hdec, ?_, ?_⟩, henc', hdec', ?_, ?_⟩
  · exact hrefused _ _ true (.inr ⟨by decide, .inl hpassword, noOther_onlySecret _⟩)
  · exact hrefused _ _ true (.inr ⟨by decide, .inr haltered, noOther_onlySecret _⟩)
  · exact hrefused' _ _ true (.inr ⟨by decide, .inl hpassword, noOther_onlySecret _⟩)
  · refine hrefused' _ _ true (.inr ⟨by decide, .inr fun heq => haltered ?_, noOther_onlySecret _⟩)
    exact List.append_cancel_left heq

end Proxiflare.Guarantees.EncryptionRoundTrip
