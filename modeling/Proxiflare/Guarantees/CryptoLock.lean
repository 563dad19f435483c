import Proxiflare.Daemon.Crypto
import Proxiflare.Lib.Runs

/-!
# Key and salt of the crypto context

`pf_crypto_set_master` and `pf_crypto_unlock` write the salt before they derive the
key, and return early when that fails. A context that was unlocked keeps its old key
beside the new salt then. The two belong together as long as no such call fails with a
salt other than the one in place.
-/

namespace Proxiflare.Guarantees.CryptoLock

open Lib.Runs Lib.CString Lib.Aead
open Proxiflare.Daemon

variable {κ : Type}

inductive CryptoCall where
  | init
  | setMaster (password : Option CStr) (salt : Option Salt) (rand : Random pfSaltLen) (kdfOk : Bool)
  | unlock (password : Option CStr) (salt : Option Salt) (kdfOk : Bool)
  | lock

/-- The context, and the passwords it was ever given. -/
structure Keyring (κ : Type) where
  ctx : Crypto κ
  supplied : List CStr

def CryptoCall.password : CryptoCall → Option CStr
  | .setMaster password _ _ _ => password
  | .unlock password _ _ => password
  | _ => none

def CryptoCall.apply (p : Primitives κ) (ctx : Crypto κ) : CryptoCall → Crypto κ
  | .init => pfCryptoInit p
  | .setMaster password salt rand kdfOk => (pfCryptoSetMaster p password salt rand kdfOk ctx).2
  | .unlock password salt kdfOk => (pfCryptoUnlock p password salt kdfOk ctx).2
  | .lock => pfCryptoLock p ctx

def step (p : Primitives κ) (s : Keyring κ) (c : CryptoCall) : Option (Keyring κ) :=
  some ⟨c.apply p s.ctx, s.supplied ++ c.password.toList⟩

def Starts (p : Primitives κ) (s : Keyring κ) : Prop := s = ⟨pfCryptoInit p, []⟩

/-- What the state of the context is to mean. -/
structure Sound (p : Primitives κ) (s : Keyring κ) : Prop where
  unlocked : s.ctx.unlocked = true →
    ∃ password ∈ s.supplied, s.ctx.key = p.kdf password s.ctx.salt
  lockedKey : s.ctx.unlocked = false → s.ctx.key = p.zeroKey
  lockedEncrypt : s.ctx.unlocked = false → ∀ input iv evpOk,
    pfCryptoEncrypt p s.ctx input iv evpOk = .error .locked
  lockedDecrypt : s.ctx.unlocked = false → ∀ input evpOk,
    pfCryptoDecrypt p s.ctx input evpOk = .error .locked

/-! ## What a call attempts -/

/-- The password and the salt a call works with, and whether it gets a key. Calls with a NULL
argument are turned away. -/
def CryptoCall.attempt : CryptoCall → Option (CStr × Salt × Bool)
  | .setMaster (some password) none rand kdfOk => some (password, rand.left, rand.ok && kdfOk)
  | .setMaster (some password) (some salt) _ kdfOk => some (password, salt, kdfOk)
  | .unlock (some password) (some salt) kdfOk => some (password, salt, kdfOk)
  | _ => none

/-- A call that gets no key finds the context locked, or its salt in place already. -/
def Harmless (s : Keyring κ) (c : CryptoCall) : Prop :=
  ∀ password salt, c.attempt = some (password, salt, false) →
    s.ctx.unlocked = true → salt = s.ctx.salt

variable {p : Primitives κ} {s s' : Keyring κ} {c : CryptoCall}

/-- An attempt puts its salt into the context and derives the key from there. -/
theorem apply_attempt {password : CStr} {salt : Salt} {derived : Bool} (ctx : Crypto κ)
    (h : c.attempt = some (password, salt, derived)) :
    c.apply p ctx = (deriveAndUnlock p derived password { ctx with salt := salt }).2 ∧
      c.password = some password := by
  cases c with
  | init => cases h
  | lock => cases h
  | setMaster pw sa rand kdfOk =>
    cases pw with
    | none => cases h
    | some pw =>
      cases sa with
      | none =>
        simp only [CryptoCall.attempt, Option.some.injEq, Prod.mk.injEq] at h
        obtain ⟨rfl, rfl, rfl⟩ := h
        refine ⟨?_, rfl⟩
        show (if rand.ok then _ else _ : Except PfErr Unit × Crypto κ).2 = _
        by_cases hrand : rand.ok = true
        · rw [if_pos hrand, hrand, Bool.true_and]
        · rw [if_neg hrand, Bool.eq_false_iff.mpr hrand]
          rfl
      | some sa =>
        simp only [CryptoCall.attempt, Option.some.injEq, Prod.mk.injEq] at h
        obtain ⟨rfl, rfl, rfl⟩ := h
        exact ⟨rfl, rfl⟩
  | unlock pw sa kdfOk =>
    cases pw with
    | none => cases h
    | some pw =>
      cases sa with
      | none => cases h
      | some sa =>
        simp only [CryptoCall.attempt, Option.some.injEq, Prod.mk.injEq] at h
        obtain ⟨rfl, rfl, rfl⟩ := h
        exact ⟨rfl, rfl⟩

/-- A call without an attempt locks the context or changes nothing. -/
theorem apply_idle (ctx : Crypto κ) (h : c.attempt = none) :
    c.apply p ctx = ctx ∨
      (c.apply p ctx).unlocked = false ∧ (c.apply p ctx).key = p.zeroKey := by
  cases c with
  | init => exact .inr ⟨rfl, rfl⟩
  | lock => exact .inr ⟨rfl, rfl⟩
  | setMaster pw sa rand kdfOk =>
    cases pw with
    | none => exact .inl rfl
    | some pw => cases sa <;> cases h
  | unlock pw sa kdfOk =>
    cases pw with
    | none => exact .inl rfl
    | some pw =>
      cases sa with
      | none => exact .inl rfl
      | some sa => cases h

/-! ## Runs -/

/-- While the context is locked only the key remains to be looked at. -/
theorem sound_of_locked (hlocked : s.ctx.unlocked = false) (hkey : s.ctx.key = p.zeroKey) :
    Sound p s where
  unlocked hun := absurd (hlocked.symm.trans hun) Bool.false_ne_true
  lockedKey _ := hkey
  lockedEncrypt _ input iv evpOk := by
    unfold pfCryptoEncrypt
    rw [hlocked]
    rfl
  lockedDecrypt _ input evpOk := by
    unfold pfCryptoDecrypt
    rw [hlocked]
    rfl

theorem sound_of_unlocked {w : CStr} (hun : s.ctx.unlocked = true)
    (hin : w ∈ s.supplied) (hkey : s.ctx.key = p.kdf w s.ctx.salt) : Sound p s where
  unlocked _ := ⟨w, hin, hkey⟩
  lockedKey hlocked := absurd (hlocked.symm.trans hun) Bool.false_ne_true
  lockedEncrypt hlocked := absurd (hlocked.symm.trans hun) Bool.false_ne_true
  lockedDecrypt hlocked := absurd (hlocked.symm.trans hun) Bool.false_ne_true

/-- The key and whether it is set stay, and the salt of a key that is set. -/
theorem Sound.keep (h : Sound p s) {ctx : Crypto κ} (more : List CStr)
    (hun : ctx.unlocked = s.ctx.unlocked) (hkey : ctx.key = s.ctx.key)
    (hsalt : s.ctx.unlocked = true → ctx.salt = s.ctx.salt) :
    Sound p ⟨ctx, s.supplied ++ more⟩ := by
  by_cases hset : s.ctx.unlocked = true
  · obtain ⟨password, hin, hderived⟩ := h.unlocked hset
    refine sound_of_unlocked (hun.trans hset) (List.mem_append_left _ hin) ?_
    show ctx.key = p.kdf password ctx.salt
    rw [hkey, hsalt hset]
    exact hderived
  · have hlocked := Bool.eq_false_iff.mpr hset
    exact sound_of_locked (hun.trans hlocked) (hkey.trans (h.lockedKey hlocked))

theorem step_sound (h : Sound p s) (hg : Harmless s c) (hs : step p s c = some s') :
    Sound p s' := by
  obtain rfl := Option.some.inj hs
  cases hatt : c.attempt with
  | none =>
    rcases apply_idle (p := p) s.ctx hatt with hsame | ⟨hlocked, hkey⟩
    · rw [hsame]
      exact h.keep _ rfl rfl fun _ => rfl
    · exact sound_of_locked hlocked hkey
  | some a =>
    obtain ⟨password, salt, derived⟩ := a
    obtain ⟨hctx, hpw⟩ := apply_attempt (p := p) s.ctx hatt
    rw [hctx, hpw]
    cases derived with
    | true => exact sound_of_unlocked rfl (List.mem_append_right _ (List.mem_singleton_self _)) rfl
    | false => exact h.keep _ rfl rfl (hg password salt hatt)

/-- Where different salts give different keys, no other call keeps key and salt together. -/
theorem step_harmless (hkdf : ∀ {pw pw' : CStr} {salt salt' : Salt},
      p.kdf pw salt = p.kdf pw' salt' → salt = salt')
    (h : Sound p s) (hs : step p s c = some s') (h' : Sound p s') : Harmless s c := by
  intro password salt hatt hun
  obtain rfl := Option.some.inj hs
  have hctx := (apply_attempt (p := p) s.ctx hatt).1
  obtain ⟨old, -, hold⟩ := h.unlocked hun
  have hnew := h'.unlocked
  simp only [hctx] at hnew
  obtain ⟨other, -, hother⟩ := hnew hun
  exact hkdf (hother.symm.trans hold)

/-- In a run of harmless calls the context means what it says; and where the KDF tells salts apart,
the first call that is not harmless ends that. -/
theorem key_fits_salt_while_harmless (hr : Reach (step p) Harmless (Starts p) s) :
    Sound p s ∧ ((∀ {pw pw' : CStr} {salt salt' : Salt},
        p.kdf pw salt = p.kdf pw' salt' → salt = salt') →
      ∀ c s', step p s c = some s' → (Sound p s' ↔ Harmless s c)) := by
  have hsound : Sound p s := by
    refine hr.invariant (fun s hs => ?_) fun s c s' h hg hs => step_sound h hg hs
    rw [hs]
    exact sound_of_locked rfl rfl
  refine ⟨hsound, fun hkdf c s' hs => ⟨step_harmless hkdf hsound hs, fun hg => ?_⟩⟩
  exact step_sound hsound hg hs

def oneSalt : Salt := ⟨List.replicate pfSaltLen 1, List.length_replicate⟩

def freshRing : Keyring (Option (CStr × Salt)) := ⟨pfCryptoInit pairKeys, []⟩

/-- The context after an unlock, and with a failed one of the same salt behind it. -/
def openRing (supplied : List CStr) : Keyring (Option (CStr × Salt)) :=
  ⟨⟨some (lit "a", .zero pfSaltLen), .zero pfSaltLen, true⟩, supplied⟩

theorem key_fits_salt_while_harmless_unlocked :
    Sound pairKeys (openRing [lit "a", lit "b"]) := by
  refine (key_fits_salt_while_harmless ?_).1
  have hopen : Reach (step pairKeys) Harmless (Starts pairKeys) (openRing [lit "a"]) :=
    .next (l := .unlock (some (lit "a")) (some (.zero pfSaltLen)) true)
      (.start (s := freshRing) rfl) (fun _ _ h => by cases h) rfl
  refine .next (l := .unlock (some (lit "b")) (some (.zero pfSaltLen)) false) hopen
    (fun password salt h _ => ?_) rfl
  cases h
  rfl

/-- The key of one salt beside another. -/
def mismatchedRing : Keyring (Option (CStr × Salt)) :=
  ⟨⟨some (lit "a", .zero pfSaltLen), oneSalt, true⟩, [lit "a", lit "b"]⟩

theorem key_does_not_always_fit_salt :
    ¬ ∀ s, Reach (step pairKeys) (fun _ _ => True) (Starts pairKeys) s → Sound pairKeys s := by
  intro h
  have hopen : Reach (step pairKeys) (fun _ _ => True) (Starts pairKeys) (openRing [lit "a"]) :=
    .next (l := .unlock (some (lit "a")) (some (.zero pfSaltLen)) true)
      (.start (s := freshRing) rfl) trivial rfl
  have hreach : Reach (step pairKeys) (fun _ _ => True) (Starts pairKeys) mismatchedRing :=
    .next (l := .unlock (some (lit "b")) (some oneSalt) false) hopen trivial rfl
  obtain ⟨password, -, hkey⟩ := (h mismatchedRing hreach).unlocked rfl
  have hsalt : Block.zero pfSaltLen = oneSalt := congrArg Prod.snd (Option.some.inj hkey)
  exact absurd hsalt (by decide)

end Proxiflare.Guarantees.CryptoLock
