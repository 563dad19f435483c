import Proxiflare.Daemon.Credentials
import Proxiflare.Lib.Runs

/-!
# Which passwords unlock

`credentials.unlock` derives a key from whatever password it is given and compares it
with nothing. After a password has been established another one is turned away only
where the derivation itself fails on a daemon that is locked.
-/

namespace Proxiflare.Guarantees.UnlockAuthentication

open Lib.Runs Lib.CString
open Proxiflare.Daemon

variable {κ : Type}

inductive Request where
  | unlock (params : Option Json) (rand : Random pfSaltLen) (kdfOk : Bool)
  | lock

def Request.password : Request → Option CStr
  | .unlock params _ _ => unlockPassword params
  | .lock => none

def Request.answer (p : Primitives κ) (v : Vault κ) : Request → Reply × Vault κ
  | .unlock params rand kdfOk => credentialsUnlock p rand kdfOk params v
  | .lock => credentialsLock p v

/-- The daemon, and the password of the first unlock that succeeded. -/
structure Node (κ : Type) where
  vault : Vault κ
  established : Option CStr

def step (p : Primitives κ) (n : Node κ) (r : Request) : Option (Node κ) :=
  let a := r.answer p n.vault
  some ⟨a.2, n.established.or (if a.1 = .ok then r.password else none)⟩

def start (p : Primitives κ) (session : Session) : Node κ := ⟨⟨session, pfCryptoInit p⟩, none⟩

/-- An unlock with another password than the established one. -/
def Other (n : Node κ) (r : Request) : Prop :=
  ∃ established password, n.established = some established ∧ r.password = some password ∧
    password ≠ established

/-- It is not answered with ok and leaves the daemon locked. -/
def TurnedAway (p : Primitives κ) (n : Node κ) (r : Request) (n' : Node κ) : Prop :=
  Other n r → (r.answer p n.vault).1 ≠ .ok ∧ n'.vault.crypto.unlocked = false

/-- It finds the daemon locked, and no key is derived. -/
def Underivable (n : Node κ) (r : Request) (_ : Node κ) : Prop :=
  Other n r → n.vault.crypto.unlocked = false ∧
    ∀ params rand kdfOk, r = .unlock params rand kdfOk → kdfOk = false

variable {p : Primitives κ} {n n' : Node κ} {r : Request}

theorem turnedAway_iff (hs : step p n r = some n') : TurnedAway p n r n' ↔ Underivable n r n' := by
  refine imp_congr_right fun hother => ?_
  obtain ⟨established, password, -, hpw, -⟩ := hother
  obtain rfl := Option.some.inj hs
  cases r with
  | lock => cases hpw
  | unlock params rand kdfOk =>
    have hpw : unlockPassword params = some password := hpw
    cases kdfOk with
    | true =>
      simp only [Request.answer, credentialsUnlock_derived hpw]
      simp
    | false =>
      simp only [Request.answer, credentialsUnlock_failed hpw]
      simp

/-- Other passwords are turned away exactly in the runs where every attempt with one finds the
daemon locked and the derivation failing. -/
theorem unlock_authenticates_iff (p : Primitives κ) (session : Session) (requests : List Request) :
    Along (step p) (TurnedAway p) (start p session) requests ↔
      Along (step p) Underivable (start p session) requests := by
  have hiff : ∀ n r n', True → step p n r = some n' → (TurnedAway p n r n' ↔ Underivable n r n') :=
    fun _ _ _ _ hs => turnedAway_iff hs
  exact along_congr (fun _ => True) (fun _ _ _ _ _ => trivial) hiff trivial requests

def withPassword (password : String) : Request :=
  .unlock (some (.obj [(lit "password", .str (lit password))])) ⟨.zero pfSaltLen, true⟩ true

/-- A second password unlocks after the first. -/
theorem other_password_unlocks :
    ¬ ∀ requests,
      Along (step pairKeys) (TurnedAway pairKeys) (start pairKeys ⟨.empty, []⟩) requests := by
  intro h
  have hsecond := ((h [withPassword "first", withPassword "second"]) _ rfl).2 _ rfl
  have hother : Other ((step pairKeys (start pairKeys ⟨.empty, []⟩) (withPassword "first")).getD
      (start pairKeys ⟨.empty, []⟩)) (withPassword "second") :=
    ⟨lit "first", lit "second", by decide, by decide, by decide⟩
  exact (hsecond.1 hother).1 (by decide)

end Proxiflare.Guarantees.UnlockAuthentication
