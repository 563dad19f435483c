import Proxiflare.Daemon.Crypto
import Proxiflare.Daemon.Requests
import Proxiflare.Daemon.Sessions

/-!
# credentials.unlock and credentials.lock

The branches of `pf_handle_request`. The salt is kept in the configuration as
hexadecimal text; the first unlock generates it. Nothing else is kept of a password.
-/

namespace Proxiflare.Daemon

open Lib.CString Lib.Aead

/-- `ctx->config` and `ctx->crypto`. -/
structure Vault (κ : Type) where
  session : Session
  crypto : Crypto κ

def hexValue (c : UInt8) : UInt8 :=
  if isDigit c then c - 48 else if 97 ≤ c then c - 87 else c - 55

/-- `sscanf(s, "%02x", &byte)` on text that `snprintf` printed. -/
def scanHexByte : CStr → UInt8
  | a :: b :: _ => 16 * hexValue a + hexValue b
  | _ => 0

/-- The bytes the text is too short for stay zero. -/
def decodeSalt (hex : CStr) : Salt where
  bytes := (List.range pfSaltLen).map fun i =>
    if 2 * i + 1 < hex.length then scanHexByte (hex.drop (2 * i)) else 0
  size := by rw [List.length_map, List.length_range]

def encodeSalt (salt : Salt) : CStr :=
  salt.bytes.flatMap fun b => [hexDigit (b.toNat / 16), hexDigit (b.toNat % 16)]

/-- Neither the generation nor the storing of a new salt is checked. -/
def loadSalt (rand : Random pfSaltLen) (s : Session) : Salt × Session :=
  match Session.pfConfigGet 64 (lit "crypto_salt") s with
  | (some hex, s) => (decodeSalt hex, s)
  | (none, s) =>
    (rand.left, (Session.pfConfigSet (lit "crypto_salt") (encodeSalt rand.left) s).2)

variable {κ : Type} (p : Primitives κ)

def unlockPassword (params : Option Json) : Option CStr :=
  (params.bind (·.getObjectItem (lit "password"))).bind Json.valuestring

def credentialsUnlock (rand : Random pfSaltLen) (kdfOk : Bool) (params : Option Json) (v : Vault κ) :
    Reply × Vault κ :=
  match unlockPassword params with
  | none => (.error (lit "missing password"), v)
  | some password =>
    let (salt, session) := loadSalt rand v.session
    match pfCryptoUnlock p (some password) (some salt) kdfOk v.crypto with
    | (.ok _, crypto) => (.ok, ⟨session, crypto⟩)
    | (.error _, crypto) => (.error (lit "unlock failed"), ⟨session, crypto⟩)

def credentialsLock (v : Vault κ) : Reply × Vault κ :=
  (.ok, { v with crypto := pfCryptoLock p v.crypto })

/-! ## What an unlock leaves -/

variable {p} {rand : Random pfSaltLen} {kdfOk : Bool} {params : Option Json} {v : Vault κ}

theorem credentialsUnlock_derived {password : CStr} (hpw : unlockPassword params = some password) :
    credentialsUnlock p rand true params v =
      (.ok, ⟨(loadSalt rand v.session).2,
        ⟨p.kdf password (loadSalt rand v.session).1, (loadSalt rand v.session).1, true⟩⟩) := by
  unfold credentialsUnlock
  rw [hpw]
  rfl

theorem credentialsUnlock_failed {password : CStr} (hpw : unlockPassword params = some password) :
    credentialsUnlock p rand false params v =
      (.error (lit "unlock failed"), ⟨(loadSalt rand v.session).2,
        { v.crypto with salt := (loadSalt rand v.session).1 }⟩) := by
  unfold credentialsUnlock
  rw [hpw]
  rfl

end Proxiflare.Daemon
