import Proxiflare.Daemon.Json
import Proxiflare.Lib.Aead

/-!
# The crypto context

`daemon/src/crypto.c`. Argon2id, AES-256-GCM and the type of keys are parameters;
`RAND_bytes`, Argon2id and the `EVP` calls may fail. The pointers a caller passes are
taken to be valid where the code only rejects NULL, the password and the salt excepted.
-/

namespace Proxiflare.Daemon

open Lib.CString Lib.Aead

def pfSaltLen : Nat := 16
def pfIvLen : Nat := 12
def pfTagLen : Nat := 16

/-- `PF_ERR`, `PF_ERR_CRYPTO`, `PF_ERR_AUTH` and `PF_ERR_LOCKED`. -/
inductive PfErr where
  | err | crypto | auth | locked
  deriving DecidableEq

/-- A `uint8_t buf[n]`. -/
structure Block (n : Nat) where
  bytes : Bytes
  size : bytes.length = n
  deriving DecidableEq

abbrev Salt := Block pfSaltLen

abbrev Iv := Block pfIvLen

def Block.zero (n : Nat) : Block n := ⟨List.replicate n 0, List.length_replicate⟩

/-- The first `n` bytes at a pointer. -/
def Block.read (n : Nat) (bytes : Bytes) (h : n ≤ bytes.length) : Block n :=
  ⟨bytes.take n, by rw [List.length_take]; omega⟩

theorem Block.read_append {n : Nat} (b : Block n) (rest : Bytes) (h : n ≤ (b.bytes ++ rest).length) :
    Block.read n (b.bytes ++ rest) h = b := by
  obtain ⟨bytes, size⟩ := b
  have htake : (bytes ++ rest).take n = bytes := by
    rw [← size]
    exact List.take_left
  simp only [Block.read, htake]

/-- `kdf` is Argon2id under the parameters of the code. -/
structure Primitives (κ : Type) where
  zeroKey : κ
  kdf : CStr → Salt → κ
  cipher : Cipher κ Iv

structure Crypto (κ : Type) where
  key : κ
  salt : Salt
  unlocked : Bool
  deriving DecidableEq

/-- `RAND_bytes`: the buffer after the call, and whether it succeeded. -/
structure Random (n : Nat) where
  left : Block n
  ok : Bool

variable {κ : Type} (p : Primitives κ)

/-! ## Locking and unlocking -/

def pfCryptoInit : Crypto κ := ⟨p.zeroKey, .zero pfSaltLen, false⟩

/-- `derive_key` from the salt in the context. A failure leaves the key alone. -/
def deriveAndUnlock (kdfOk : Bool) (password : CStr) (ctx : Crypto κ) :
    Except PfErr Unit × Crypto κ :=
  if kdfOk then (.ok ⟨⟩, { ctx with key := p.kdf password ctx.salt, unlocked := true })
  else (.error .crypto, ctx)

/-- Without a salt a random one is generated in the context. -/
def pfCryptoSetMaster (password : Option CStr) (salt : Option Salt) (rand : Random pfSaltLen)
    (kdfOk : Bool) (ctx : Crypto κ) : Except PfErr Unit × Crypto κ :=
  match password, salt with
  | none, _ => (.error .err, ctx)
  | some password, none =>
    if rand.ok then deriveAndUnlock p kdfOk password { ctx with salt := rand.left }
    else (.error .crypto, { ctx with salt := rand.left })
  | some password, some salt => deriveAndUnlock p kdfOk password { ctx with salt := salt }

def pfCryptoUnlock (password : Option CStr) (salt : Option Salt) (kdfOk : Bool) (ctx : Crypto κ) :
    Except PfErr Unit × Crypto κ :=
  match password, salt with
  | some password, some salt => deriveAndUnlock p kdfOk password { ctx with salt := salt }
  | _, _ => (.error .err, ctx)

/-- The salt stays. -/
def pfCryptoLock (ctx : Crypto κ) : Crypto κ := { ctx with key := p.zeroKey, unlocked := false }

/-! ## Encryption -/

/-- `(int)` of a `size_t`. -/
def intOfSize (n : Nat) : Int := (n : Int).bmod (2 ^ 32)

/-- What `EVP_EncryptUpdate` and `EVP_DecryptUpdate` process of a buffer whose length is cast to
`int`: a negative length is an error. -/
def evpInput (input : Bytes) : Option Bytes :=
  let inl := intOfSize input.length
  if inl < 0 then none else some (input.take inl.toNat)

/-- IV, ciphertext, tag. -/
def pfCryptoEncrypt (ctx : Crypto κ) (input : Bytes) (iv : Random pfIvLen) (evpOk : Bool) :
    Except PfErr Bytes :=
  if !ctx.unlocked then .error .locked
  else if !iv.ok || !evpOk then .error .crypto
  else match evpInput input with
    | none => .error .crypto
    | some msg =>
      let box := p.cipher.encrypt ctx.key iv.left msg
      .ok (iv.left.bytes ++ box.1 ++ box.2)

def pfCryptoDecrypt (ctx : Crypto κ) (input : Bytes) (evpOk : Bool) : Except PfErr Bytes :=
  if !ctx.unlocked then .error .locked
  else if h : input.length < pfIvLen + pfTagLen then .error .crypto
  else
    let iv := Block.read pfIvLen input (by omega)
    let ctLen := input.length - pfIvLen - pfTagLen
    if !evpOk then .error .crypto
    else match evpInput ((input.drop pfIvLen).take ctLen) with
      | none => .error .crypto
      | some ct =>
        match p.cipher.decrypt ctx.key iv ct (input.drop (pfIvLen + ctLen)) with
        | none => .error .auth
        | some msg => .ok msg

/-- The salt, then what encryption puts out. -/
def pfCryptoExportEncrypt (password : Option CStr) (input : Bytes) (rand : Random pfSaltLen)
    (kdfOk : Bool) (iv : Random pfIvLen) (evpOk : Bool) : Except PfErr Bytes :=
  match pfCryptoSetMaster p password none rand kdfOk (pfCryptoInit p) with
  | (.error e, _) => .error e
  | (.ok _, ctx) =>
    match pfCryptoEncrypt p ctx input iv evpOk with
    | .error e => .error e
    | .ok enc => .ok (ctx.salt.bytes ++ enc)

def pfCryptoExportDecrypt (password : Option CStr) (input : Bytes) (kdfOk evpOk : Bool) :
    Except PfErr Bytes :=
  if password.isNone then .error .err
  else if h : input.length < pfSaltLen + pfIvLen + pfTagLen then .error .crypto
  else
    let salt := Block.read pfSaltLen input (by omega)
    match pfCryptoUnlock p password (some salt) kdfOk (pfCryptoInit p) with
    | (.error e, _) => .error e
    | (.ok _, ctx) => pfCryptoDecrypt p ctx (input.drop pfSaltLen) evpOk

/-! ## The parts of an input -/

section Layout

variable {p : Primitives κ} {iv : Iv} {body tag : Bytes}

theorem bodyLength_layout (htag : tag.length = pfTagLen) :
    (iv.bytes ++ (body ++ tag)).length - pfIvLen - pfTagLen = body.length := by
  have hiv : iv.bytes.length = pfIvLen := iv.size
  rw [List.length_append, List.length_append, hiv, htag]
  omega

theorem not_short_layout (htag : tag.length = pfTagLen) :
    ¬ (iv.bytes ++ (body ++ tag)).length < pfIvLen + pfTagLen := by
  have hiv : iv.bytes.length = pfIvLen := iv.size
  rw [List.length_append, List.length_append, hiv, htag]
  omega

theorem body_layout : ((iv.bytes ++ (body ++ tag)).drop pfIvLen).take body.length = body := by
  rw [List.drop_left' iv.size, List.take_left]

theorem tag_layout : (iv.bytes ++ (body ++ tag)).drop (pfIvLen + body.length) = tag := by
  rw [← List.drop_drop, List.drop_left' iv.size, List.drop_left]

/-- A decryption of the parts of its input. -/
theorem pfCryptoDecrypt_parts {ctx : Crypto κ} (hun : ctx.unlocked = true)
    (htag : tag.length = pfTagLen) {ct : Bytes} (hct : evpInput body = some ct) :
    pfCryptoDecrypt p ctx (iv.bytes ++ (body ++ tag)) true =
      (p.cipher.decrypt ctx.key iv ct tag).elim (.error .auth) .ok := by
  unfold pfCryptoDecrypt
  rw [hun, dif_neg (not_short_layout htag)]
  simp only [Bool.not_true, Bool.false_eq_true, if_false, bodyLength_layout htag, body_layout,
    tag_layout, hct, Block.read_append]
  cases p.cipher.decrypt ctx.key iv ct tag with
  | none => rfl
  | some msg => rfl

end Layout

/-! ## Keys that show what they were derived from -/

/-- The cipher leaves the message as it is under a zero tag. -/
def pairKeys : Primitives (Option (CStr × Salt)) where
  zeroKey := none
  kdf password salt := some (password, salt)
  cipher := ⟨fun _ _ msg => (msg, List.replicate pfTagLen 0), fun _ _ ct _ => some ct⟩

end Proxiflare.Daemon
