import Mathlib.Init
import Mathlib.Tactic.TypeStar

/-!
# Authenticated encryption, idealised

A cipher turns a message under a key and a nonce into a ciphertext and a tag. `made`
tells which encryptions ever take place. For an ideal cipher these, and nothing else, can
be undone: what was encrypted comes back, and what decrypts was encrypted.
-/

namespace Lib.Aead

abbrev Bytes := List UInt8

variable {κ ν : Type*}

structure Cipher (κ ν : Type*) where
  encrypt : κ → ν → Bytes → Bytes × Bytes
  decrypt : κ → ν → Bytes → Bytes → Option Bytes

/-- Ciphertexts are as long as their messages and tags have one length. -/
structure Ideal (c : Cipher κ ν) (tagLen : Nat) (made : κ → ν → Bytes → Prop) : Prop where
  cipherLength : ∀ key nonce msg, (c.encrypt key nonce msg).1.length = msg.length
  tagLength : ∀ key nonce msg, (c.encrypt key nonce msg).2.length = tagLen
  correct : ∀ key nonce msg, made key nonce msg →
    c.decrypt key nonce (c.encrypt key nonce msg).1 (c.encrypt key nonce msg).2 = some msg
  authentic : ∀ key nonce ct tag msg, c.decrypt key nonce ct tag = some msg →
    made key nonce msg ∧ c.encrypt key nonce msg = (ct, tag)

end Lib.Aead
