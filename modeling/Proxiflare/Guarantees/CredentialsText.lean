import Proxiflare.Daemon.ChainWire
import Proxiflare.Lib.Base64

/-!
# The credentials as base64

The encoder that `http_negotiate_on_fd` has of its own: whatever the credentials are, the text
it makes is the RFC 4648 text of these bytes.
-/

namespace Proxiflare.Guarantees.CredentialsText

open Lib.CString Lib.Base64
open Proxiflare.Daemon

/-- The letters are those of the standard, in its order. -/
theorem value_b64At (n : Nat) : value (b64At n) = some (n % 64) := by
  have hall : ∀ m < 64, value (b64chars.getD m 0) = some m := by decide +kernel
  exact hall (n % 64) (Nat.mod_lt n (by decide))

example : value (b64At 65) = some 1 := by decide +kernel

/-! ## Groups, by their value -/

theorem decode_one_letters {n : Nat} (hzero : n % 65536 = 0) :
    decode [b64At (n / 262144), b64At (n / 4096), pad, pad] =
      some [UInt8.ofNat (n / 65536 % 256)] := by
  have hpadded : n / 4096 % 64 % 16 = 0 := by omega
  rw [decode_one (value_b64At _) (value_b64At _) hpadded, (sixes_of_eights n).1]

theorem decode_two_letters {n : Nat} (hzero : n % 256 = 0) :
    decode [b64At (n / 262144), b64At (n / 4096), b64At (n / 64), pad] =
      some [UInt8.ofNat (n / 65536 % 256), UInt8.ofNat (n / 256 % 256)] := by
  have hpadded : n / 64 % 64 % 4 = 0 := by omega
  rw [decode_two (value_b64At _) (value_b64At _) (value_b64At _) hpadded, (sixes_of_eights n).1,
    (sixes_of_eights n).2.1]

theorem decode_three_letters (n : Nat) (rest : CStr) :
    decode (b64At (n / 262144) :: b64At (n / 4096) :: b64At (n / 64) :: b64At n :: rest) =
      (decode rest).map fun bytes => UInt8.ofNat (n / 65536 % 256) ::
        UInt8.ofNat (n / 256 % 256) :: UInt8.ofNat (n % 256) :: bytes := by
  rw [decode_three (value_b64At _) (value_b64At _) (value_b64At _) (value_b64At _),
    (sixes_of_eights n).1, (sixes_of_eights n).2.1, (sixes_of_eights n).2.2]

/-! ## Texts -/

theorem decode_base64Encode (s : CStr) : decode (base64Encode s) = some s := by
  induction s using base64Encode.induct with
  | case1 => rfl
  | case2 a =>
    have hbyte := a.toNat_lt
    have hfirst : a.toNat * 65536 / 65536 % 256 = a.toNat := by omega
    refine (decode_one_letters (Nat.mul_mod_left _ _)).trans ?_
    rw [hfirst, UInt8.ofNat_toNat]
  | case3 a b =>
    have ha := a.toNat_lt
    have hb := b.toNat_lt
    have hfirst : (a.toNat * 65536 + b.toNat * 256) / 65536 % 256 = a.toNat := by omega
    have hsecond : (a.toNat * 65536 + b.toNat * 256) / 256 % 256 = b.toNat := by omega
    refine (decode_two_letters (by omega)).trans ?_
    rw [hfirst, hsecond, UInt8.ofNat_toNat, UInt8.ofNat_toNat]
  | case4 a b c rest ih =>
    have ha := a.toNat_lt
    have hb := b.toNat_lt
    have hc := c.toNat_lt
    have hfirst : (a.toNat * 65536 + b.toNat * 256 + c.toNat) / 65536 % 256 = a.toNat := by omega
    have hsecond : (a.toNat * 65536 + b.toNat * 256 + c.toNat) / 256 % 256 = b.toNat := by omega
    have hthird : (a.toNat * 65536 + b.toNat * 256 + c.toNat) % 256 = c.toNat := by omega
    refine (decode_three_letters _ _).trans ?_
    rw [hfirst, hsecond, hthird, UInt8.ofNat_toNat, UInt8.ofNat_toNat, UInt8.ofNat_toNat]
    exact congrArg (Option.map fun bytes => a :: b :: c :: bytes) ih

theorem paddedFor_base64Encode (s : CStr) : PaddedFor s.length (base64Encode s) := by
  have hletter : ∀ n, (value (b64At n)).isSome := fun n => by
    rw [value_b64At]
    rfl
  induction s using base64Encode.induct with
  | case1 => exact ⟨[], rfl, List.forall_mem_nil _⟩
  | case2 a => exact ⟨[_, _], rfl, List.forall_mem_cons.mpr ⟨hletter _,
      List.forall_mem_singleton.mpr (hletter _)⟩⟩
  | case3 a b => exact ⟨[_, _, _], rfl, List.forall_mem_cons.mpr ⟨hletter _,
      List.forall_mem_cons.mpr ⟨hletter _, List.forall_mem_singleton.mpr (hletter _)⟩⟩⟩
  | case4 a b c rest ih =>
    rw [base64Encode]
    apply paddedFor_group ih
    simp only [List.forall_mem_cons, hletter, List.not_mem_nil, IsEmpty.forall_iff, implies_true,
      and_self]

/-- The loop writes four letters for three bytes, pads as the standard says, and its text decodes
to the credentials. -/
theorem loop_is_rfc4648 (creds : CStr) :
    (base64Loop creds 0).length = 4 * ((creds.length + 2) / 3) ∧
      PaddedFor creds.length (base64Loop creds 0) ∧
      decode (base64Loop creds 0) = some creds := by
  rw [base64Loop_eq, base64Encode_length, Nat.mul_comm]
  exact ⟨rfl, paddedFor_base64Encode creds, decode_base64Encode creds⟩

example : base64Loop (lit "u:ÿ") 0 = lit "dTr/" := by
  rw [base64Loop_eq]
  decide

end Proxiflare.Guarantees.CredentialsText
