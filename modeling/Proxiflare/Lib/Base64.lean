import Proxiflare.Lib.CString

/-!
# Base64 texts

RFC 4648, section 4: the alphabet, the padding, and the bytes a text stands for. A text whose
padding covers bits other than zero stands for nothing.
-/

namespace Lib.Base64

open Lib.CString

/-- `A`–`Z`, `a`–`z`, `0`–`9`, `+` and `/`. -/
def value (c : UInt8) : Option Nat :=
  if 65 ≤ c && c ≤ 90 then some (c.toNat - 65)
  else if 97 ≤ c && c ≤ 122 then some (c.toNat - 71)
  else if 48 ≤ c && c ≤ 57 then some (c.toNat + 4)
  else if c = 43 then some 62
  else if c = 47 then some 63
  else none

def pad : UInt8 := 61

/-- The bytes of the last group of a text, with its padding from the third or the fourth place on. -/
def lastGroup (w x : Nat) (c : UInt8) : Option CStr :=
  if c = pad then if x % 16 = 0 then some [UInt8.ofNat (w * 4 + x / 16)] else none
  else do
    let y ← value c
    if y % 4 = 0 then
      some [UInt8.ofNat (w * 4 + x / 16), UInt8.ofNat (x % 16 * 16 + y / 4)]
    else none

def decode : CStr → Option CStr
  | [] => some []
  | a :: b :: c :: d :: rest => do
    let w ← value a
    let x ← value b
    if d = pad then if rest = [] then lastGroup w x c else none
    else
      let y ← value c
      let z ← value d
      let bytes ← decode rest
      return UInt8.ofNat (w * 4 + x / 16) :: UInt8.ofNat (x % 16 * 16 + y / 4) ::
        UInt8.ofNat (y % 4 * 64 + z) :: bytes
  | _ => none

/-- Letters of the alphabet, then the padding a text of this many bytes has. -/
def PaddedFor (n : Nat) (text : CStr) : Prop :=
  ∃ letters, text = letters ++ List.replicate ((3 - n % 3) % 3) pad ∧
    ∀ c ∈ letters, (value c).isSome

/-! ## Groups -/

/-- Four times six bits are three times eight. -/
theorem sixes_of_eights (n : Nat) :
    n / 262144 % 64 * 4 + n / 4096 % 64 / 16 = n / 65536 % 256 ∧
      n / 4096 % 64 % 16 * 16 + n / 64 % 64 / 4 = n / 256 % 256 ∧
      n / 64 % 64 % 4 * 64 + n % 64 = n % 256 := by
  omega

variable {a b c d : UInt8} {w x y z : Nat}

theorem value_pad : value pad = none := rfl

theorem ne_pad_of_value (hz : value d = some z) : d ≠ pad := by
  rintro rfl
  cases value_pad.symm.trans hz

theorem decode_one (ha : value a = some w) (hb : value b = some x) (hzero : x % 16 = 0) :
    decode [a, b, pad, pad] = some [UInt8.ofNat (w * 4 + x / 16)] := by
  simp [decode, lastGroup, ha, hb, hzero]

theorem decode_two (ha : value a = some w) (hb : value b = some x) (hc : value c = some y)
    (hzero : y % 4 = 0) : decode [a, b, c, pad] =
      some [UInt8.ofNat (w * 4 + x / 16), UInt8.ofNat (x % 16 * 16 + y / 4)] := by
  simp [decode, lastGroup, ha, hb, hc, hzero, ne_pad_of_value hc]

theorem decode_three (ha : value a = some w) (hb : value b = some x) (hc : value c = some y)
    (hd : value d = some z) (rest : CStr) : decode (a :: b :: c :: d :: rest) =
      (decode rest).map fun bytes => UInt8.ofNat (w * 4 + x / 16) ::
        UInt8.ofNat (x % 16 * 16 + y / 4) :: UInt8.ofNat (y % 4 * 64 + z) :: bytes := by
  simp only [decode, ha, hb, hc, hd, Option.bind_eq_bind, Option.bind_some, ne_pad_of_value hd,
    if_false, Option.map_eq_bind]
  rfl

theorem paddedFor_group {n : Nat} {text : CStr} {group : CStr} (h : PaddedFor n text)
    (hgroup : ∀ c ∈ group, (value c).isSome) : PaddedFor (n + 3) (group ++ text) := by
  obtain ⟨letters, rfl, hletters⟩ := h
  refine ⟨group ++ letters, ?_, fun c hc => ?_⟩
  · rw [Nat.add_mod_right, List.append_assoc]
  · rcases List.mem_append.mp hc with hc | hc
    · exact hgroup c hc
    · exact hletters c hc

end Lib.Base64
