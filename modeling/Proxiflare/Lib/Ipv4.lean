import Proxiflare.Lib.CString

/-!
# IPv4 addresses

An address is a 32-bit word in host order. Addresses that agree in their first `p` bits are
consecutive: a mask and two bounds describe the same block. `dotted` is the text of an address.
-/

namespace Lib.Ipv4

open Lib.CString

/-! ## Blocks -/

/-- The first `p` bits are the same. -/
def SameNet (p : Nat) (a b : UInt32) : Prop := a.toNat / 2 ^ (32 - p) = b.toNat / 2 ^ (32 - p)

instance (p : Nat) (a b : UInt32) : Decidable (SameNet p a b) :=
  inferInstanceAs (Decidable (_ = _))

/-- `p` ones before the zeros; the word cannot be shifted by its width. -/
def mask (p : Nat) : UInt32 := if p = 0 then 0 else 0xFFFFFFFF <<< UInt32.ofNat (32 - p)

/-- The address with its last `32 - p` bits cleared. -/
def lowest (p : Nat) (net : UInt32) : UInt32 :=
  UInt32.ofNat (net.toNat / 2 ^ (32 - p) * 2 ^ (32 - p))

def highest (p : Nat) (net : UInt32) : UInt32 := lowest p net + UInt32.ofNat (2 ^ (32 - p) - 1)

variable {p : Nat} {a b net ip : UInt32}

theorem SameNet.symm (h : SameNet p a b) : SameNet p b a := Eq.symm h

theorem toNat_and_shiftLeft {k : Nat} (hk : k < 32) (a : UInt32) :
    (a &&& (0xFFFFFFFF <<< UInt32.ofNat k)).toNat = a.toNat / 2 ^ k * 2 ^ k := by
  have hmod : (UInt32.ofNat k).toNat % 32 = k := by
    rw [UInt32.toNat_ofNat']
    omega
  apply Nat.eq_of_testBit_eq
  intro i
  rw [UInt32.toNat_and, UInt32.toNat_shiftLeft, hmod, Nat.testBit_and, Nat.testBit_mod_two_pow,
    Nat.testBit_shiftLeft, Nat.testBit_mul_two_pow, Nat.testBit_div_two_pow,
    show (0xFFFFFFFF : UInt32).toNat = 2 ^ 32 - 1 from rfl, Nat.testBit_two_pow_sub_one]
  by_cases hki : k ≤ i
  · have hsub : i - k + k = i := Nat.sub_add_cancel hki
    rw [hsub]
    by_cases hi : i < 32
    · simp [hi, hki, show i - k < 32 by omega]
    · have hhigh : a.toNat.testBit i = false := by
        apply Nat.testBit_lt_two_pow
        exact a.toNat_lt.trans_le (Nat.pow_le_pow_right (by decide) (Nat.le_of_not_lt hi))
      simp [hhigh]
  · simp [hki]

theorem and_mask_eq_iff (hp : p ≤ 32) : a &&& mask p = b &&& mask p ↔ SameNet p a b := by
  unfold mask SameNet
  split
  · next h0 =>
    have ha : a.toNat / 2 ^ 32 = 0 := Nat.div_eq_of_lt a.toNat_lt
    have hb : b.toNat / 2 ^ 32 = 0 := Nat.div_eq_of_lt b.toNat_lt
    rw [h0, Nat.sub_zero, ha, hb, UInt32.and_zero, UInt32.and_zero]
    exact iff_of_true rfl rfl
  · next h0 =>
    have hpos : 0 < 2 ^ (32 - p) := Nat.two_pow_pos _
    rw [← UInt32.toNat_inj, toNat_and_shiftLeft (by omega), toNat_and_shiftLeft (by omega)]
    exact Nat.mul_left_inj hpos.ne'

theorem toNat_lowest (p : Nat) (net : UInt32) :
    (lowest p net).toNat = net.toNat / 2 ^ (32 - p) * 2 ^ (32 - p) := by
  rw [lowest, UInt32.toNat_ofNat', Nat.mod_eq_of_lt]
  exact (Nat.div_mul_le_self _ _).trans_lt net.toNat_lt

/-- The block ends before the word does. -/
theorem toNat_highest (p : Nat) (net : UInt32) :
    (highest p net).toNat = net.toNat / 2 ^ (32 - p) * 2 ^ (32 - p) + (2 ^ (32 - p) - 1) := by
  have hpos : 0 < 2 ^ (32 - p) := Nat.two_pow_pos _
  have hle : 2 ^ (32 - p) ≤ 2 ^ 32 := Nat.pow_le_pow_right (by decide) (Nat.sub_le 32 p)
  have hlt : net.toNat / 2 ^ (32 - p) < 2 ^ 32 / 2 ^ (32 - p) :=
    Nat.div_lt_div_of_lt_of_dvd (pow_dvd_pow 2 (Nat.sub_le 32 p)) net.toNat_lt
  have hend : (net.toNat / 2 ^ (32 - p) + 1) * 2 ^ (32 - p) ≤ 2 ^ 32 :=
    (Nat.mul_le_mul_right _ hlt).trans (Nat.div_mul_le_self _ _)
  rw [Nat.add_mul, Nat.one_mul] at hend
  have hone : (UInt32.ofNat (2 ^ (32 - p) - 1)).toNat = 2 ^ (32 - p) - 1 := by
    rw [UInt32.toNat_ofNat', Nat.mod_eq_of_lt (by omega)]
  rw [highest, UInt32.toNat_add, toNat_lowest, hone, Nat.mod_eq_of_lt (by omega)]

theorem sameNet_iff_between : SameNet p net ip ↔ lowest p net ≤ ip ∧ ip ≤ highest p net := by
  have hpos : 0 < 2 ^ (32 - p) := Nat.two_pow_pos _
  rw [UInt32.le_iff_toNat_le, UInt32.le_iff_toNat_le, toNat_lowest, toNat_highest, SameNet, eq_comm,
    Nat.div_eq_iff hpos]
  omega

/-! ## Texts -/

def dotted (a : UInt32) : CStr :=
  decimal (a.toNat / 2 ^ 24) ++ 46 :: (decimal (a.toNat / 2 ^ 16 % 256) ++ 46 ::
    (decimal (a.toNat / 2 ^ 8 % 256) ++ 46 :: decimal (a.toNat % 256)))

theorem not_mem_dotted {c : UInt8} (hdigit : isDigit c = false) (hdot : c ≠ 46) (a : UInt32) :
    c ∉ dotted a := by
  have hdec : ∀ n, c ∉ decimal n := fun n hc => by
    rw [isDigit_of_mem_decimal hc] at hdigit
    cases hdigit
  simp only [dotted, List.mem_append, List.mem_cons, not_or]
  exact ⟨hdec _, hdot, hdec _, hdot, hdec _, hdot, hdec _⟩

end Lib.Ipv4
