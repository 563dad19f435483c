import Proxiflare.Daemon.Addresses

/-!
# Malformed IP patterns

What stands after the slash of a CIDR pattern is read with `atoi`, which takes a missing number for
zero, ignores what follows the digits and wraps. An address without a slash or with a dash is
checked to its end.
-/

namespace Proxiflare.Guarantees.IpPatterns

open Lib.CString Lib.Ipv4
open Proxiflare.Daemon

/-- A decimal number from 0 to 32; leading zeros are allowed. -/
def IsPrefix (text : CStr) (p : Nat) : Prop :=
  p ≤ 32 ∧ ∃ zeros, text = List.replicate zeros 48 ++ decimal p

/-- An address equal to `ip`, a CIDR or a range that contains it. -/
inductive WellFormed (ip : UInt32) : CStr → Prop
  | exact : WellFormed ip (dotted ip)
  | cidr (net : UInt32) (p : Nat) (text : CStr) (number : IsPrefix text p)
      (same : SameNet p net ip) : WellFormed ip (dotted net ++ 47 :: text)
  | range (lo hi : UInt32) (above : lo ≤ ip) (below : ip ≤ hi) :
      WellFormed ip (dotted lo ++ 45 :: dotted hi)

/-- After the slash stands no number from 0 to 32, `atoi` reads one all the same, and `ip` is in the
network it gives. -/
def Misread (pattern : CStr) (ip : UInt32) : Prop :=
  ∃ net text p, pattern = dotted net ++ 47 :: text ∧ (∀ q, ¬ IsPrefix text q) ∧ p ≤ 32 ∧
    atoi text = (p : Nat) ∧ SameNet p net ip

variable {text : CStr} {ip net net' : UInt32} {p : Nat}

theorem atoi_isPrefix (h : IsPrefix text p) : atoi text = p := by
  obtain ⟨hp, zeros, rfl⟩ := h
  apply atoi_of_zeros (z := zeros) (by omega)
  rw [List.takeWhile_eq_self_iff]
  intro c hc
  rcases List.mem_append.mp hc with hzero | hdigit
  · rw [List.eq_of_mem_replicate hzero]
    decide
  · exact isDigit_of_mem_decimal hdigit

/-- The address ends at the first slash. -/
theorem dotted_slash_inj {s t : CStr} (h : dotted net ++ 47 :: s = dotted net' ++ 47 :: t) :
    net = net' ∧ s = t := by
  have hsplit := congrArg (strchr · 47) h
  simp only [strchr_append_cons (not_mem_dotted_slash _)] at hsplit
  obtain rfl : s = t := (List.cons.inj (Option.some.inj hsplit)).2
  exact ⟨dotted_injective (List.append_cancel_right h), rfl⟩

theorem wellFormed_cidr_iff :
    WellFormed ip (dotted net ++ 47 :: text) ↔ ∃ p, IsPrefix text p ∧ SameNet p net ip := by
  have hslash : 47 ∈ dotted net ++ 47 :: text := List.mem_append_right _ List.mem_cons_self
  constructor
  · intro h
    generalize hpattern : dotted net ++ 47 :: text = pattern at h hslash
    cases h with
    | exact => exact absurd hslash (not_mem_dotted_slash ip)
    | cidr net' p text' number same =>
      obtain ⟨rfl, rfl⟩ := dotted_slash_inj hpattern
      exact ⟨p, number, same⟩
    | range lo hi above below =>
      rcases List.mem_append.mp hslash with hlo | hhi
      · exact absurd hlo (not_mem_dotted_slash lo)
      · rcases List.mem_cons.mp hhi with hdash | hhi
        · cases hdash
        · exact absurd hhi (not_mem_dotted_slash hi)
  · rintro ⟨p, hnumber, hsame⟩
    exact .cidr net p text hnumber hsame

/-- For every pattern and address: only a misread prefix makes a malformed pattern match. -/
theorem malformed_match_iff (pattern : CStr) (ip : UInt32) :
    (pfMatchIp pattern (dotted ip) = true → WellFormed ip pattern) ↔ ¬ Misread pattern ip := by
  constructor
  · rintro hformed ⟨net, text, p, rfl, hno, hp, hread, hsame⟩
    have hmatch := pfMatchIp_iff.mpr (.inr (.inl ⟨net, text, p, rfl, hp, hread, hsame⟩))
    obtain ⟨q, hnumber, -⟩ := wellFormed_cidr_iff.mp (hformed hmatch)
    exact hno q hnumber
  · intro hread hmatch
    rcases pfMatchIp_iff.mp hmatch with rfl | ⟨net, text, p, rfl, hp, hatoi, hsame⟩ |
      ⟨lo, hi, rfl, above, below⟩
    · exact .exact
    · by_cases hnumber : ∃ q, IsPrefix text q
      · obtain ⟨q, hq⟩ := hnumber
        obtain rfl : q = p := Int.ofNat_inj.mp ((atoi_isPrefix hq).symm.trans hatoi)
        exact .cidr net q text hq hsame
      · exact absurd ⟨net, text, p, rfl, not_exists.mp hnumber, hp, hatoi, hsame⟩ hread
    · exact .range lo hi above below

/-- A half-typed pattern accepts every address: `10.0.0.0/` at 8.8.8.8. -/
theorem missing_prefix_matches :
    pfMatchIp (lit "10.0.0.0/") (dotted 0x08080808) = true ∧
      ¬ WellFormed 0x08080808 (lit "10.0.0.0/") := by
  refine ⟨by decide, fun h => ?_⟩
  rw [show lit "10.0.0.0/" = dotted 0x0A000000 ++ 47 :: [] by decide, wellFormed_cidr_iff] at h
  obtain ⟨p, ⟨-, zeros, htext⟩, -⟩ := h
  exact decimal_ne_nil p (List.append_eq_nil_iff.mp htext.symm).2

end Proxiflare.Guarantees.IpPatterns
