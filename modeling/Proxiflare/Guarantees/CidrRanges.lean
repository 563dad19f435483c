import Proxiflare.Daemon.Addresses

/-!
# CIDR patterns and ranges

`net/p` accepts the addresses of the range from the lowest to the highest one that agree with
`net` in `p` bits. `checkedMatchIp` is `pf_match_ip` with the shift of C: it has no value from 32
bits on.
-/

namespace Proxiflare.Guarantees.CidrRanges

open Lib.CString Lib.Ipv4
open Proxiflare.Daemon

/-! ## Shifts -/

/-- `x << n` of an `unsigned`. -/
def shl (x : UInt32) (n : Int) : Option UInt32 :=
  if 0 ≤ n ∧ n < 32 then some (x <<< UInt32.ofNat n.toNat) else none

/-- `pf_match_ip`; `none` where its shift would be undefined. -/
def checkedMatchIp (pattern ip : CStr) : Option Bool :=
  match inetPton4 ip with
  | none => some false
  | some host =>
    match strchr pattern 47 with
    | some slash =>
      let net := pattern.take (pattern.length - slash.length)
      let pfx := atoi slash.tail
      if net.length ≥ 48 ∨ pfx < 0 ∨ 32 < pfx then some false
      else match inetPton4 net with
        | none => some false
        | some net =>
          (if pfx = 0 then some 0 else shl 0xFFFFFFFF (32 - pfx)).map fun mask =>
            host &&& mask = net &&& mask
    | none => some (pfMatchIp pattern ip)

theorem shl_width {n : Int} (hlo : 0 ≤ n) (hhi : n ≤ 32) :
    (if n = 0 then some (0 : UInt32) else shl 0xFFFFFFFF (32 - n)) =
      some (if n = 0 then (0 : UInt32) else 0xFFFFFFFF <<< UInt32.ofNat (32 - n.toNat)) := by
  split
  · rfl
  · next h0 =>
    have hn : (32 - n).toNat = 32 - n.toNat := by omega
    rw [shl, if_pos ⟨by omega, by omega⟩, hn]

/-- Every call has a value, the one of the model. -/
theorem checkedMatchIp_eq (pattern ip : CStr) :
    checkedMatchIp pattern ip = some (pfMatchIp pattern ip) := by
  unfold checkedMatchIp
  cases hip : inetPton4 ip with
  | none => simp [pfMatchIp, hip]
  | some host =>
    cases hslash : strchr pattern 47 with
    | none => rfl
    | some slash =>
      simp only [pfMatchIp, hip, hslash]
      split
      · rfl
      · next hrange =>
        cases inetPton4 (pattern.take (pattern.length - slash.length)) with
        | none => rfl
        | some net =>
          simp only
          rw [shl_width (by omega) (by omega), Option.map_some]

/-! ## Blocks -/

def cidr (net : UInt32) (p : Nat) : CStr := dotted net ++ 47 :: decimal p

def range (lo hi : UInt32) : CStr := dotted lo ++ 45 :: dotted hi

variable {net ip lo hi : UInt32} {p : Nat}

theorem pfMatchIp_cidr (hp : p ≤ 32) :
    pfMatchIp (cidr net p) (dotted ip) = true ↔ SameNet p net ip := by
  have hread : atoi (decimal p) = p := atoi_decimal_self (by omega)
  rw [cidr, pfMatchIp_slash (not_mem_dotted_slash net), hread]
  constructor
  · rintro ⟨net', p', hnet, -, hp', hsame⟩
    rwa [dotted_injective hnet, Int.ofNat_inj.mp hp']
  · intro hsame
    exact ⟨net, p, rfl, hp, rfl, hsame⟩

theorem pfMatchIp_range :
    pfMatchIp (range lo hi) (dotted ip) = true ↔ lo ≤ ip ∧ ip ≤ hi := by
  have h47 : 47 ∉ dotted lo ++ 45 :: dotted hi := by
    simp only [List.mem_append, List.mem_cons, not_or]
    exact ⟨not_mem_dotted_slash lo, by decide, not_mem_dotted_slash hi⟩
  rw [range, pfMatchIp_dash h47 (not_mem_dotted_dash lo)]
  constructor
  · rintro ⟨lo', hi', hlo, hhi, hle⟩
    rwa [dotted_injective hlo, dotted_injective hhi]
  · intro hle
    exact ⟨lo, hi, rfl, rfl, hle⟩

/-- For every network, prefix and address; and no shift, here or with any other text, is by 32 bits
or more. -/
theorem cidr_is_range (net ip : UInt32) (p : Nat) (hp : p ≤ 32) :
    pfMatchIp (cidr net p) (dotted ip) =
        pfMatchIp (range (lowest p net) (highest p net)) (dotted ip) ∧
      ∀ pattern, checkedMatchIp pattern (dotted ip) = some (pfMatchIp pattern (dotted ip)) := by
  refine ⟨?_, fun pattern => checkedMatchIp_eq pattern (dotted ip)⟩
  rw [Bool.eq_iff_iff, pfMatchIp_cidr hp, pfMatchIp_range]
  exact sameNet_iff_between

theorem class_c_is_range :
    pfMatchIp (cidr 0xC0A80105 24) (dotted 0xC0A8012A) =
        pfMatchIp (range (lowest 24 0xC0A80105) (highest 24 0xC0A80105)) (dotted 0xC0A8012A) ∧
      ∀ pattern, checkedMatchIp pattern (dotted 0xC0A8012A) =
        some (pfMatchIp pattern (dotted 0xC0A8012A)) :=
  cidr_is_range 0xC0A80105 0xC0A8012A 24 (by decide)

end Proxiflare.Guarantees.CidrRanges
