import Proxiflare.Daemon.Rules
import Proxiflare.Lib.Ipv4

/-!
# Which address patterns match

`inet_pton` reads dotted texts and nothing else. `pf_match_ip` therefore accepts an address, a
text that `atoi` reads after a slash, or two addresses around a dash.
-/

namespace Proxiflare.Daemon

open Lib.CString Lib.Ipv4

/-! ## `inet_pton` -/

theorem octet_decimal (b : UInt8) : octet (decimal b.toNat) = some b.toNat := by
  have h : (fun b : UInt8 => octet (decimal b.toNat)) = fun b => some b.toNat :=
    ext_bytes (by decide +kernel)
  exact congrFun h b

theorem octet_eq_some_iff {s : CStr} {v : Nat} : octet s = some v ↔ v ≤ 255 ∧ s = decimal v := by
  constructor
  · intro h
    simp only [octet] at h
    split at h
    · next hok =>
      obtain ⟨hne, hlen, hdigits, hlead, hle⟩ := hok
      have hall := List.all_eq_true.mp hdigits
      obtain ⟨n, rfl⟩ := exists_decimal hne hall hlead
      have hwhole : (decimal n).takeWhile isDigit = decimal n :=
        List.takeWhile_eq_self_iff.mpr hall
      have hn : n < 10 ^ 3 := lt_of_decimal_length_le hlen
      have hvalue := strtol_of_decimal (show n < 2 ^ 63 by omega) hwhole
      rw [hvalue, Int.toNat_natCast] at h hle
      obtain rfl := Option.some.inj h
      exact ⟨hle, rfl⟩
    · cases h
  · rintro ⟨hle, rfl⟩
    have hbyte : (UInt8.ofNat v).toNat = v := UInt8.toNat_ofNat_of_lt' (by show v < 256; omega)
    have hread := octet_decimal (UInt8.ofNat v)
    rwa [hbyte] at hread

/-- The four numbers of a dotted text are the bytes of the address. -/
theorem inetPton4_eq_some_iff {s : CStr} {a : UInt32} : inetPton4 s = some a ↔ s = dotted a := by
  have hdot : ∀ n, (46 : UInt8) ∉ decimal n := fun n hmem =>
    absurd (isDigit_of_mem_decimal hmem) (by decide)
  constructor
  · intro h
    unfold inetPton4 at h
    split at h
    · next w x y z hparts =>
      obtain ⟨p, q, r, t, hsplit⟩ : ∃ p q r t, s.splitOn 46 = [p, q, r, t] := by
        have hlen := congrArg List.length hparts
        rw [List.length_map] at hlen
        exact List.length_eq_four.mp hlen
      rw [hsplit] at hparts
      simp only [List.map_cons, List.map_nil, List.cons.injEq, and_true, octet_eq_some_iff] at hparts
      obtain ⟨⟨hw, rfl⟩, ⟨hx, rfl⟩, ⟨hy, rfl⟩, hz, rfl⟩ := hparts
      have hs : [46].intercalate (s.splitOn 46) = s := List.intercalate_splitOn 46
      rw [hsplit] at hs
      have haddr : a.toNat = ((w * 256 + x) * 256 + y) * 256 + z := by
        rw [← Option.some.inj h, UInt32.toNat_ofNat', Nat.mod_eq_of_lt (by omega)]
      have hw' : a.toNat / 2 ^ 24 = w := by omega
      have hx' : a.toNat / 2 ^ 16 % 256 = x := by omega
      have hy' : a.toNat / 2 ^ 8 % 256 = y := by omega
      have hz' : a.toNat % 256 = z := by omega
      rw [← hs, dotted, hw', hx', hy', hz']
      simp [List.intercalate]
    · cases h
  · rintro rfl
    have hlt := a.toNat_lt
    have hread : ∀ n, n ≤ 255 → octet (decimal n) = some n := fun n hn =>
      octet_eq_some_iff.mpr ⟨hn, rfl⟩
    rw [inetPton4, dotted, List.splitOn_append_cons_self_of_not_mem (hdot _),
      List.splitOn_append_cons_self_of_not_mem (hdot _),
      List.splitOn_append_cons_self_of_not_mem (hdot _), List.splitOn_eq_singleton (hdot _)]
    simp only [List.map_cons, List.map_nil]
    rw [hread _ (by omega), hread _ (by omega), hread _ (by omega), hread _ (by omega)]
    simp only [Option.some.injEq]
    apply UInt32.toNat_inj.mp
    rw [UInt32.toNat_ofNat']
    omega

theorem inetPton4_dotted (a : UInt32) : inetPton4 (dotted a) = some a :=
  inetPton4_eq_some_iff.mpr rfl

theorem dotted_injective {a b : UInt32} (h : dotted a = dotted b) : a = b := by
  have ha := inetPton4_dotted a
  rw [h, inetPton4_dotted] at ha
  exact (Option.some.inj ha).symm

theorem dotted_length (a : UInt32) : (dotted a).length ≤ 15 :=
  inetPton4_length (Option.isSome_of_eq_some (inetPton4_dotted a))

/-! ## `pf_match_ip` -/

variable {pattern pre rest : CStr} {ip : UInt32}

/-- The mask that `pf_match_ip` computes from a prefix in range. -/
theorem prefix_mask {n : Int} (hn : 0 ≤ n) :
    (if n = 0 then (0 : UInt32) else 0xFFFFFFFF <<< UInt32.ofNat (32 - n.toNat)) = mask n.toNat := by
  unfold mask
  exact if_congr (by omega) rfl rfl

theorem pfMatchIp_slash_eq (h47 : 47 ∉ pre) :
    pfMatchIp (pre ++ 47 :: rest) (dotted ip) =
      (decide (pre.length < 48 ∧ 0 ≤ atoi rest ∧ atoi rest ≤ 32) && (inetPton4 pre).any fun net =>
        decide (ip &&& mask (atoi rest).toNat = net &&& mask (atoi rest).toNat)) := by
  have hnet : (pre ++ 47 :: rest).take ((pre ++ 47 :: rest).length - (47 :: rest).length) = pre := by
    rw [List.length_append, Nat.add_sub_cancel, List.take_left]
  unfold pfMatchIp
  rw [inetPton4_dotted, strchr_append_cons h47]
  simp only [hnet, List.tail_cons]
  split
  · next hbad => rw [decide_eq_false (by omega), Bool.false_and]
  · next hok =>
    rw [decide_eq_true (by omega), Bool.true_and]
    cases inetPton4 pre with
    | none => rfl
    | some net =>
      have hpos : 0 ≤ atoi rest := by omega
      exact congrArg (fun m => decide (ip &&& m = net &&& m)) (prefix_mask hpos)

theorem pfMatchIp_slash (h47 : 47 ∉ pre) :
    pfMatchIp (pre ++ 47 :: rest) (dotted ip) = true ↔
      ∃ net p, pre = dotted net ∧ p ≤ 32 ∧ atoi rest = (p : Nat) ∧ SameNet p net ip := by
  simp only [pfMatchIp_slash_eq h47, Bool.and_eq_true, decide_eq_true_eq, Option.any_eq_true,
    inetPton4_eq_some_iff]
  constructor
  · rintro ⟨⟨-, hlo, hhi⟩, net, rfl, hmask⟩
    have hp : (atoi rest).toNat ≤ 32 := by omega
    exact ⟨net, (atoi rest).toNat, rfl, hp, (Int.toNat_of_nonneg hlo).symm,
      ((and_mask_eq_iff hp).mp hmask).symm⟩
  · rintro ⟨net, p, rfl, hp, hread, hsame⟩
    have hlen := dotted_length net
    rw [hread, Int.toNat_natCast]
    exact ⟨⟨by omega, by omega, by omega⟩, net, rfl, (and_mask_eq_iff hp).mpr hsame.symm⟩

theorem pfMatchIp_dash (h47 : 47 ∉ pre ++ 45 :: rest) (h45 : 45 ∉ pre) :
    pfMatchIp (pre ++ 45 :: rest) (dotted ip) = true ↔
      ∃ lo hi, pre = dotted lo ∧ rest = dotted hi ∧ lo ≤ ip ∧ ip ≤ hi := by
  have hlo : (pre ++ 45 :: rest).take ((pre ++ 45 :: rest).length - (45 :: rest).length) = pre := by
    rw [List.length_append, Nat.add_sub_cancel, List.take_left]
  unfold pfMatchIp
  rw [inetPton4_dotted, strchr_of_not_mem h47, strchr_append_cons h45]
  simp only [hlo, List.tail_cons]
  constructor
  · intro h
    split at h
    · cases h
    · split at h
      · next lo hi hreadLo hreadHi =>
        -- a text that fills the buffer is no address, so nothing was cut off
        have hend := inetPton4_eq_some_iff.mp hreadHi
        have hlen := congrArg List.length hend
        have hshort := dotted_length hi
        rw [List.length_take] at hlen
        rw [List.take_of_length_le (by omega)] at hend
        rw [Bool.and_eq_true, decide_eq_true_eq, decide_eq_true_eq] at h
        exact ⟨lo, hi, inetPton4_eq_some_iff.mp hreadLo, hend, h⟩
      · cases h
  · rintro ⟨lo, hi, rfl, rfl, hle⟩
    have hlen := dotted_length lo
    have hlen' := dotted_length hi
    rw [if_neg (by omega), List.take_of_length_le (by omega), inetPton4_dotted, inetPton4_dotted]
    simp only [Bool.and_eq_true, decide_eq_true_eq]
    exact hle

theorem pfMatchIp_plain (h47 : 47 ∉ pattern) (h45 : 45 ∉ pattern) :
    pfMatchIp pattern (dotted ip) = true ↔ pattern = dotted ip := by
  unfold pfMatchIp
  rw [inetPton4_dotted, strchr_of_not_mem h47, strchr_of_not_mem h45]
  simp only [decide_eq_true_eq]
  exact inetPton4_eq_some_iff

theorem not_mem_dotted_slash (a : UInt32) : 47 ∉ dotted a :=
  not_mem_dotted (by decide) (by decide) a

theorem not_mem_dotted_dash (a : UInt32) : 45 ∉ dotted a :=
  not_mem_dotted (by decide) (by decide) a

/-- Everything that is accepted, whatever the pattern. -/
theorem pfMatchIp_iff :
    pfMatchIp pattern (dotted ip) = true ↔
      pattern = dotted ip ∨
      (∃ net rest p, pattern = dotted net ++ 47 :: rest ∧ p ≤ 32 ∧ atoi rest = (p : Nat) ∧
        SameNet p net ip) ∨
      (∃ lo hi, pattern = dotted lo ++ 45 :: dotted hi ∧ lo ≤ ip ∧ ip ≤ hi) := by
  constructor
  · intro h
    by_cases h47 : 47 ∈ pattern
    · obtain ⟨pre, rest, rfl, hpre⟩ := List.eq_append_cons_of_mem h47
      obtain ⟨net, p, rfl, hp, hread, hsame⟩ := (pfMatchIp_slash hpre).mp h
      exact .inr (.inl ⟨net, rest, p, rfl, hp, hread, hsame⟩)
    · by_cases h45 : 45 ∈ pattern
      · obtain ⟨pre, rest, rfl, hpre⟩ := List.eq_append_cons_of_mem h45
        obtain ⟨lo, hi, rfl, rfl, hle⟩ := (pfMatchIp_dash h47 hpre).mp h
        exact .inr (.inr ⟨lo, hi, rfl, hle⟩)
      · exact .inl ((pfMatchIp_plain h47 h45).mp h)
  · rintro (rfl | ⟨net, rest, p, rfl, hp, hread, hsame⟩ | ⟨lo, hi, rfl, hle⟩)
    · exact (pfMatchIp_plain (not_mem_dotted_slash ip) (not_mem_dotted_dash ip)).mpr rfl
    · exact (pfMatchIp_slash (not_mem_dotted_slash net)).mpr ⟨net, p, rfl, hp, hread, hsame⟩
    · have h47 : 47 ∉ dotted lo ++ 45 :: dotted hi := by
        simp only [List.mem_append, List.mem_cons, not_or]
        exact ⟨not_mem_dotted_slash lo, by decide, not_mem_dotted_slash hi⟩
      exact (pfMatchIp_dash h47 (not_mem_dotted_dash lo)).mpr ⟨lo, hi, rfl, rfl, hle⟩

end Proxiflare.Daemon
