import Proxiflare.Daemon.Fnmatch
import Proxiflare.Daemon.Rules

/-!
# Wildcard branches and the glob

`match_domain_single` looks at the ends of a pattern: `*x*` is searched for as a text, `*.r` is
compared as a text, and only what is left is given to `fnmatch`, cut to 253 bytes. The texts
accept less than the glob when they hold a wildcard themselves.
-/

namespace Proxiflare.Guarantees.WildcardBranches

open Lib Lib.CString
open Proxiflare.Daemon

abbrev fold (s : CStr) : CStr := s.map tolower

/-- The glob accepts the domain, letter case aside. -/
def GlobAccepts (pattern domain : CStr) : Prop := Glob.Matches (glob (fold pattern)) (fold domain)

/-- A `*` or `?`; no comma, bracket or backslash; at most 253 bytes. -/
structure WildcardPattern (pattern : CStr) : Prop where
  wildcard : ¬ Glob.Plain 42 63 pattern
  noBrackets : NoBrackets pattern
  noComma : 44 ∉ pattern
  length_le : pattern.length ≤ 253

/-- `*.foo` and `foo`. -/
def BareDomain (pattern domain : CStr) : Prop :=
  ∃ rest, rest ≠ [] ∧ pattern = 42 :: 46 :: rest ∧ fold domain = fold rest

/-- The matcher accepts what the glob accepts, and no more but the bare domain. -/
def Agrees (pattern domain : CStr) : Prop :=
  (GlobAccepts pattern domain → pfMatchDomain pattern domain = true) ∧
    (pfMatchDomain pattern domain = true → GlobAccepts pattern domain ∨ BareDomain pattern domain)

/-! ## Where they part -/

/-- `*x*` with a wildcard in `x`: some stretch of the domain matches `x`, none is `x`. -/
def EnclosedMiss (pattern domain : CStr) : Prop :=
  ∃ x, pattern = 42 :: (x ++ [42]) ∧ ¬ Glob.Plain 42 63 x ∧
    (∃ m, m <:+: fold domain ∧ Glob.Matches (glob (fold x)) m) ∧ ¬ fold x <:+: fold domain

/-- `*.r`: some end of the domain matches `.r`, but the domain is not `r` and does not end in the
text `.r` after another byte. -/
def EndingMiss (pattern domain : CStr) : Prop :=
  ∃ r, r ≠ [] ∧ pattern = 42 :: 46 :: r ∧ pattern.getLast? ≠ some 42 ∧
    (∃ m, m <:+ fold domain ∧ Glob.Matches (glob (fold (46 :: r))) m) ∧
    fold domain ≠ fold r ∧ ¬ (fold (46 :: r) <:+ fold domain ∧ fold domain ≠ fold (46 :: r))

/-- Neither `*x*` nor `*.r`. -/
def Other (pattern : CStr) : Prop :=
  (∀ x, pattern ≠ 42 :: (x ++ [42])) ∧ ∀ r, r ≠ [] → pattern ≠ 42 :: 46 :: r

/-- Any other pattern: the glob decides the domain and its first 253 bytes differently. -/
def LongMiss (pattern domain : CStr) : Prop :=
  Other pattern ∧ ¬ (GlobAccepts pattern (domain.take 253) ↔ GlobAccepts pattern domain)

variable {pattern domain x r : CStr}

/-! ## Folding -/

theorem tolower_eq_iff {c d : UInt8} (hd : d < 65 ∨ 90 < d ∧ d < 97) :
    tolower c = d ↔ c = d := by
  unfold tolower
  split
  · next hupper =>
    simp only [Bool.and_eq_true, decide_eq_true_eq, UInt8.le_iff_toNat_le] at hupper
    obtain ⟨hlo, hhi⟩ : 65 ≤ c.toNat ∧ c.toNat ≤ 90 := hupper
    have hd' : d.toNat < 65 ∨ 90 < d.toNat ∧ d.toNat < 97 := hd
    have hadd : (c + 32).toNat = c.toNat + 32 := by
      rw [UInt8.toNat_add]
      exact Nat.mod_eq_of_lt (by show c.toNat + 32 < 256; omega)
    rw [← UInt8.toNat_inj, ← UInt8.toNat_inj, hadd]
    omega
  · rfl

theorem mem_fold_iff {d : UInt8} (hd : d < 65 ∨ 90 < d ∧ d < 97) : d ∈ fold x ↔ d ∈ x := by
  simp only [fold, List.mem_map, tolower_eq_iff hd, exists_eq_right]

theorem fold_noBrackets (h : NoBrackets pattern) : NoBrackets (fold pattern) :=
  ⟨(mem_fold_iff (by decide)).not.mpr h.1, (mem_fold_iff (by decide)).not.mpr h.2⟩

theorem fold_plain (h : Glob.Plain 42 63 x) : Glob.Plain 42 63 (fold x) :=
  ⟨(mem_fold_iff (by decide)).not.mpr h.1, (mem_fold_iff (by decide)).not.mpr h.2⟩

/-! ## `*x*` -/

theorem globAccepts_enclosed :
    GlobAccepts (42 :: (x ++ [42])) domain ↔
      ∃ m, m <:+: fold domain ∧ Glob.Matches (glob (fold x)) m := by
  have hfold : fold (42 :: (x ++ [42])) = 42 :: (fold x ++ [42]) := by simp [tolower]
  rw [GlobAccepts, hfold]
  exact Glob.matches_enclosed_iff

theorem any_strncaseeq_iff (hle : x.length ≤ domain.length) :
    ((List.range (domain.length - x.length + 1)).any fun i =>
      strncaseeq (domain.drop i) x x.length) = true ↔ fold x <:+: fold domain := by
  simp only [List.any_eq_true, List.mem_range, strncaseeq, strcaseeq, List.take_length,
    decide_eq_true_eq]
  constructor
  · rintro ⟨i, -, heq⟩
    have hx : fold x = fold ((domain.drop i).take x.length) := heq.symm
    have hin := (List.take_prefix x.length (domain.drop i)).isInfix.trans
      (List.drop_suffix i domain).isInfix
    rw [hx]
    exact hin.map tolower
  · rintro ⟨before, after, heq⟩
    have hlen := congrArg List.length heq
    simp only [List.length_append, List.length_map] at hlen
    refine ⟨before.length, by omega, ?_⟩
    have hdrop : (fold domain).drop before.length = fold x ++ after := by
      rw [← heq, List.append_assoc, List.drop_left]
    rw [List.map_take, List.map_drop]
    exact (congrArg (List.take x.length) hdrop).trans (List.take_left' (List.length_map _))

theorem getLast?_enclosed (x : CStr) : (42 :: (x ++ [42])).getLast? = some 42 := by
  rw [← List.cons_append]
  exact List.getLast?_concat

/-- The needle is the text between the two stars. -/
theorem matchDomainSingle_enclosed (hlen : x.length ≤ 253) :
    matchDomainSingle (42 :: (x ++ [42])) domain = true ↔ x = [] ∨ fold x <:+: fold domain := by
  have hplen : (42 :: (x ++ [42])).length = x.length + 2 := by simp
  have hneedle : ((42 :: (x ++ [42])).drop 1).take x.length = x := by simp
  have hends : x.length + 2 ≥ 2 ∧ (42 :: (x ++ [42])).head? = some 42 ∧
      (42 :: (x ++ [42])).getLast? = some 42 := ⟨by omega, rfl, getLast?_enclosed x⟩
  unfold matchDomainSingle
  simp only [hplen, Nat.add_sub_cancel, hneedle]
  rw [if_pos hends]
  split
  · next hnil => exact iff_of_true rfl (.inl (List.eq_nil_of_length_eq_zero hnil))
  · next hpos =>
    have hne : x ≠ [] := fun h => hpos (congrArg List.length h)
    have hbuf : ¬ x.length ≥ pfDomainMax + 1 := by
      show ¬ x.length ≥ 254
      omega
    rw [if_neg hbuf, or_iff_right hne]
    split
    · next hshort =>
      refine iff_of_false Bool.false_ne_true fun hin => ?_
      have hle := hin.length_le
      rw [List.length_map, List.length_map] at hle
      omega
    · next hlong => exact any_strncaseeq_iff (Nat.le_of_not_lt hlong)

theorem pfMatchDomain_wildcard (h : WildcardPattern pattern) :
    pfMatchDomain pattern domain = matchDomainSingle pattern domain := by
  unfold pfMatchDomain
  rw [strchr_of_not_mem h.noComma]
  rfl

/-- The text is among the matches of its own glob, so the search accepts too little at most. -/
theorem agrees_enclosed (h : WildcardPattern (42 :: (x ++ [42]))) :
    Agrees (42 :: (x ++ [42])) domain ↔ ¬ EnclosedMiss (42 :: (x ++ [42])) domain := by
  have hlen : x.length ≤ 253 := by
    have hle := h.length_le
    simp only [List.length_cons, List.length_append] at hle
    omega
  unfold Agrees
  rw [pfMatchDomain_wildcard h, matchDomainSingle_enclosed hlen]
  constructor
  · rintro ⟨haccepts, -⟩ ⟨x', heq, hwild, hm, hno⟩
    obtain rfl : x = x' := List.append_cancel_right (List.cons.inj heq).2
    rcases haccepts (globAccepts_enclosed.mpr hm) with rfl | hin
    · exact hwild ⟨List.not_mem_nil, List.not_mem_nil⟩
    · exact hno hin
  · refine fun hmiss => ⟨fun haccepts => ?_, fun hmatch => .inl (globAccepts_enclosed.mpr ?_)⟩
    · obtain ⟨m, hm, hglob⟩ := globAccepts_enclosed.mp haccepts
      by_contra hno
      rw [not_or] at hno
      by_cases hplain : Glob.Plain 42 63 x
      · obtain rfl := (Glob.matches_plain_iff (fold_plain hplain)).mp hglob
        exact hno.2 hm
      · exact hmiss ⟨x, rfl, hplain, ⟨m, hm, hglob⟩, hno.2⟩
    · rcases hmatch with rfl | hin
      · exact ⟨[], List.nil_infix, .nil⟩
      · exact ⟨fold x, hin, Glob.matches_self _⟩

/-! ## `*.r` -/

theorem globAccepts_ending :
    GlobAccepts (42 :: 46 :: r) domain ↔
      ∃ m, m <:+ fold domain ∧ Glob.Matches (glob (fold (46 :: r))) m := by
  rw [GlobAccepts, show fold (42 :: 46 :: r) = 42 :: fold (46 :: r) from rfl]
  exact Glob.matches_ending_iff

theorem strcaseeq_end_iff :
    (decide (x.length < domain.length) &&
      strcaseeq (domain.drop (domain.length - x.length)) x) = true ↔
      fold x <:+ fold domain ∧ fold domain ≠ fold x := by
  simp only [Bool.and_eq_true, decide_eq_true_eq, strcaseeq]
  constructor
  · rintro ⟨hlt, heq⟩
    have hx : fold x = fold (domain.drop (domain.length - x.length)) := heq.symm
    refine ⟨?_, fun hwhole => ?_⟩
    · rw [hx]
      exact (List.drop_suffix _ domain).map tolower
    · have hlen := congrArg List.length hwhole
      rw [List.length_map, List.length_map] at hlen
      omega
  · rintro ⟨hsuffix, hne⟩
    have hle := hsuffix.length_le
    have hlen : (fold domain).length ≠ (fold x).length := fun hlen =>
      hne (hsuffix.eq_of_length hlen.symm).symm
    have hdrop := List.suffix_iff_eq_drop.mp hsuffix
    simp only [List.length_map] at hle hlen hdrop
    refine ⟨by omega, ?_⟩
    rw [List.map_drop]
    exact hdrop.symm

theorem matchDomainSingle_ending (hr : r ≠ []) (hlast : (42 :: 46 :: r).getLast? ≠ some 42) :
    matchDomainSingle (42 :: 46 :: r) domain = true ↔
      fold domain = fold r ∨ (fold (46 :: r) <:+ fold domain ∧ fold domain ≠ fold (46 :: r)) := by
  have hpos : 0 < r.length := List.length_pos_iff.mpr hr
  have hplen : (42 :: 46 :: r).length = r.length + 2 := rfl
  have hends : (42 :: 46 :: r).length > 2 ∧ (42 :: 46 :: r).head? = some 42 ∧
      (42 :: 46 :: r)[1]? = some 46 := ⟨by omega, rfl, rfl⟩
  have hbare : strcaseeq domain (((42 :: 46 :: r).drop 1).drop 1) = true ↔ fold domain = fold r :=
    decide_eq_true_iff
  unfold matchDomainSingle
  rw [if_neg fun h => hlast h.2.2, if_pos hends, Bool.or_eq_true, hbare]
  exact or_congr_right strcaseeq_end_iff

theorem agrees_ending (h : WildcardPattern (42 :: 46 :: r)) (hr : r ≠ [])
    (hlast : (42 :: 46 :: r).getLast? ≠ some 42) :
    Agrees (42 :: 46 :: r) domain ↔ ¬ EndingMiss (42 :: 46 :: r) domain := by
  unfold Agrees
  rw [pfMatchDomain_wildcard h, matchDomainSingle_ending hr hlast]
  constructor
  · rintro ⟨haccepts, -⟩ ⟨r', -, heq, -, hm, hbare, hend⟩
    obtain rfl : r = r' := (List.cons.inj (List.cons.inj heq).2).2
    rcases haccepts (globAccepts_ending.mpr hm) with hwhole | htext
    · exact hbare hwhole
    · exact hend htext
  · refine fun hmiss => ⟨fun haccepts => ?_, fun hmatch => ?_⟩
    · by_contra hno
      rw [not_or] at hno
      exact hmiss ⟨r, hr, rfl, hlast, globAccepts_ending.mp haccepts, hno.1, hno.2⟩
    · rcases hmatch with hbare | ⟨hsuffix, -⟩
      · exact .inr ⟨r, hr, rfl, hbare⟩
      · exact .inl (globAccepts_ending.mpr ⟨fold (46 :: r), hsuffix, Glob.matches_self _⟩)

/-! ## All other patterns -/

theorem exists_enclosed (hlen : pattern.length ≥ 2) (hhead : pattern.head? = some 42)
    (hlast : pattern.getLast? = some 42) : ∃ x, pattern = 42 :: (x ++ [42]) := by
  obtain ⟨rest, rfl⟩ := List.head?_eq_some_iff.mp hhead
  have hne : rest ≠ [] := by
    rintro rfl
    exact absurd hlen (by decide)
  rw [List.getLast?_cons_of_ne_nil hne] at hlast
  obtain ⟨x, rfl⟩ := List.getLast?_eq_some_iff.mp hlast
  exact ⟨x, rfl⟩

theorem exists_ending (hlen : pattern.length > 2) (hhead : pattern.head? = some 42)
    (hdot : pattern[1]? = some 46) : ∃ r, r ≠ [] ∧ pattern = 42 :: 46 :: r := by
  obtain ⟨rest, rfl⟩ := List.head?_eq_some_iff.mp hhead
  rw [List.getElem?_cons_succ, ← List.head?_eq_getElem?] at hdot
  obtain ⟨r, rfl⟩ := List.head?_eq_some_iff.mp hdot
  refine ⟨r, ?_, rfl⟩
  rintro rfl
  exact absurd hlen (by decide)

theorem matchDomainSingle_other (h : WildcardPattern pattern) (hother : Other pattern) :
    matchDomainSingle pattern domain = true ↔ GlobAccepts pattern (domain.take 253) := by
  have henclosed : ¬ (pattern.length ≥ 2 ∧ pattern.head? = some 42 ∧
      pattern.getLast? = some 42) := by
    rintro ⟨hlen, hhead, hlast⟩
    obtain ⟨x, hx⟩ := exists_enclosed hlen hhead hlast
    exact hother.1 x hx
  have hending : ¬ (pattern.length > 2 ∧ pattern.head? = some 42 ∧ pattern[1]? = some 46) := by
    rintro ⟨hlen, hhead, hdot⟩
    obtain ⟨r, hr, hpattern⟩ := exists_ending hlen hhead hdot
    exact hother.2 r hr hpattern
  have hplain : ¬ (strchr pattern 42 = none ∧ strchr pattern 63 = none) := by
    rw [← Option.not_isSome_iff_eq_none, ← Option.not_isSome_iff_eq_none, strchr_isSome_iff,
      strchr_isSome_iff]
    exact h.wildcard
  have hbuf : pattern.take pfDomainMax = pattern := List.take_of_length_le h.length_le
  unfold matchDomainSingle
  rw [if_neg henclosed, if_neg hending, if_neg hplain, hbuf]
  exact fnmatch_iff_matches (fold_noBrackets h.noBrackets)

theorem agrees_other (h : WildcardPattern pattern) (hother : Other pattern) :
    Agrees pattern domain ↔ ¬ LongMiss pattern domain := by
  unfold Agrees LongMiss
  rw [pfMatchDomain_wildcard h, matchDomainSingle_other h hother]
  have hbare : ¬ BareDomain pattern domain := by
    rintro ⟨rest, hrest, hpattern, -⟩
    exact hother.2 rest hrest hpattern
  rw [or_iff_left hbare]
  tauto

/-! ## Every pattern -/

/-- For every pattern and domain: the three ways to miss are all there are. -/
theorem wildcard_branches_agree_iff (pattern domain : CStr) (h : WildcardPattern pattern) :
    Agrees pattern domain ↔
      ¬ (EnclosedMiss pattern domain ∨ EndingMiss pattern domain ∨ LongMiss pattern domain) := by
  by_cases henclosed : ∃ x, pattern = 42 :: (x ++ [42])
  · obtain ⟨x, rfl⟩ := henclosed
    have hending : ¬ EndingMiss (42 :: (x ++ [42])) domain := by
      rintro ⟨r, -, -, hlast, -⟩
      exact hlast (getLast?_enclosed x)
    have hlong : ¬ LongMiss (42 :: (x ++ [42])) domain := fun hmiss => hmiss.1.1 x rfl
    rw [agrees_enclosed h, or_iff_left (not_or.mpr ⟨hending, hlong⟩)]
  · have hmiss : ¬ EnclosedMiss pattern domain := by
      rintro ⟨x, hx, -⟩
      exact henclosed ⟨x, hx⟩
    rw [or_iff_right hmiss]
    by_cases hending : ∃ r, r ≠ [] ∧ pattern = 42 :: 46 :: r
    · obtain ⟨r, hr, rfl⟩ := hending
      have hlast : (42 :: 46 :: r).getLast? ≠ some 42 := fun hlast =>
        henclosed (exists_enclosed (Nat.le_add_left 2 r.length) rfl hlast)
      have hlong : ¬ LongMiss (42 :: 46 :: r) domain := fun hmiss => hmiss.1.2 r hr rfl
      rw [agrees_ending h hr hlast, or_iff_left hlong]
    · have hother : Other pattern :=
        ⟨fun x hx => henclosed ⟨x, hx⟩, fun r hr hpattern => hending ⟨r, hr, hpattern⟩⟩
      have hmiss' : ¬ EndingMiss pattern domain := by
        rintro ⟨r, hr, hpattern, -⟩
        exact hending ⟨r, hr, hpattern⟩
      rw [agrees_other h hother, or_iff_right hmiss']

/-! ## Instances -/

theorem subdomain_agrees_iff :
    Agrees (lit "*.sky.ch") (lit "api.sky.ch") ↔
      ¬ (EnclosedMiss (lit "*.sky.ch") (lit "api.sky.ch") ∨
        EndingMiss (lit "*.sky.ch") (lit "api.sky.ch") ∨
        LongMiss (lit "*.sky.ch") (lit "api.sky.ch")) :=
  wildcard_branches_agree_iff (lit "*.sky.ch") (lit "api.sky.ch")
    ⟨by decide, by decide, by decide, by decide⟩

/-- The glob `*a*b*` accepts `aXb`; the matcher searches it for the text `a*b`. -/
theorem inner_star_misses :
    WildcardPattern (lit "*a*b*") ∧ ¬ Agrees (lit "*a*b*") (lit "aXb") := by
  refine ⟨⟨by decide, by decide, by decide, by decide⟩, fun h => ?_⟩
  have haccepts : GlobAccepts (lit "*a*b*") (lit "aXb") :=
    (fnmatch_iff_matches (by decide)).mp (by decide)
  exact absurd (h.1 haccepts) (by decide)

end Proxiflare.Guarantees.WildcardBranches
