import Proxiflare.Daemon.Rules

/-!
# Comma lists of domain patterns

`pf_match_domain` cuts a pattern with a comma into tokens and trims their blanks. Up to the size
of its buffer, a list so written accepts what one of its patterns accepts.
-/

namespace Proxiflare.Guarantees.CommaLists

open Lib.CString
open Proxiflare.Daemon

/-- A pattern that can stand in a list: not empty, no comma, no blank at either end. -/
structure Item (p : CStr) : Prop where
  ne_nil : p ≠ []
  noComma : 44 ∉ p
  head : p.head? ≠ some 32
  last : p.getLast? ≠ some 32

abbrev blanks (n : Nat) : CStr := List.replicate n 32

/-- The patterns with a comma between them, and any blanks before and after each comma. -/
inductive Joined : List CStr → CStr → Prop
  | one (p : CStr) : Joined [p] p
  | cons (p : CStr) (before after : Nat) {ps : List CStr} {text : CStr} (rest : Joined ps text) :
      Joined (p :: ps) (p ++ blanks before ++ 44 :: (blanks after ++ text))

variable {p : CStr} {ps : List CStr} {list : CStr}

/-! ## One token -/

theorem dropWhile_blanks (n : Nat) (hhead : p.head? ≠ some 32) :
    (blanks n ++ p).dropWhile (· = 32) = p := by
  have hall : ∀ c ∈ blanks n, decide (c = 32) = true := by
    intro c hc
    exact decide_eq_true (List.eq_of_mem_replicate hc)
  rw [List.dropWhile_append_of_pos hall]
  cases p with
  | nil => rfl
  | cons c p =>
    have hc : ¬ decide (c = 32) = true := fun h => hhead (congrArg some (of_decide_eq_true h))
    exact List.dropWhile_cons_of_neg hc

/-- Both trimming loops stop at the pattern. -/
theorem trimSpaces_blanks (h : Item p) (before after : Nat) :
    trimSpaces (blanks before ++ p ++ blanks after) = p := by
  have hhead : (p ++ blanks after).head? ≠ some 32 := by
    rw [List.head?_append_of_ne_nil _ h.ne_nil]
    exact h.head
  have hlast : p.reverse.head? ≠ some 32 := by
    rw [List.head?_reverse]
    exact h.last
  unfold trimSpaces
  rw [List.append_assoc, dropWhile_blanks before hhead, List.reverse_append, List.reverse_replicate,
    dropWhile_blanks after hlast, List.reverse_reverse]

theorem noComma_blanks (h : 44 ∉ p) (before after : Nat) :
    44 ∉ blanks before ++ p ++ blanks after := by
  have hblanks : ∀ n, (44 : UInt8) ∉ blanks n := fun n hmem =>
    absurd (List.eq_of_mem_replicate hmem) (by decide)
  simp only [List.mem_append, not_or]
  exact ⟨⟨hblanks before, h⟩, hblanks after⟩

/-! ## The tokens of a list -/

/-- The tokens, blanks removed, are the patterns in their order, whatever stands before the first. -/
theorem map_trimSpaces_splitOn (h : Joined ps list) (hitems : ∀ p ∈ ps, Item p) (n : Nat) :
    ((blanks n ++ list).splitOn 44).map trimSpaces = ps := by
  induction h generalizing n with
  | one p =>
    have hp := hitems p List.mem_cons_self
    have hend : blanks n ++ p ++ blanks 0 = blanks n ++ p := List.append_nil _
    have hcomma := noComma_blanks hp.noComma n 0
    have htrim := trimSpaces_blanks hp n 0
    rw [hend] at hcomma htrim
    rw [List.splitOn_eq_singleton hcomma, List.map_singleton, htrim]
  | cons p before after rest ih =>
    have hp := hitems p List.mem_cons_self
    have hrest := ih (fun q hq => hitems q (List.mem_cons_of_mem p hq)) after
    rw [← List.append_assoc, ← List.append_assoc,
      List.splitOn_append_cons_self_of_not_mem (noComma_blanks hp.noComma n before), List.map_cons,
      trimSpaces_blanks hp n before, hrest]

/-- A pattern is tried exactly when it is one of the list; `strtok_r` drops no token of it. -/
theorem any_token_iff (h : Joined ps list) (hitems : ∀ p ∈ ps, Item p) (q : CStr → Bool) :
    ((strtok list 44).any fun tok => trimSpaces tok ≠ [] && q (trimSpaces tok)) = true ↔
      ∃ p ∈ ps, q p = true := by
  have hps : (list.splitOn 44).map trimSpaces = ps := map_trimSpaces_splitOn h hitems 0
  subst hps
  simp only [strtok, List.any_filter, List.any_eq_true, Bool.and_eq_true, decide_eq_true_eq,
    List.mem_map]
  constructor
  · rintro ⟨tok, htok, -, -, hq⟩
    exact ⟨trimSpaces tok, ⟨tok, htok, rfl⟩, hq⟩
  · rintro ⟨_, ⟨tok, htok, rfl⟩, hq⟩
    have hne : trimSpaces tok ≠ [] := (hitems _ (List.mem_map_of_mem htok)).ne_nil
    have htok' : tok ≠ [] := by
      rintro rfl
      exact hne rfl
    exact ⟨tok, htok, htok', hne, hq⟩

theorem pfMatchDomain_single (h : Item p) (domain : CStr) :
    pfMatchDomain p domain = matchDomainSingle p domain := by
  unfold pfMatchDomain
  rw [strchr_of_not_mem h.noComma]
  rfl

/-- For every list that has a comma and fits the buffer, and every domain. -/
theorem comma_list_is_union (patterns : List CStr) (list domain : CStr)
    (hitems : ∀ p ∈ patterns, Item p) (hjoined : Joined patterns list) (hcomma : 44 ∈ list)
    (hfits : list.length ≤ 1011) :
    pfMatchDomain list domain = true ↔ ∃ p ∈ patterns, pfMatchDomain p domain = true := by
  have hbuf : list.take (pfDomainMax * 4 - 1) = list := List.take_of_length_le hfits
  have htokens := any_token_iff hjoined hitems (matchDomainSingle · domain)
  rw [pfMatchDomain, if_pos ((strchr_isSome_iff list 44).mpr hcomma), hbuf, htokens]
  constructor
  · rintro ⟨p, hp, hmatch⟩
    exact ⟨p, hp, (pfMatchDomain_single (hitems p hp) domain).trans hmatch⟩
  · rintro ⟨p, hp, hmatch⟩
    exact ⟨p, hp, (pfMatchDomain_single (hitems p hp) domain).symm.trans hmatch⟩

theorem two_patterns_union :
    pfMatchDomain (lit "*.sky.ch ,  dazn.com") (lit "DAZN.com") = true ↔
      ∃ p ∈ [lit "*.sky.ch", lit "dazn.com"], pfMatchDomain p (lit "DAZN.com") = true := by
  have hitems : ∀ p ∈ [lit "*.sky.ch", lit "dazn.com"], Item p := by
    simp only [List.forall_mem_cons, List.not_mem_nil, false_imp_iff, implies_true, and_true]
    exact ⟨⟨by decide, by decide, by decide, by decide⟩, by decide, by decide, by decide, by decide⟩
  exact comma_list_is_union _ _ _ hitems (.cons (lit "*.sky.ch") 1 2 (.one (lit "dazn.com")))
    (by decide) (by decide)

end Proxiflare.Guarantees.CommaLists
