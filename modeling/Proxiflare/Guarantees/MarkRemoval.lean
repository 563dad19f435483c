import Proxiflare.Daemon.Nft

/-!
# Which marks a removal takes with it

Rules are found by searching for the comment as a substring, so the mark of `i` also
matches every mark whose number continues the digits of `i`. Removal is exact when
no such number is installed, and only then; the bound on collected handles never
changes this.
-/

namespace Proxiflare.Guarantees.MarkRemoval

open Lib.CString
open Proxiflare.Daemon

/-- A chain as `nft` keeps it: distinct positive handles, one mark an id, and no foreign line that
mentions a mark comment. -/
structure Installed (chain : List NftRule) : Prop where
  handles : (chain.map NftRule.handle).Nodup
  range : ∀ r ∈ chain, 0 < r.handle ∧ r.handle < 2 ^ 31
  marks : (chain.filterMap NftRule.markOf).Nodup
  foreign : ∀ h line, NftRule.other h line ∈ chain → ¬ lit "pf_cgroup_" <:+: line

/-- The rules whose line contains the comment of `i`. -/
def matched (chain : List NftRule) (i : Nat) : List NftRule :=
  chain.filter fun r => r.markOf.any fun j => (decimal i).isPrefixOf (decimal j)

variable {printed : Nat → CStr} {chain : List NftRule} {i : Nat}

theorem mem_matched {r : NftRule} :
    r ∈ matched chain i ↔ r ∈ chain ∧ ∃ j, r.markOf = some j ∧ decimal i <+: decimal j := by
  simp [matched, Option.any_eq_true]

theorem handleOf_foreign {line : CStr} (h : ¬ lit "pf_cgroup_" <:+: line) :
    handleOf (cgroupComment i) line = none := by
  have hno : ¬ (strstr line (cgroupComment i)).isSome = true := by
    rw [strstr_isSome_iff]
    exact fun hin => h ((List.prefix_append _ _).isInfix.trans hin)
  exact if_neg hno

/-- The listing yields the handles of the matched rules, in order. -/
theorem handles_of_listing (hp : PrintsPlainly printed) (hin : Installed chain) (i : Nat) :
    (chain.map (listLine printed)).filterMap (handleOf (cgroupComment i)) =
      (matched chain i).map fun r => (r.handle : Int) := by
  obtain ⟨-, hrange, -, hforeign⟩ := hin
  induction chain with
  | nil => rfl
  | cons r rs ih =>
    obtain ⟨⟨hpos, hmax⟩, hrest⟩ := List.forall_mem_cons.mp hrange
    have htail := ih hrest fun h line hmem => hforeign h line (List.mem_cons_of_mem _ hmem)
    cases r with
    | mark h j =>
      have hline : handleOf (cgroupComment i) (listLine printed (.mark h j)) = _ :=
        handleOf_mark hp hpos hmax i j
      by_cases hpre : decimal i <+: decimal j
      · rw [if_pos hpre] at hline
        rw [List.map_cons, List.filterMap_cons_some hline, htail]
        simp [matched, NftRule.markOf, NftRule.handle, hpre]
      · rw [if_neg hpre] at hline
        rw [List.map_cons, List.filterMap_cons_none hline, htail]
        simp [matched, NftRule.markOf, hpre]
    | other h line =>
      have hline : handleOf (cgroupComment i) (listLine printed (.other h line)) = none :=
        handleOf_foreign (hforeign h line (by simp))
      rw [List.map_cons, List.filterMap_cons_none hline, htail]
      simp [matched, NftRule.markOf]

/-- A rule goes when it is among the first 256 matched ones. -/
theorem mem_remove_iff (hp : PrintsPlainly printed) (hin : Installed chain) {r : NftRule}
    (hr : r ∈ chain) :
    r ∈ pfNftRemoveCgroupMark printed chain i ↔ r ∉ (matched chain i).take maxHandles := by
  have hinj : ∀ r' ∈ chain, r'.handle = r.handle → r' = r := fun r' hr' heq =>
    List.inj_on_of_nodup_map hin.handles hr' hr heq
  have hdel : (r.handle : Int) ∈ nftDeleteByComment (chain.map (listLine printed))
      (cgroupComment i) ↔ r ∈ (matched chain i).take maxHandles := by
    rw [nftDeleteByComment, handles_of_listing hp hin, ← List.map_take, List.mem_reverse,
      List.mem_map]
    constructor
    · rintro ⟨r', hr', heq⟩
      have hmem := (mem_matched.mp (List.mem_of_mem_take hr')).1
      rwa [hinj r' hmem (by exact_mod_cast heq)] at hr'
    · exact fun h => ⟨r, h, rfl⟩
  simp [pfNftRemoveCgroupMark, hr, hdel]

/-- The mark of `i` is gone and every other rule is still there, in place. -/
def ExactRemoval (printed : Nat → CStr) (chain : List NftRule) (i : Nat) : Prop :=
  pfNftRemoveCgroupMark printed chain i = chain.filter fun r => r.markOf ≠ some i

theorem exactRemoval_iff (hp : PrintsPlainly printed) (hin : Installed chain) :
    ExactRemoval printed chain i ↔
      ∀ r ∈ chain, (r ∈ (matched chain i).take maxHandles ↔ r.markOf = some i) := by
  have hmem : ∀ r ∈ chain, (r ∈ pfNftRemoveCgroupMark printed chain i ↔
      r ∉ (matched chain i).take maxHandles) := fun r => mem_remove_iff hp hin
  constructor
  · intro hexact r hr
    have h := hmem r hr
    rw [hexact, List.mem_filter] at h
    simp only [hr, true_and, decide_eq_true_eq] at h
    exact (not_iff_not.mp h).symm
  · intro h
    apply List.filter_congr
    intro r hr
    have hr' := hmem r hr
    simp only [pfNftRemoveCgroupMark, List.mem_filter, hr, true_and, decide_eq_true_eq] at hr'
    rw [decide_eq_decide, hr', h r hr]

/-- Two marks of one id are one rule. -/
theorem mark_unique (hin : Installed chain) {r r' : NftRule} {j : Nat} (hr : r ∈ chain)
    (hr' : r' ∈ chain) (hj : r.markOf = some j) (hj' : r'.markOf = some j) : r = r' := by
  by_contra hne
  have hpair := List.pairwise_filterMap.mp hin.marks
  have hsymm : Std.Symm fun a b : NftRule =>
      ∀ c, a.markOf = some c → ∀ d, b.markOf = some d → c ≠ d :=
    ⟨fun a b h c hc d hd => (h d hd c hc).symm⟩
  exact hpair.forall hr hr' hne j hj j hj' rfl

/-- A list whose members are all the same rule, listed without repetition. -/
theorem length_le_one_of_eq {l : List NftRule} (hnd : l.Nodup) (h : ∀ r ∈ l, ∀ r' ∈ l, r = r') :
    l.length ≤ 1 := by
  match l with
  | [] => simp
  | [_] => simp
  | a :: b :: rest =>
    have hab := h a (by simp) b (by simp)
    simp [hab] at hnd

/-- Removing the mark of `i` is exact precisely when no other installed number begins with the
digits of `i`. -/
theorem removal_exact_iff_no_extension (hp : PrintsPlainly printed) (hin : Installed chain)
    (i : Nat) :
    ExactRemoval printed chain i ↔
      ∀ j ∈ chain.filterMap NftRule.markOf, j ≠ i → ¬ decimal i <+: decimal j := by
  have hnd : (matched chain i).Nodup := (List.Nodup.of_map _ hin.handles).filter _
  rw [exactRemoval_iff hp hin]
  constructor
  · intro hexact j hj hji hpre
    obtain ⟨r, hr, hrj⟩ := List.mem_filterMap.mp hj
    have hmatched : r ∈ matched chain i := mem_matched.mpr ⟨hr, j, hrj, hpre⟩
    have hall : ∀ r' ∈ (matched chain i).take maxHandles, r'.markOf = some i := fun r' hr' =>
      (hexact r' (mem_matched.mp (List.mem_of_mem_take hr')).1).mp hr'
    have hlen : ((matched chain i).take maxHandles).length ≤ 1 := by
      apply length_le_one_of_eq (hnd.sublist (List.take_sublist _ _))
      intro a ha b hb
      exact mark_unique hin (mem_matched.mp (List.mem_of_mem_take ha)).1
        (mem_matched.mp (List.mem_of_mem_take hb)).1 (hall a ha) (hall b hb)
    have htake : (matched chain i).take maxHandles = matched chain i := by
      rw [List.length_take, maxHandles] at hlen
      exact List.take_of_length_le (by rw [maxHandles]; omega)
    have hri := hall r (by rw [htake]; exact hmatched)
    rw [hrj] at hri
    exact hji (Option.some.inj hri)
  · intro hno r hr
    have hiff : ∀ r ∈ chain, (r ∈ matched chain i ↔ r.markOf = some i) := by
      intro r hr
      rw [mem_matched]
      constructor
      · intro hmatched
        obtain ⟨-, j, hj, hpre⟩ := hmatched
        by_contra hne
        have hji : j ≠ i := fun heq => hne (heq ▸ hj)
        exact hno j (List.mem_filterMap.mpr ⟨r, hr, hj⟩) hji hpre
      · exact fun h => ⟨hr, i, h, List.prefix_rfl⟩
    have hlen : (matched chain i).length ≤ 1 := by
      apply length_le_one_of_eq hnd
      intro a ha b hb
      have ha' := (mem_matched.mp ha).1
      have hb' := (mem_matched.mp hb).1
      exact mark_unique hin ha' hb' ((hiff a ha').mp ha) ((hiff b hb').mp hb)
    rw [List.take_of_length_le (by rw [maxHandles]; omega)]
    exact hiff r hr

/-- Marks 1 and 12. -/
def twoMarks : List NftRule := [.other 2 (lit "\t\tudp dport 53 # handle 2\n"), .mark 5 1, .mark 6 12]

def printedMark (id : Nat) : CStr :=
  lit "socket cgroupv2 level 2 \"proxiflare/rule_" ++ decimal id ++
    lit "\" meta l4proto tcp meta mark set 0x00000001"

theorem printedMark_plain : PrintsPlainly printedMark := by
  refine ⟨fun id => ?_, fun id hin => ?_⟩
  · simp [printedMark, lit, not_mem_decimal (c := 35) (by decide) id]
  · have hsplit : printedMark id = lit "socket cgroupv2 level 2 \"proxiflare" ++ 47 ::
        ((lit "rule_" ++ decimal id) ++
          34 :: lit " meta l4proto tcp meta mark set 0x00000001") := by
      simp [printedMark, lit]
    rw [hsplit, infix_append_sep_iff (by decide), infix_append_sep_iff (by decide)] at hin
    rcases hin with hin | hin | hin
    · exact absurd hin (by decide)
    · have hmem : (112 : UInt8) ∈ lit "rule_" ++ decimal id := hin.subset (by decide)
      simp [lit, not_mem_decimal (c := 112) (by decide) id] at hmem
    · exact absurd hin (by decide)

theorem twoMarks_installed : Installed twoMarks := by
  refine ⟨by decide, by decide, by decide, fun h line hmem => ?_⟩
  simp only [twoMarks, List.mem_cons, NftRule.other.injEq, List.not_mem_nil, or_false,
    reduceCtorEq] at hmem
  rw [hmem.2]
  decide

theorem removal_exact_iff_twoMarks :
    ExactRemoval printedMark twoMarks 1 ↔
      ∀ j ∈ twoMarks.filterMap NftRule.markOf, j ≠ 1 → ¬ decimal 1 <+: decimal j :=
  removal_exact_iff_no_extension printedMark_plain twoMarks_installed 1

/-- Removing mark 1 also removes mark 12. -/
theorem removing_one_removes_twelve :
    PrintsPlainly printedMark ∧ Installed twoMarks ∧ ¬ ExactRemoval printedMark twoMarks 1 := by
  refine ⟨printedMark_plain, twoMarks_installed, fun hexact => ?_⟩
  have hiff := (exactRemoval_iff printedMark_plain twoMarks_installed).mp hexact (.mark 6 12)
    (by decide)
  exact absurd (hiff.mp (by decide)) (by decide)

end Proxiflare.Guarantees.MarkRemoval
