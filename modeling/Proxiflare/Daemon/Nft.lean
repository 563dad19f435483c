import Proxiflare.Lib.CString

/-!
# nftables rules found by their comment

`nft_delete_by_comment` and the cgroup marks of `daemon/src/nft.c`. The chain
`inet proxiflare output` is a list of rules; `nft -a list chain` prints one line
for each. How `nft` prints the expression of a mark rule is a parameter.
-/

namespace Proxiflare.Daemon

open Lib.CString

/-- A mark rule of `pf_nft_add_cgroup_mark`, or any other rule with the line it is printed as. -/
inductive NftRule where
  | mark (handle : Nat) (id : Nat)
  | other (handle : Nat) (line : CStr)
  deriving DecidableEq

namespace NftRule

def handle : NftRule → Nat
  | .mark h _ => h
  | .other h _ => h

/-- The rule id a mark belongs to. -/
def markOf : NftRule → Option Nat
  | .mark _ id => some id
  | .other _ _ => none

end NftRule

/-- The comment `pf_cgroup_%d`. -/
def cgroupComment (id : Nat) : CStr := lit "pf_cgroup_" ++ decimal id

/-- The rule lands at the end of the chain under the handle the kernel gives it. -/
def pfNftAddCgroupMark (chain : List NftRule) (handle id : Nat) : List NftRule :=
  chain ++ [.mark handle id]

/-- One line of `nft -a list chain`: expression, quoted comment, handle. -/
def listLine (printed : Nat → CStr) : NftRule → CStr
  | .mark h id =>
    lit "\t\t" ++ printed id ++ lit " comment \"" ++ cgroupComment id ++ lit "\" # handle " ++
      decimal h ++ lit "\n"
  | .other _ line => line

/-- The handle of a listed rule whose line contains the comment. -/
def handleOf (comment line : CStr) : Option Int :=
  if (strstr line comment).isSome then
    match strstr line (lit "# handle ") with
    | none => none
    | some hstr => if atoi (hstr.drop 9) ≤ 0 then none else some (atoi (hstr.drop 9))
  else none

def maxHandles : Nat := 256

/-- The handles passed to `delete rule`, last one first. A line is one `fgets`: listed rules are
shorter than its 1024-byte buffer. -/
def nftDeleteByComment (lines : List CStr) (comment : CStr) : List Int :=
  ((lines.filterMap (handleOf comment)).take maxHandles).reverse

/-- The chain after every `delete rule` succeeded. -/
def pfNftRemoveCgroupMark (printed : Nat → CStr) (chain : List NftRule) (id : Nat) :
    List NftRule :=
  let deleted := nftDeleteByComment (chain.map (listLine printed)) (cgroupComment id)
  chain.filter fun r => (r.handle : Int) ∉ deleted

/-! ## The comment in a line -/

theorem not_mem_decimal {c : UInt8} (hc : isDigit c = false) (n : Nat) : c ∉ decimal n := by
  intro h
  rw [isDigit_of_mem_decimal h] at hc
  cases hc

theorem not_mem_cgroupComment {c : UInt8} (hc : isDigit c = false) (hp : c ∉ lit "pf_cgroup_")
    (id : Nat) : c ∉ cgroupComment id := by
  intro h
  rcases List.mem_append.mp h with h | h
  · exact hp h
  · exact not_mem_decimal hc id h

/-- Among comments, one is found in another when its number is a prefix of the other's. -/
theorem cgroupComment_infix_iff (i j : Nat) :
    cgroupComment i <:+: cgroupComment j ↔ decimal i <+: decimal j := by
  have hdigits : ¬ cgroupComment i <:+: decimal j := by
    intro h
    have hmem : (95 : UInt8) ∈ decimal j := h.subset (by simp [cgroupComment, lit])
    exact not_mem_decimal (by decide) j hmem
  constructor
  · intro h
    have hcases : decimal i <+: decimal j ∨ cgroupComment i <:+: decimal j := by
      simpa [cgroupComment, lit, List.infix_cons_iff] using h
    exact hcases.resolve_right hdigits
  · intro h
    exact ((List.prefix_append_right_inj _).mpr h).isInfix

/-- `nft` prints no `#` and no mark comment inside an expression. -/
structure PrintsPlainly (printed : Nat → CStr) : Prop where
  noHash : ∀ id, (35 : UInt8) ∉ printed id
  noComment : ∀ id, ¬ lit "pf_cgroup_" <:+: printed id

theorem listLine_mark (printed : Nat → CStr) (h id : Nat) :
    listLine printed (.mark h id) =
      (9 :: 9 :: printed id ++ 32 :: (lit "comment" ++ [32])) ++
        34 :: (cgroupComment id ++ 34 :: 32 :: 35 :: (lit " handle " ++ decimal h ++ lit "\n")) := by
  simp [listLine, lit]

/-- The comment of `i` occurs in the line of `j`'s mark when it occurs in `j`'s comment. -/
theorem comment_in_mark_iff {printed : Nat → CStr} (hp : PrintsPlainly printed) (i h j : Nat) :
    cgroupComment i <:+: listLine printed (.mark h j) ↔ decimal i <+: decimal j := by
  have hsep : ∀ c, isDigit c = false → c ∉ lit "pf_cgroup_" → c ∉ cgroupComment i :=
    fun c hd hl => not_mem_cgroupComment hd hl i
  have hstem : ∀ s, cgroupComment i <:+: s → lit "pf_cgroup_" <:+: s :=
    fun s hs => (List.prefix_append _ _).isInfix.trans hs
  have hexpr : ¬ cgroupComment i <:+: 9 :: 9 :: printed j := by
    intro hin
    have hcases := (infix_append_sep_iff (a := [9]) (hsep 9 (by decide) (by decide))).mp hin
    rcases hcases with hin | hin
    · exact absurd (hstem _ hin) (by decide)
    · exact hp.noComment j (hstem _ hin)
  have hword : ¬ cgroupComment i <:+: lit "comment" ++ [32] := fun hin =>
    absurd (hstem _ hin) (by decide)
  have htail : ¬ cgroupComment i <:+: 32 :: 35 :: (lit " handle " ++ decimal h ++ lit "\n") := by
    intro hin
    have hmem : (112 : UInt8) ∈ 32 :: 35 :: (lit " handle " ++ decimal h ++ lit "\n") :=
      hin.subset (by simp [cgroupComment, lit])
    simp [lit, not_mem_decimal (c := 112) (by decide) h] at hmem
  rw [listLine_mark, infix_append_sep_iff (hsep 34 (by decide) (by decide)),
    infix_append_sep_iff (hsep 34 (by decide) (by decide)),
    infix_append_sep_iff (hsep 32 (by decide) (by decide)), cgroupComment_infix_iff]
  simp only [hexpr, hword, htail, false_or, or_false]

/-- The handle of a mark rule is read back from its line. -/
theorem strstr_handle_mark {printed : Nat → CStr} (hp : PrintsPlainly printed) {h : Nat}
    (hmax : h < 2 ^ 31) (id : Nat) :
    ∃ hstr, strstr (listLine printed (.mark h id)) (lit "# handle ") = some hstr ∧
      atoi (hstr.drop 9) = h := by
  have hpre : (35 : UInt8) ∉ (9 :: 9 :: printed id ++ 32 :: (lit "comment" ++ [32])) ++
      34 :: (cgroupComment id ++ [34, 32]) := by
    have hcom := not_mem_cgroupComment (c := 35) (by decide) (by decide) id
    simp [lit, hp.noHash id, hcom]
  have hline : listLine printed (.mark h id) =
      ((9 :: 9 :: printed id ++ 32 :: (lit "comment" ++ [32])) ++
        34 :: (cgroupComment id ++ [34, 32])) ++ 35 :: lit " handle " ++
          (decimal h ++ lit "\n") := by
    rw [listLine_mark]
    simp
  refine ⟨35 :: lit " handle " ++ (decimal h ++ lit "\n"), ?_, ?_⟩
  · rw [hline]
    exact strstr_append_of_head hpre
  · exact atoi_decimal hmax (by decide) []

/-- What the listing yields for a mark rule. -/
theorem handleOf_mark {printed : Nat → CStr} (hp : PrintsPlainly printed) {h : Nat} (hpos : 0 < h)
    (hmax : h < 2 ^ 31) (i id : Nat) :
    handleOf (cgroupComment i) (listLine printed (.mark h id)) =
      if decimal i <+: decimal id then some (h : Int) else none := by
  obtain ⟨hstr, hfound, hval⟩ := strstr_handle_mark hp hmax id
  simp only [handleOf, strstr_isSome_iff, comment_in_mark_iff hp, hfound, hval]
  split
  · rw [if_neg (by omega)]
  · rfl

end Proxiflare.Daemon
