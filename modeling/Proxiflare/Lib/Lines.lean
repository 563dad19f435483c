import Mathlib.Data.List.Basic
import Mathlib.Tactic.TypeStar

/-!
# Splitting a stream at a separator

`splitFrom sep cur s` reads `s` after an unterminated piece `cur`: the terminated
pieces, and the unterminated one at the end. Reading a stream in parts, each part
after what the one before left, gives the pieces of the whole.
-/

namespace Lib.Lines

variable {α : Type*} [DecidableEq α] (sep : α)

def splitFrom (cur : List α) : List α → List (List α) × List α
  | [] => ([], cur)
  | a :: s =>
    if a = sep then (cur :: (splitFrom [] s).1, (splitFrom [] s).2) else splitFrom (cur ++ [a]) s

/-- The terminated pieces, without their separators. -/
def lines (s : List α) : List (List α) := (splitFrom sep [] s).1

/-- What follows the last separator. -/
def unfinished (s : List α) : List α := (splitFrom sep [] s).2

variable {sep} {cur s t : List α}

theorem splitFrom_append (cur s t : List α) :
    splitFrom sep cur (s ++ t) =
      ((splitFrom sep cur s).1 ++ (splitFrom sep (splitFrom sep cur s).2 t).1,
        (splitFrom sep (splitFrom sep cur s).2 t).2) := by
  induction s generalizing cur with
  | nil => rfl
  | cons a s ih =>
    simp only [List.cons_append, splitFrom]
    split
    · rw [ih]
      rfl
    · exact ih _

/-- A separator-free beginning is part of the first piece. -/
theorem splitFrom_of_notMem (cur : List α) (h : sep ∉ s) :
    splitFrom sep cur s = ([], cur ++ s) := by
  induction s generalizing cur with
  | nil => simp [splitFrom]
  | cons a s ih =>
    rw [List.mem_cons, not_or] at h
    rw [splitFrom, if_neg (Ne.symm h.1), ih _ h.2, List.append_assoc]
    rfl

theorem splitFrom_notMem (hcur : sep ∉ cur) (s : List α) : sep ∉ (splitFrom sep cur s).2 := by
  induction s generalizing cur with
  | nil => exact hcur
  | cons a s ih =>
    rw [splitFrom]
    split
    · exact ih (List.not_mem_nil)
    · next ha =>
      refine ih ?_
      simp [hcur, Ne.symm ha]

theorem unfinished_notMem (s : List α) : sep ∉ unfinished sep s :=
  splitFrom_notMem List.not_mem_nil s

/-- What was left over is read again in front of the next part. -/
theorem splitFrom_unfinished (h : sep ∉ cur) (t : List α) :
    splitFrom sep cur t = splitFrom sep [] (cur ++ t) := by
  rw [splitFrom_append, splitFrom_of_notMem [] h]
  rfl

theorem lines_append (s t : List α) :
    lines sep (s ++ t) = lines sep s ++ lines sep (unfinished sep s ++ t) := by
  have hnot : sep ∉ unfinished sep s := unfinished_notMem s
  have hrest := splitFrom_unfinished hnot t
  rw [lines, splitFrom_append]
  show _ ++ (splitFrom sep (unfinished sep s) t).1 = _
  rw [hrest]
  rfl

theorem unfinished_append (s t : List α) :
    unfinished sep (s ++ t) = unfinished sep (unfinished sep s ++ t) := by
  have hnot : sep ∉ unfinished sep s := unfinished_notMem s
  have hrest := splitFrom_unfinished hnot t
  rw [unfinished, splitFrom_append]
  show (splitFrom sep (unfinished sep s) t).2 = _
  rw [hrest]
  rfl

/-- The first line of a text is what stands before its first separator. -/
theorem lines_cons (h : sep ∉ s) (t : List α) :
    lines sep (s ++ sep :: t) = s :: lines sep t ∧
      unfinished sep (s ++ sep :: t) = unfinished sep t := by
  unfold lines unfinished
  rw [splitFrom_append, splitFrom_of_notMem [] h]
  simp [splitFrom]

theorem lines_of_notMem (h : sep ∉ s) : lines sep s = [] ∧ unfinished sep s = s := by
  unfold lines unfinished
  rw [splitFrom_of_notMem [] h]
  exact ⟨rfl, rfl⟩

/-- The first terminated piece continues the unterminated one. -/
theorem splitFrom_head (cur s : List α) {l : List α} (h : (splitFrom sep cur s).1.head? = some l) :
    cur <+: l := by
  induction s generalizing cur with
  | nil => cases h
  | cons a s ih =>
    rw [splitFrom] at h
    split at h
    · obtain rfl := Option.some.inj h
      exact List.prefix_rfl
    · exact (List.prefix_append cur [a]).trans (ih _ h)

theorem splitFrom_length (cur s : List α) :
    (∀ l ∈ (splitFrom sep cur s).1, l.length < cur.length + s.length) ∧
      (splitFrom sep cur s).2.length ≤ cur.length + s.length := by
  induction s generalizing cur with
  | nil => simp [splitFrom]
  | cons a s ih =>
    rw [splitFrom]
    split
    · obtain ⟨hlines, hrest⟩ := ih []
      simp only [List.length_nil, List.length_cons, List.mem_cons] at hlines hrest ⊢
      refine ⟨?_, by omega⟩
      intro l hl
      rcases hl with rfl | hl
      · omega
      · have hlt := hlines l hl
        omega
    · obtain ⟨hlines, hrest⟩ := ih (cur ++ [a])
      simp only [List.length_append, List.length_cons, List.length_nil] at hlines hrest ⊢
      refine ⟨fun l hl => ?_, by omega⟩
      have hlt := hlines l hl
      omega

/-- A line is shorter than the text, by its separator at least. -/
theorem length_lt_of_mem_lines {l : List α} (h : l ∈ lines sep s) : l.length < s.length := by
  have hlt := (splitFrom_length [] s).1 l h
  rwa [List.length_nil, Nat.zero_add] at hlt

theorem length_unfinished_le (s : List α) : (unfinished sep s).length ≤ s.length := by
  have hle : (splitFrom sep [] s).2.length ≤ List.length [] + s.length := (splitFrom_length [] s).2
  rwa [List.length_nil, Nat.zero_add] at hle

/-- The first line of a text that starts without a separator is at least that long. -/
theorem length_le_of_head_lines (hs : sep ∉ s) {l : List α}
    (h : (lines sep (s ++ t)).head? = some l) : s.length ≤ l.length := by
  rw [lines, ← splitFrom_unfinished hs] at h
  exact (splitFrom_head s t h).length_le

omit [DecidableEq α] in
/-- A terminated piece holds its separator at its end only. -/
theorem nothing_after_terminator {rest : List α} (h : sep ∉ s)
    (hp : t ++ sep :: rest <+: s ++ [sep]) : rest = [] := by
  obtain ⟨more, hmore⟩ := hp
  have hlen : s.length ≤ t.length := by
    by_contra hlt
    have hget : (s ++ [sep])[t.length]? = some sep := by
      rw [← hmore, List.append_assoc, List.getElem?_append_right (Nat.le_refl _)]
      simp
    rw [List.getElem?_append_left (by omega)] at hget
    exact h (List.mem_of_getElem? hget)
  have htotal := congrArg List.length hmore
  simp only [List.length_append, List.length_cons, List.length_nil] at htotal
  exact List.length_eq_zero_iff.mp (by omega)

end Lib.Lines
