import Mathlib.Data.List.Infix

/-!
# Where a pattern occurs

The first occurrence of a pattern in a text, and how it is found in a text that grows: once
the pattern is known not to occur, a search of the longer text may start as far before the
end as the pattern is long, less one.
-/

namespace Lib.Pattern

variable {α : Type*}

/-- The pattern occurs at `i`. -/
def At (pat s : List α) (i : Nat) : Prop := pat <+: s.drop i

def First (pat s : List α) (i : Nat) : Prop := At pat s i ∧ ∀ j < i, ¬ At pat s j

variable {pat s t : List α} {i j k : Nat}

theorem At.end_le (h : At pat s i) (hne : pat ≠ []) : i + pat.length ≤ s.length := by
  have hle := List.IsPrefix.length_le h
  have hpos := List.length_pos_iff.mpr hne
  rw [List.length_drop] at hle
  omega

theorem at_drop : At pat (s.drop k) i ↔ At pat s (k + i) := by
  rw [At, At, List.drop_drop]

theorem At.append (h : At pat s i) (t : List α) : At pat (s ++ t) i := by
  rw [At, List.drop_append]
  exact h.trans (List.prefix_append _ _)

/-- An occurrence that ends within `s` is one in `s`. -/
theorem At.of_append (h : At pat (s ++ t) i) (hle : i + pat.length ≤ s.length) : At pat s i := by
  rw [At, List.drop_append_of_le_length (by omega)] at h
  exact List.prefix_of_prefix_length_le h (List.prefix_append _ _)
    (by rw [List.length_drop]; omega)

theorem At.getElem? (h : At pat s i) {m : Nat} (hm : m < pat.length) : s[i + m]? = pat[m]? := by
  obtain ⟨rest, hrest⟩ := h
  rw [← List.getElem?_drop, ← hrest, List.getElem?_append_left hm]

theorem First.unique (h : First pat s i) (h' : First pat s j) : i = j := by
  rcases Nat.lt_trichotomy i j with hlt | heq | hgt
  · exact absurd h.1 (h'.2 i hlt)
  · exact heq
  · exact absurd h'.1 (h.2 j hgt)

/-- A search that starts at `k` finds the first occurrence, if there is none before. -/
theorem first_drop (hnone : ∀ j < k, ¬ At pat s j) : First pat (s.drop k) i ↔ First pat s (k + i) := by
  rw [First, First, at_drop]
  refine and_congr_right fun _ => ⟨fun h j hj => ?_, fun h j hj => ?_⟩
  · rcases Nat.lt_or_ge j k with hlt | hge
    · exact hnone j hlt
    · have hlater := h (j - k) (by omega)
      rwa [at_drop, Nat.add_sub_cancel' hge] at hlater
  · rw [at_drop]
    exact h (k + j) (by omega)

/-- What is appended to a text without the pattern makes it occur only near the end. -/
theorem not_at_append (hnone : ∀ i, ¬ At pat s i) (hj : j + pat.length ≤ s.length) :
    ¬ At pat (s ++ t) j := fun h => hnone j (h.of_append hj)

/-- The first occurrence is found as soon as it is there. -/
theorem First.of_append (h : First pat (s ++ t) i) (hle : i + pat.length ≤ s.length) :
    First pat s i :=
  ⟨h.1.of_append hle, fun j hj hat => h.2 j hj (hat.append t)⟩

/-- Before that there is none. -/
theorem First.not_at (h : First pat (s ++ t) i) (hne : pat ≠ []) (hlt : s.length < i + pat.length) :
    ¬ At pat s j := by
  intro hat
  have hle := hat.end_le hne
  rcases Nat.lt_or_ge j i with hj | hj
  · exact h.2 j hj (hat.append t)
  · omega

theorem first_zero (h : At pat s 0) : First pat s 0 := ⟨h, fun _ hj => absurd hj (Nat.not_lt_zero _)⟩

theorem first_cons {a : α} (hne : ¬ At pat (a :: s) 0) :
    First pat (a :: s) (i + 1) ↔ First pat s i := by
  have hnone : ∀ j < 1, ¬ At pat (a :: s) j := by
    intro j hj
    obtain rfl : j = 0 := by omega
    exact hne
  rw [Nat.add_comm i 1, ← first_drop hnone]
  rfl

end Lib.Pattern
