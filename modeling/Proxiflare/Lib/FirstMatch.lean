import Mathlib.Data.List.Basic

/-!
# First matches in an ordered list

A scan that keeps the first element satisfying a predicate is `List.find?`; over
a list sorted by a relation its result is minimal among all matches.
-/

namespace Lib.FirstMatch

variable {α : Type*}

/-- One turn of a loop `if (p x && !best) best = x`. -/
def keepFirst (p : α → Bool) (best : Option α) (x : α) : Option α :=
  if p x then best.or (some x) else best

theorem foldl_keepFirst (p : α → Bool) (l : List α) (best : Option α) :
    l.foldl (keepFirst p) best = best.or (l.find? p) := by
  induction l generalizing best with
  | nil => simp
  | cons x xs ih =>
    rw [List.foldl_cons, ih, keepFirst, List.find?_cons]
    cases hx : p x <;> cases best <;> simp

/-- Two such accumulators in one loop do not disturb each other. -/
theorem foldl_pair {β γ : Type*} (f : β → α → β) (g : γ → α → γ) (l : List α) (b : β) (c : γ) :
    l.foldl (fun s x => (f s.1 x, g s.2 x)) (b, c) = (l.foldl f b, l.foldl g c) := by
  induction l generalizing b c with
  | nil => rfl
  | cons x xs ih => exact ih (f b x) (g c x)

theorem find?_minimal {r : α → α → Prop} (hrefl : ∀ a, r a a) {p : α → Bool} {l : List α} {a : α}
    (hsort : l.Pairwise r) (h : l.find? p = some a) : ∀ b ∈ l, p b → r a b := by
  induction l with
  | nil => simp at h
  | cons x xs ih =>
    obtain ⟨hx, hxs⟩ := List.pairwise_cons.mp hsort
    rw [List.find?_cons] at h
    intro b hb hpb
    cases hpx : p x with
    | true =>
      simp only [hpx, Option.some.injEq] at h
      subst h
      rcases List.mem_cons.mp hb with rfl | hb
      · exact hrefl b
      · exact hx b hb
    | false =>
      simp only [hpx] at h
      rcases List.mem_cons.mp hb with rfl | hb
      · simp [hpx] at hpb
      · exact ih hxs h b hb hpb

/-- The first match is good exactly when some good match has no bad match before it. -/
theorem find?_good_iff (p : α → Bool) (good : α → Prop) (l : List α) :
    (∃ a, l.find? p = some a ∧ good a) ↔
      ∃ pre a post, l = pre ++ a :: post ∧ p a ∧ good a ∧ ∀ x ∈ pre, p x → good x := by
  constructor
  · intro h
    obtain ⟨a, hfind, ha⟩ := h
    obtain ⟨hpa, pre, post, rfl, hpre⟩ := List.find?_eq_some_iff_append.mp hfind
    refine ⟨pre, a, post, rfl, hpa, ha, fun x hx hpx => ?_⟩
    have hnot := hpre x hx
    simp [hpx] at hnot
  · intro h
    obtain ⟨pre, a, post, rfl, hpa, ha, hpre⟩ := h
    rw [List.find?_append]
    cases hfind : pre.find? p with
    | none => exact ⟨a, by simp [hpa], ha⟩
    | some x => exact ⟨x, rfl, hpre x (List.mem_of_find?_eq_some hfind) (List.find?_some hfind)⟩

end Lib.FirstMatch
