import Mathlib.Data.List.Nodup

/-!
# Lists that enumerate a predicate

`Enumerates l P`: every element satisfying `P` occurs once in `l`, and no other
element occurs. The rules follow the ways such a list is maintained in place.
-/

namespace Lib

variable {α β : Type*}

structure Enumerates (l : List α) (P : α → Prop) : Prop where
  nodup : l.Nodup
  mem_iff : ∀ a, a ∈ l ↔ P a

namespace Enumerates

variable {l l' : List α} {P Q : α → Prop}

theorem count [DecidableEq α] [DecidablePred P] (h : Enumerates l P) (a : α) :
    l.count a = if P a then 1 else 0 := by
  rw [h.nodup.count]
  exact if_congr (h.mem_iff a) rfl rfl

/-- A list enumerates at most one predicate. -/
theorem iff_congr (h : Enumerates l P) : Enumerates l Q ↔ ∀ a, P a ↔ Q a :=
  ⟨fun hq a => (h.mem_iff a).symm.trans (hq.mem_iff a),
    fun hpq => ⟨h.nodup, fun a => (h.mem_iff a).trans (hpq a)⟩⟩

theorem congr (h : Enumerates l P) (hpq : ∀ a, P a ↔ Q a) : Enumerates l Q := h.iff_congr.mpr hpq

theorem append (h : Enumerates l P) (h' : Enumerates l' Q) (hd : ∀ a, P a → ¬ Q a) :
    Enumerates (l ++ l') fun a => P a ∨ Q a := by
  refine ⟨List.nodup_append'.mpr ⟨h.nodup, h'.nodup, fun a ha ha' => ?_⟩, fun a => ?_⟩
  · exact hd a ((h.mem_iff a).mp ha) ((h'.mem_iff a).mp ha')
  · rw [List.mem_append, h.mem_iff, h'.mem_iff]

theorem filter (h : Enumerates l P) (p : α → Bool) : Enumerates (l.filter p) fun a => P a ∧ p a :=
  ⟨h.nodup.filter p, fun a => by rw [List.mem_filter, h.mem_iff]⟩

theorem singleton (a : α) : Enumerates [a] fun b => b = a :=
  ⟨List.nodup_singleton a, fun _ => List.mem_singleton⟩

/-- Keys of the selected records, when keys are unique. -/
theorem map_filter {r : List β} {key : β → α} (hkey : (r.map key).Nodup) (p : β → Bool) :
    Enumerates ((r.filter p).map key) fun a => ∃ b ∈ r, p b ∧ key b = a := by
  refine ⟨hkey.sublist (List.filter_sublist.map key), fun a => ?_⟩
  simp only [List.mem_map, List.mem_filter, and_assoc]

end Enumerates

end Lib
