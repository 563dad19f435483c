import Mathlib.Data.List.Basic
import Mathlib.Tactic.TypeStar

/-!
# Occupied slots of a table

A scan bounded by the number of occupied slots meets all of them exactly when no
free slot lies before an occupied one.
-/

namespace Lib.Occupancy

variable {α : Type*} {p : α → Bool} {l : List α}

/-- No free slot lies before an occupied one. -/
def Compact (p : α → Bool) (l : List α) : Prop :=
  ∀ (i j : Nat) (a b : α), i < j → l[i]? = some a → l[j]? = some b → p b = true → p a = true

/-- Up to an occupied slot every slot of a compact table is occupied. -/
theorem countP_take_of_compact (hc : Compact p l) {i : Nat} {a : α} (hi : l[i]? = some a)
    (ha : p a = true) : (l.take (i + 1)).countP p = i + 1 := by
  have hlt : i < l.length := (List.getElem?_eq_some_iff.mp hi).1
  have hlen : (l.take (i + 1)).length = i + 1 := by
    rw [List.length_take]
    omega
  refine (List.countP_eq_length.mpr ?_).trans hlen
  intro b hb
  obtain ⟨j, hj, rfl⟩ := List.getElem_of_mem hb
  rw [hlen] at hj
  rw [List.getElem_take]
  have hget : l[j]? = some l[j] := List.getElem?_eq_getElem (by omega)
  rcases Nat.lt_or_eq_of_le (Nat.lt_succ_iff.mp hj) with hlt' | rfl
  · exact hc j i _ a hlt' hget hi ha
  · rw [hget] at hi
    obtain rfl := Option.some.inj hi
    exact ha

/-- Every occupied slot lies among the first `countP p l` exactly when the table is compact. -/
theorem below_countP_iff :
    (∀ (i : Nat) (a : α), l[i]? = some a → p a = true → i < l.countP p) ↔ Compact p l := by
  constructor
  · intro hbelow i j a b hij hi hj hb
    -- past the first `countP p l` slots nothing is occupied, so all of these are
    have hrest : (l.drop (l.countP p)).countP p = 0 := by
      rw [List.countP_eq_zero]
      intro c hc
      obtain ⟨k, hk, rfl⟩ := List.getElem_of_mem hc
      intro hpc
      rw [List.getElem_drop] at hpc
      have hlen : l.countP p + k < l.length := by
        rw [List.length_drop] at hk
        omega
      have hlt := hbelow (l.countP p + k) _ (List.getElem?_eq_getElem hlen) hpc
      omega
    have hsplit : (l.take (l.countP p)).countP p = l.countP p := by
      have happ := congrArg (List.countP p) (List.take_append_drop (l.countP p) l)
      rw [List.countP_append, hrest] at happ
      omega
    have hfull : (l.take (l.countP p)).countP p = (l.take (l.countP p)).length := by
      have hle := List.countP_le_length (p := p) (l := l)
      rw [hsplit, List.length_take]
      omega
    have hjn := hbelow j b hj hb
    refine List.countP_eq_length.mp hfull a ?_
    refine List.mem_of_getElem? (i := i) ?_
    rw [List.getElem?_take_of_lt (by omega), hi]
  · intro hc i a hi ha
    have hcount := countP_take_of_compact hc hi ha
    have hle := (List.take_sublist (i + 1) l).countP_le (p := p)
    omega

/-- A scan for a key that only one slot has finds that slot if it lies within the bound. -/
theorem findIdx?_take_of_unique {q : α → Bool} {i n : Nat} {a : α} (hi : l[i]? = some a)
    (hq : q a = true) (huniq : ∀ (j : Nat) (b : α), l[j]? = some b → q b = true → j = i) :
    (l.take n).findIdx? q = some i ↔ i < n := by
  constructor
  · intro hfind
    obtain ⟨hlt, -⟩ := List.findIdx?_eq_some_iff_getElem.mp hfind
    rw [List.length_take] at hlt
    omega
  · intro hlt
    obtain ⟨hlen, rfl⟩ := List.getElem?_eq_some_iff.mp hi
    refine List.findIdx?_eq_some_iff_getElem.mpr ⟨by rw [List.length_take]; omega, ?_, ?_⟩
    · rwa [List.getElem_take]
    · intro j hj hqj
      rw [List.getElem_take] at hqj
      have heq := huniq j _ (List.getElem?_eq_getElem (by omega)) hqj
      omega

end Lib.Occupancy
