import Mathlib.Data.List.Nodup

/-!
# Rows under a growing key

A list of rows in which no key occurs twice and none exceeds a counter: a table with an
automatic rowid. A new row takes the number after the counter. Rows that are sorted by where their
keys stand in a list come in the order of that list.
-/

namespace Lib

variable {α : Type*}

/-- A change in place changes nothing exactly when it changes no row. -/
theorem map_eq_self_iff {f : α → α} {rows : List α} :
    rows.map f = rows ↔ ∀ r ∈ rows, f r = r := by
  conv_lhs => rhs; rw [← List.map_id rows]
  exact List.map_inj_left

structure Keyed (key : α → Nat) (seq : Nat) (rows : List α) : Prop where
  nodup : (rows.map key).Nodup
  le : ∀ r ∈ rows, key r ≤ seq

namespace Keyed

variable {key : α → Nat} {seq : Nat} {rows : List α} {r r' : α}

theorem nil (key : α → Nat) (seq : Nat) : Keyed key seq [] :=
  ⟨List.nodup_nil, List.forall_mem_nil _⟩

/-- The row under the next number. -/
theorem insert (h : Keyed key seq rows) (hr : key r = seq + 1) :
    Keyed key (seq + 1) (rows ++ [r]) := by
  have hnew : key r ∉ rows.map key := by
    intro hmem
    obtain ⟨old, hold, heq⟩ := List.mem_map.mp hmem
    have hle := h.le old hold
    omega
  refine ⟨?_, ?_⟩
  · rw [List.map_append, List.nodup_append']
    exact ⟨h.nodup, List.nodup_singleton _, List.disjoint_singleton.mpr hnew⟩
  · intro x hx
    rcases List.mem_append.mp hx with hx | hx
    · exact Nat.le_succ_of_le (h.le x hx)
    · rw [List.mem_singleton.mp hx]
      exact Nat.le_of_eq hr

/-- Rows changed in place keep their keys. -/
theorem map (h : Keyed key seq rows) {f : α → α} (hf : ∀ r, key (f r) = key r) :
    Keyed key seq (rows.map f) := by
  refine ⟨?_, ?_⟩
  · rw [List.map_map, show key ∘ f = key from funext hf]
    exact h.nodup
  · intro x hx
    obtain ⟨r, hr, rfl⟩ := List.mem_map.mp hx
    rw [hf]
    exact h.le r hr

theorem filter (h : Keyed key seq rows) (p : α → Bool) : Keyed key seq (rows.filter p) :=
  ⟨h.nodup.sublist (List.filter_sublist.map _), fun r hr => h.le r (List.mem_of_mem_filter hr)⟩

theorem eq_of_key (h : Keyed key seq rows) (hr : r ∈ rows) (hr' : r' ∈ rows)
    (heq : key r = key r') : r = r' :=
  List.inj_on_of_nodup_map h.nodup hr hr' heq

/-- A row is what a search for its key finds. -/
theorem find? (h : Keyed key seq rows) (hr : r ∈ rows) {p : α → Bool}
    (hp : ∀ x, p x = true ↔ key x = key r) : rows.find? p = some r := by
  cases hfind : rows.find? p with
  | none => exact absurd ((hp r).mpr rfl) (List.find?_eq_none.mp hfind r hr)
  | some x =>
    have hx := (hp x).mp (List.find?_some hfind)
    rw [h.eq_of_key (List.mem_of_find?_eq_some hfind) hr hx]

end Keyed

/-! ## Rows in a listed order -/

section Order

variable {ι : Type*} [DecidableEq ι] {order : List ι} {key : α → ι} {rank : α → Int} {rows : List α}

theorem pairwise_idxOf (h : order.Nodup) :
    order.Pairwise fun i j => order.idxOf i ≤ order.idxOf j := by
  rw [List.pairwise_iff_getElem]
  intro i j hi hj hlt
  rw [List.Nodup.idxOf_getElem h, List.Nodup.idxOf_getElem h]
  exact Nat.le_of_lt hlt

/-- Rows of other keys may stand anywhere between those that are listed. -/
theorem filter_listed_eq (horder : order.Nodup) (hkeys : (rows.map key).Nodup)
    (hmem : ∀ i ∈ order, i ∈ rows.map key) (hsorted : rows.Pairwise fun a b => rank a ≤ rank b)
    (hrank : ∀ a ∈ rows, key a ∈ order → rank a = order.idxOf (key a)) :
    (rows.map key).filter (· ∈ order) = order := by
  have hplaces : ((rows.map key).filter (· ∈ order)).Pairwise
      fun i j => order.idxOf i ≤ order.idxOf j := by
    rw [List.pairwise_filter, List.pairwise_map]
    refine hsorted.imp_of_mem fun {a b} ha hb hle hia hib => ?_
    have hplace := hrank a ha (of_decide_eq_true hia)
    have hplace' := hrank b hb (of_decide_eq_true hib)
    omega
  have hperm : ((rows.map key).filter (· ∈ order)).Perm order := by
    refine (List.perm_ext_iff_of_nodup (hkeys.filter _) horder).mpr fun i => ?_
    rw [List.mem_filter, decide_eq_true_iff, and_iff_right_of_imp (hmem i)]
  refine List.Perm.eq_of_pairwise (fun i j hi _ hle hge => ?_) hplaces (pairwise_idxOf horder) hperm
  exact (List.idxOf_inj (hperm.mem_iff.mp hi)).mp (Nat.le_antisymm hle hge)

end Order

/-! ## The first rows of a sorted list -/

/-- For a row that ties with no other. -/
theorem mem_take_sorted_iff {le : α → α → Prop} [DecidableRel le] {rows : List α} {r : α} {n : Nat}
    (hsorted : rows.Pairwise le) (hr : r ∈ rows) (hrefl : le r r)
    (hties : ∀ x ∈ rows, le x r → le r x → x = r) :
    r ∈ rows.take n ↔ rows.countP (fun x => ¬ le r x) < n := by
  obtain ⟨before, after, rfl, hfirst⟩ := List.eq_append_cons_of_mem hr
  obtain ⟨-, hrest, hacross⟩ := List.pairwise_append.mp hsorted
  have hbefore : before.countP (fun x => ¬ le r x) = before.length := by
    refine List.countP_eq_length.mpr fun x hx => decide_eq_true fun hle => ?_
    have heq := hties x (List.mem_append_left _ hx) (hacross x hx r List.mem_cons_self) hle
    exact hfirst (heq ▸ hx)
  have hafter : (r :: after).countP (fun x => ¬ le r x) = 0 := by
    refine List.countP_eq_zero.mpr fun x hx hnot => of_decide_eq_true hnot ?_
    rcases List.mem_cons.mp hx with rfl | hx
    · exact hrefl
    · exact (List.pairwise_cons.mp hrest).1 x hx
  rw [List.countP_append, hbefore, hafter, Nat.add_zero]
  constructor
  · intro hmem
    by_contra hge
    rw [List.take_append_of_le_length (Nat.le_of_not_lt hge)] at hmem
    exact hfirst (List.mem_of_mem_take hmem)
  · intro hlt
    rw [List.mem_take_iff_getElem]
    exact ⟨before.length, by rw [List.length_append, List.length_cons]; omega, by simp⟩

end Lib
