import Mathlib.Data.List.Nodup

/-!
# Tables of accumulators

A table has one entry a key, in the order in which the keys came up. It is searched from its
beginning; a key that has no entry is given the next place.
-/

namespace Lib.Tally

variable {κ ε : Type*} [DecidableEq κ] {ks : List κ} {k : κ}

/-- The keys that came up, with one more. -/
def addKey (ks : List κ) (k : κ) : List κ := if k ∈ ks then ks else ks ++ [k]

theorem mem_addKey {x : κ} : x ∈ addKey ks k ↔ x ∈ ks ∨ x = k := by
  rw [addKey]
  by_cases hk : k ∈ ks
  · rw [if_pos hk]
    refine ⟨.inl, fun h => h.elim id fun hx => ?_⟩
    rw [hx]
    exact hk
  · rw [if_neg hk, List.mem_append, List.mem_singleton]

theorem nodup_addKey (h : ks.Nodup) : (addKey ks k).Nodup := by
  rw [addKey]
  by_cases hk : k ∈ ks
  · rwa [if_pos hk]
  · rw [if_neg hk]
    exact List.nodup_append.mpr ⟨h, List.nodup_singleton k, fun x hx y hy hxy =>
      hk (List.mem_singleton.mp hy ▸ hxy ▸ hx)⟩

theorem length_le_addKey : ks.length ≤ (addKey ks k).length := by
  rw [addKey]
  by_cases hk : k ∈ ks
  · exact Nat.le_of_eq (congrArg List.length (if_pos hk)).symm
  · rw [if_neg hk, List.length_append]
    exact Nat.le_add_right _ _

variable {key : ε → κ} {g : κ → ε} (hkey : ∀ x, key (g x) = x)
include hkey

theorem findIdx?_eq_none_iff :
    (ks.map g).findIdx? (fun e => decide (key e = k)) = none ↔ k ∉ ks := by
  rw [List.findIdx?_eq_none_iff]
  simp only [List.mem_map, forall_exists_index, and_imp, forall_apply_eq_imp_iff₂, hkey,
    decide_eq_false_iff_not]
  exact ⟨fun h hk => h k hk rfl, fun h x hx hxk => h (hxk ▸ hx)⟩

/-- Changing the entry that the search finds changes the entry of the key and no other. -/
theorem modify_found (hnodup : ks.Nodup) {i : Nat} (f : ε → ε)
    (hfound : (ks.map g).findIdx? (fun e => decide (key e = k)) = some i) :
    (ks.map g).modify i f = ks.map fun x => if x = k then f (g x) else g x := by
  induction ks generalizing i with
  | nil => cases hfound
  | cons x ks ih =>
    rw [List.map_cons, List.findIdx?_cons, hkey] at hfound
    obtain ⟨hx, hnodup⟩ := List.nodup_cons.mp hnodup
    by_cases hxk : x = k
    · rw [hxk, decide_eq_true rfl, if_pos rfl] at hfound
      obtain rfl := Option.some.inj hfound
      rw [List.map_cons, List.map_cons, List.modify_zero_cons, if_pos hxk]
      have hothers : ∀ y ∈ ks, (if y = k then f (g y) else g y) = g y :=
        fun y hy => if_neg fun hyk : y = k => hx (by rwa [hxk, ← hyk])
      rw [List.map_congr_left hothers]
    · rw [decide_eq_false hxk, if_neg Bool.false_ne_true, Option.map_eq_some_iff] at hfound
      obtain ⟨j, hj, rfl⟩ := hfound
      rw [List.map_cons, List.map_cons, List.modify_succ_cons, if_neg hxk, ih hnodup hj]

end Lib.Tally
