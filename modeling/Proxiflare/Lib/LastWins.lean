import Mathlib.Data.List.Dedup
import Mathlib.Data.List.Induction

/-!
# Pairs of which the last wins

A list of key-value pairs read into a map: a key has the value it was given last. The map keeps the
list, up to its order, exactly where no key is given twice.
-/

namespace Lib.LastWins

variable {α β : Type*} [DecidableEq α] {ms ms' : List (α × β)} {k : α} {v : β}

/-- The value a key was given last. -/
def lastOf (ms : List (α × β)) (k : α) : Option β :=
  (ms.reverse.find? fun m => m.1 = k).map Prod.snd

theorem lastOf_concat_self (ms : List (α × β)) (k : α) (v : β) :
    lastOf (ms ++ [(k, v)]) k = some v := by
  rw [lastOf, List.reverse_concat, List.find?_cons_of_pos (by simp)]
  rfl

theorem lastOf_concat_of_ne {m : α × β} (h : m.1 ≠ k) :
    lastOf (ms ++ [m]) k = lastOf ms k := by
  rw [lastOf, List.reverse_concat, List.find?_cons_of_neg (by simpa using h)]
  rfl

/-- Pairs of other keys behind it change nothing. -/
theorem lastOf_append_of_ne (h : ∀ m ∈ ms', m.1 ≠ k) : lastOf (ms ++ ms') k = lastOf ms k := by
  induction ms' using List.reverseRecOn with
  | nil => rw [List.append_nil]
  | append_singleton rest m ih =>
    obtain ⟨hrest, hm⟩ := List.forall_mem_append.mp h
    rw [← List.append_assoc, lastOf_concat_of_ne (hm m (List.mem_singleton_self m)), ih hrest]

theorem mem_of_lastOf (h : lastOf ms k = some v) : (k, v) ∈ ms := by
  obtain ⟨⟨k', v'⟩, hfind, rfl⟩ := Option.map_eq_some_iff.mp h
  have hkey : k' = k := by simpa using List.find?_some hfind
  rw [← hkey]
  exact List.mem_reverse.mp (List.mem_of_find?_eq_some hfind)

/-- Where no key is given twice, every pair is the last of its key. -/
theorem lastOf_of_mem (hnodup : (ms.map Prod.fst).Nodup) (h : (k, v) ∈ ms) :
    lastOf ms k = some v := by
  obtain ⟨before, rest, rfl⟩ := List.append_of_mem h
  have hlater : ∀ m ∈ rest, m.1 ≠ k := by
    intro m hm heq
    rw [List.map_append, List.map_cons] at hnodup
    have hrest : k ∉ rest.map Prod.fst := (List.nodup_cons.mp (List.nodup_append.mp hnodup).2.1).1
    exact hrest (heq ▸ List.mem_map_of_mem (f := Prod.fst) hm)
  rw [← List.singleton_append, ← List.append_assoc, lastOf_append_of_ne hlater,
    lastOf_concat_self]

/-- The pairs of a map read from `ms`, in the order the map keeps them. -/
structure MapOf (ms pairs : List (α × β)) : Prop where
  nodup : (pairs.map Prod.fst).Nodup
  mem : ∀ k v, (k, v) ∈ pairs ↔ lastOf ms k = some v

namespace MapOf

variable {pairs : List (α × β)}

/-- A lookup in the map. -/
theorem find? (h : MapOf ms pairs) (k : α) :
    (pairs.find? fun m => m.1 = k).map Prod.snd = lastOf ms k := by
  cases hlast : lastOf ms k with
  | none =>
    rw [Option.map_eq_none_iff, List.find?_eq_none]
    rintro ⟨k', v⟩ hm hk
    obtain rfl : k' = k := by simpa using hk
    cases hlast.symm.trans ((h.mem k' v).mp hm)
  | some v =>
    have hmem := (h.mem k v).mpr hlast
    cases hfind : pairs.find? (fun m => m.1 = k) with
    | none => exact absurd hmem (fun hm => by simpa using List.find?_eq_none.mp hfind _ hm)
    | some m =>
      have hkey : m.1 = k := by simpa using List.find?_some hfind
      have hpair := (h.mem m.1 m.2).mp (List.mem_of_find?_eq_some hfind)
      rw [hkey, hlast] at hpair
      exact hpair.symm

/-- Nothing is lost exactly where no key is given twice. -/
theorem perm_iff (h : MapOf ms pairs) : pairs.Perm ms ↔ (ms.map Prod.fst).Nodup := by
  constructor
  · intro hperm
    exact (hperm.map Prod.fst).nodup_iff.mp h.nodup
  · intro hnodup
    rw [List.perm_ext_iff_of_nodup h.nodup.of_map hnodup.of_map]
    rintro ⟨k, v⟩
    rw [h.mem]
    exact ⟨mem_of_lastOf, lastOf_of_mem hnodup⟩

end MapOf

/-- Two lists of the same keys in the same order, none given twice, are equal if each has the pairs
of the other. -/
theorem eq_of_perm (hkeys : ms.map Prod.fst = ms'.map Prod.fst) (hnodup : (ms.map Prod.fst).Nodup)
    (hperm : ms.Perm ms') : ms = ms' := by
  induction ms generalizing ms' with
  | nil => exact (List.map_eq_nil_iff.mp hkeys.symm).symm
  | cons m ms ih =>
    obtain ⟨m', rest, rfl⟩ : ∃ m' rest, ms' = m' :: rest := by
      cases ms' with
      | nil => cases hkeys
      | cons m' rest => exact ⟨m', rest, rfl⟩
    obtain ⟨hkey, hrest⟩ := List.cons.inj hkeys
    have hlast := lastOf_of_mem hnodup (v := m.2) List.mem_cons_self
    have hsame : m = m' := by
      have hnodup' : ((m' :: rest).map Prod.fst).Nodup := (hperm.map Prod.fst).nodup_iff.mp hnodup
      have hmem : (m.1, m'.2) ∈ m :: ms := by
        rw [show m.1 = m'.1 from hkey]
        exact hperm.mem_iff.mpr List.mem_cons_self
      have hlast' := lastOf_of_mem hnodup hmem
      exact Prod.ext hkey (Option.some.inj (hlast.symm.trans hlast'))
    subst hsame
    rw [ih hrest (List.nodup_cons.mp hnodup).2 hperm.cons_inv]

/-- One such map: every key once, with its last value. -/
def dedupLast (ms : List (α × β)) : List (α × β) :=
  (ms.map Prod.fst).dedup.filterMap fun k => (lastOf ms k).map fun v => (k, v)

theorem mapOf_dedupLast (ms : List (α × β)) : MapOf ms (dedupLast ms) := by
  have hkeys : ∀ keys : List α,
      ((keys.filterMap fun k => (lastOf ms k).map fun v => (k, v)).map Prod.fst).Sublist keys := by
    intro keys
    induction keys with
    | nil => exact List.Sublist.slnil
    | cons k keys ih =>
      cases hlast : lastOf ms k with
      | none =>
        rw [List.filterMap_cons_none (by rw [hlast]; rfl)]
        exact ih.cons k
      | some v =>
        rw [List.filterMap_cons_some (by rw [hlast]; rfl), List.map_cons]
        exact ih.cons_cons k
  refine ⟨(List.nodup_dedup _).sublist (hkeys _), fun k v => ?_⟩
  simp only [dedupLast, List.mem_filterMap, Option.map_eq_some_iff, List.mem_dedup]
  constructor
  · rintro ⟨k', -, v', hlast, heq⟩
    obtain ⟨rfl, rfl⟩ := Prod.mk.inj heq
    exact hlast
  · exact fun hlast => ⟨k, List.mem_map_of_mem (f := Prod.fst) (mem_of_lastOf hlast), v, hlast, rfl⟩

end Lib.LastWins
