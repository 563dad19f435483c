import Mathlib.Data.List.Range
import Mathlib.Data.Finset.Sort
import Mathlib.Order.Interval.Finset.Nat

/-!
# Following numbered items with a cursor

Items are numbered from 1. A reader remembers the number of the last item it has seen and from time
to time receives the items of a stretch that ends with the newest. Whatever lies between two
stretches is gone; the reader counts it.
-/

namespace Lib.GapFeed

structure Reader where
  cursor : Nat
  dropped : Nat
  delivered : List Nat

def Reader.start : Reader := ⟨0, 0, []⟩

/-- The items `lo + 1` to `hi` arrive. There is no gap before the first stretch. -/
def Reader.receive (r : Reader) (lo hi : Nat) : Reader where
  cursor := hi
  dropped := if r.cursor = 0 then 0 else r.dropped + (lo - r.cursor)
  delivered := r.delivered ++ List.range' (lo + 1) (hi - lo)

/-- The numbers delivered increase up to the cursor, and from the first of them on every number is
either delivered or counted. -/
structure Reader.Tallied (r : Reader) : Prop where
  increasing : r.delivered.Pairwise (· < ·)
  range : ∀ n ∈ r.delivered, 0 < n ∧ n ≤ r.cursor
  fresh : r.cursor = 0 → r.dropped = 0
  nil : r.delivered = [] → r.cursor = 0
  tally : ∀ first, r.delivered.head? = some first →
    first + r.delivered.length + r.dropped = r.cursor + 1

namespace Reader.Tallied

variable {r : Reader} {lo hi first : Nat}

theorem start : Reader.start.Tallied where
  increasing := .nil
  range n h := by cases h
  fresh _ := rfl
  nil _ := rfl
  tally first h := by cases h

/-- The cursor is zero only before anything has arrived. -/
theorem cursor_pos (h : r.Tallied) (hne : r.delivered ≠ []) : 0 < r.cursor := by
  obtain ⟨n, hn⟩ := List.exists_mem_of_ne_nil _ hne
  obtain ⟨hpos, hle⟩ := h.range n hn
  omega

theorem receive (h : r.Tallied) (hlo : r.cursor ≤ lo) (hlt : lo < hi) : (r.receive lo hi).Tallied where
  increasing := by
    refine List.pairwise_append.mpr ⟨h.increasing, List.pairwise_lt_range', fun a ha b hb => ?_⟩
    have hle := (h.range a ha).2
    have hge := (List.mem_range'_1.mp hb).1
    omega
  range n hn := by
    show 0 < n ∧ n ≤ hi
    rcases List.mem_append.mp hn with hold | hnew
    · obtain ⟨hpos, hle⟩ := h.range n hold
      omega
    · obtain ⟨hge, hlt'⟩ := List.mem_range'_1.mp hnew
      omega
  fresh hzero := by
    have hhi : hi = 0 := hzero
    omega
  nil hnil := by
    have hlen := congrArg List.length hnil
    simp only [Reader.receive, List.length_append, List.length_range', List.length_nil] at hlen
    omega
  tally first hfirst := by
    simp only [Reader.receive] at hfirst ⊢
    rw [List.length_append, List.length_range']
    cases hdel : r.delivered with
    | nil =>
      have hzero := h.nil hdel
      rw [hdel, List.nil_append, List.head?_range'] at hfirst
      rw [if_pos hzero]
      have heq : lo + 1 = first := by
        split at hfirst
        · cases hfirst
        · exact Option.some.inj hfirst
      simp only [List.length_nil]
      omega
    | cons k ks =>
      have hpos := h.cursor_pos (by rw [hdel]; exact List.cons_ne_nil k ks)
      rw [hdel] at hfirst
      have htally := h.tally first (by rw [hdel]; exact hfirst)
      rw [hdel] at htally
      rw [if_neg (by omega)]
      omega

theorem dropped_le (h : r.Tallied) : r.dropped ≤ r.cursor := by
  cases hdel : r.delivered with
  | nil =>
    rw [h.fresh (h.nil hdel)]
    exact Nat.zero_le _
  | cons first ks =>
    have htally := h.tally first (by rw [hdel]; rfl)
    have hpos := (h.range first (by rw [hdel]; exact List.mem_cons_self)).1
    omega

theorem first_le (h : r.Tallied) (hfirst : r.delivered.head? = some first) :
    ∀ n ∈ r.delivered, first ≤ n := by
  obtain ⟨ks, hdel⟩ := List.head?_eq_some_iff.mp hfirst
  have hinc := h.increasing
  rw [hdel, List.pairwise_cons] at hinc
  intro n hn
  rw [hdel] at hn
  rcases List.mem_cons.mp hn with rfl | hn
  · exact Nat.le_refl n
  · exact Nat.le_of_lt (hinc.1 n hn)

/-- What is counted is what is missing between the first item delivered and the cursor. -/
theorem card_missing (h : r.Tallied) (hfirst : r.delivered.head? = some first) :
    ((Finset.Icc first r.cursor).filter (· ∉ r.delivered)).card = r.dropped := by
  have hnodup : r.delivered.Nodup := h.increasing.imp Nat.ne_of_lt
  have hmissing : (Finset.Icc first r.cursor).filter (· ∉ r.delivered) =
      Finset.Icc first r.cursor \ r.delivered.toFinset := by
    ext n
    simp only [Finset.mem_filter, Finset.mem_sdiff, List.mem_toFinset]
  have hsub : r.delivered.toFinset ⊆ Finset.Icc first r.cursor := by
    intro n hn
    rw [List.mem_toFinset] at hn
    exact Finset.mem_Icc.mpr ⟨h.first_le hfirst n hn, (h.range n hn).2⟩
  have htally := h.tally first hfirst
  rw [hmissing, Finset.card_sdiff_of_subset hsub, Nat.card_Icc, List.toFinset_card_of_nodup hnodup]
  omega

end Reader.Tallied

end Lib.GapFeed
