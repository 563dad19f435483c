import Mathlib.Data.List.Basic
import Mathlib.Tactic.TypeStar

/-!
# Open addressing

A table of slots, and for each key the slots it may be kept in, in the order they are
tried. A search ends at the first empty slot. As long as no slot is ever emptied and a
key is written only where the search for it got to, every key kept is found.
-/

namespace Lib.ProbeTable

variable {ε κ : Type*}

/-- An index outside the table counts as empty. -/
def slot (slots : List (Option ε)) (i : Nat) : Option ε := slots[i]?.join

def Occupied (slots : List (Option ε)) (i : Nat) : Prop := (slot slots i).isSome = true

def used (slots : List (Option ε)) : Nat := slots.countP Option.isSome

/-- The key of an entry, and the slots tried for a key. -/
structure Layout (ε κ : Type*) where
  key : ε → κ
  probes : κ → List Nat

namespace Layout

variable (v : Layout ε κ) {k : κ} {slots : List (Option ε)} {i : Nat} {e : ε}

/-- Where a search for `k` gets to unless it is over before. -/
def Open (k : κ) (slots : List (Option ε)) (i : Nat) : Prop :=
  ∃ pre post, v.probes k = pre ++ i :: post ∧ ∀ j ∈ pre, Occupied slots j

structure Sound (slots : List (Option ε)) : Prop where
  isOpen : ∀ i e, slot slots i = some e → v.Open (v.key e) slots i
  unique : ∀ i j e e', slot slots i = some e → slot slots j = some e' → v.key e = v.key e' → i = j

variable [DecidableEq κ]

def search (k : κ) (slots : List (Option ε)) : List Nat → Option (Nat × ε)
  | [] => none
  | i :: is => match slot slots i with
    | none => none
    | some e => if v.key e = k then some (i, e) else search k slots is

def find (k : κ) (slots : List (Option ε)) : Option (Nat × ε) := v.search k slots (v.probes k)

end Layout

/-! ## Writing a slot -/

variable {slots : List (Option ε)} {i j : Nat} {e o : ε}

theorem lt_of_slot (h : slot slots i = some o) : i < slots.length := by
  by_cases hi : i < slots.length
  · exact hi
  · have hnone : slot slots i = none := by
      unfold slot
      rw [List.getElem?_eq_none (by omega)]
      rfl
    rw [hnone] at h
    cases h

theorem slot_set_self (hi : i < slots.length) : slot (slots.set i (some e)) i = some e := by
  unfold slot
  rw [List.getElem?_set_self hi]
  rfl

theorem slot_set_of_ne (h : i ≠ j) : slot (slots.set i (some e)) j = slot slots j := by
  unfold slot
  rw [List.getElem?_set_ne h]

/-- No write empties a slot. -/
theorem Occupied.set (h : Occupied slots j) : Occupied (slots.set i (some e)) j := by
  by_cases hij : i = j
  · subst hij
    obtain ⟨o, ho⟩ := Option.isSome_iff_exists.mp h
    unfold Occupied
    rw [slot_set_self (lt_of_slot ho)]
    rfl
  · unfold Occupied
    rw [slot_set_of_ne hij]
    exact h

theorem getElem_of_slot (hi : i < slots.length) : slots[i] = slot slots i := by
  unfold slot
  rw [List.getElem?_eq_getElem hi]
  rfl

/-- Writing an empty slot adds one used slot. -/
theorem used_set_empty (hi : i < slots.length) (h : slot slots i = none) :
    used (slots.set i (some e)) = used slots + 1 := by
  unfold used
  rw [List.countP_set hi, getElem_of_slot hi, h]
  simp

/-- Overwriting a slot adds none. -/
theorem used_set_occupied (h : slot slots i = some o) :
    used (slots.set i (some e)) = used slots := by
  have hi := lt_of_slot h
  have hpos : 0 < used slots := by
    refine List.countP_pos_iff.mpr ⟨slots[i], List.getElem_mem hi, ?_⟩
    rw [getElem_of_slot hi, h]
    rfl
  unfold used at hpos ⊢
  rw [List.countP_set hi, getElem_of_slot hi, h]
  simp only [Option.isSome_some, if_true]
  omega

/-! ## Searches and sound tables -/

namespace Layout

variable {v : Layout ε κ} {k : κ}

theorem Open.set (h : v.Open k slots j) : v.Open k (slots.set i (some e)) j := by
  obtain ⟨pre, post, heq, hocc⟩ := h
  exact ⟨pre, post, heq, fun l hl => (hocc l hl).set⟩

theorem sound_nil_slots (h : ∀ i, slot slots i = none) : v.Sound slots where
  isOpen i e hi := by
    rw [h i] at hi
    cases hi
  unique i j e e' hi := by
    rw [h i] at hi
    cases hi

/-- A key may be written where its search gets to, if no other slot has it. -/
theorem Sound.set (hs : v.Sound slots) (hi : i < slots.length) (hopen : v.Open (v.key e) slots i)
    (hfree : ∀ j o, slot slots j = some o → v.key o = v.key e → j = i) :
    v.Sound (slots.set i (some e)) where
  isOpen j o hj := by
    by_cases hij : i = j
    · subst hij
      rw [slot_set_self hi] at hj
      obtain rfl := Option.some.inj hj
      exact hopen.set
    · rw [slot_set_of_ne hij] at hj
      exact (hs.isOpen j o hj).set
  unique j l o o' hj hl hkey := by
    by_cases hij : i = j
    · by_cases hil : i = l
      · omega
      · subst hij
        rw [slot_set_self hi] at hj
        rw [slot_set_of_ne hil] at hl
        obtain rfl := Option.some.inj hj
        exact (hfree l o' hl hkey.symm).symm
    · rw [slot_set_of_ne hij] at hj
      by_cases hil : i = l
      · subst hil
        rw [slot_set_self hi] at hl
        obtain rfl := Option.some.inj hl
        exact hfree j o hj hkey
      · rw [slot_set_of_ne hil] at hl
        exact hs.unique j l o o' hj hl hkey

/-- An entry rewritten under its own key keeps the table sound. -/
theorem Sound.rewrite (hs : v.Sound slots) (hi : slot slots i = some o) (hkey : v.key e = v.key o) :
    v.Sound (slots.set i (some e)) := by
  refine hs.set (lt_of_slot hi) ?_ fun j o' hj ho' => hs.unique j i o' o hj hi (ho'.trans hkey)
  rw [hkey]
  exact hs.isOpen i o hi

variable [DecidableEq κ]

/-- What a search returns is a slot it got to, with the key. -/
theorem search_some {is : List Nat} (h : v.search k slots is = some (i, e)) :
    slot slots i = some e ∧ v.key e = k := by
  induction is with
  | nil => cases h
  | cons j js ih =>
    unfold search at h
    cases hslot : slot slots j with
    | none =>
      rw [hslot] at h
      cases h
    | some o =>
      rw [hslot] at h
      by_cases hkey : v.key o = k
      · obtain ⟨rfl, rfl⟩ := Prod.mk.inj (Option.some.inj ((if_pos hkey).symm.trans h))
        exact ⟨hslot, hkey⟩
      · exact ih ((if_neg hkey).symm.trans h)

/-- A search does not end without a result before a slot it gets to that has the key. -/
theorem search_isSome {pre post : List Nat} (hocc : ∀ j ∈ pre, Occupied slots j)
    (hi : slot slots i = some e) (hkey : v.key e = k) :
    (v.search k slots (pre ++ i :: post)).isSome = true := by
  induction pre with
  | nil =>
    rw [List.nil_append]
    unfold search
    rw [hi]
    simp [hkey]
  | cons j js ih =>
    obtain ⟨o, ho⟩ := Option.isSome_iff_exists.mp (hocc j (by simp))
    rw [List.cons_append]
    unfold search
    rw [ho]
    by_cases hko : v.key o = k
    · simp [hko]
    · simp only [hko, if_false]
      exact ih fun l hl => hocc l (List.mem_cons_of_mem j hl)

theorem find_some (h : v.find k slots = some (i, e)) : slot slots i = some e ∧ v.key e = k :=
  search_some h

/-- In a sound table every entry is found in its slot. -/
theorem Sound.find (hs : v.Sound slots) (hi : slot slots i = some e) :
    v.find (v.key e) slots = some (i, e) := by
  obtain ⟨pre, post, hprobes, hocc⟩ := hs.isOpen i e hi
  have hfound : (v.find (v.key e) slots).isSome = true := by
    unfold Layout.find
    rw [hprobes]
    exact search_isSome hocc hi rfl
  obtain ⟨⟨j, o⟩, hjo⟩ := Option.isSome_iff_exists.mp hfound
  obtain ⟨hj, hkey⟩ := find_some hjo
  obtain rfl := hs.unique j i o e hj hi hkey
  rw [hi] at hj
  obtain rfl := Option.some.inj hj
  exact hjo

/-- A key that is not found is in no slot. -/
theorem Sound.key_ne (hs : v.Sound slots) (h : v.find k slots = none)
    (hi : slot slots i = some e) : v.key e ≠ k := by
  rintro rfl
  rw [hs.find hi] at h
  cases h

/-- Writing a key that was not found, over whatever is in a slot its search gets to. -/
theorem Sound.insert (hs : v.Sound slots) (hi : i < slots.length)
    (hfree : v.find (v.key e) slots = none) (hopen : v.Open (v.key e) slots i) :
    v.Sound (slots.set i (some e)) :=
  hs.set hi hopen fun _ _ hj hkey => absurd hkey (hs.key_ne hfree hj)

end Layout

end Lib.ProbeTable
