import Mathlib.Data.List.Basic
import Mathlib.Tactic.TypeStar

/-!
# A table of slots that expire, written by key

A write for a key takes the live slot of that key or else the first slot that is not
live. Then at most one slot of each key is live, and a key moves only towards the front.
-/

namespace Lib.KeyedSlots

/-- How a slot is read: its key, and at which times it is live. What has expired stays so. -/
structure SlotView (ε κ τ : Type*) [LE τ] where
  key : ε → κ
  live : τ → ε → Prop
  mono : ∀ {t t' : τ} {e : ε}, t ≤ t' → live t' e → live t e

namespace SlotView

variable {ε κ τ : Type*} [LE τ] (v : SlotView ε κ τ) {t t' : τ} {k : κ} {es es' : List ε}
  {i j : Nat} {e o : ε}

/-- No two live slots have the same key. -/
def Unique (t : τ) (es : List ε) : Prop :=
  ∀ (i j : Nat) (ei ej : ε), es[i]? = some ei → es[j]? = some ej → v.live t ei → v.live t ej →
    v.key ei = v.key ej → i = j

/-- Slot `i` is the one that a write for `k` at time `t` takes. -/
def Takes (t : τ) (k : κ) (es : List ε) (i : Nat) : Prop :=
  ∃ o, es[i]? = some o ∧ (v.live t o ∧ v.key o = k ∨
    ¬ v.live t o ∧ (∀ e ∈ es, v.live t e → v.key e ≠ k) ∧
      ∀ (j : Nat) (e : ε), j < i → es[j]? = some e → v.live t e)

/-- A write for `k` finds a slot. -/
def Room (t : τ) (k : κ) (es : List ε) : Prop := ∃ e ∈ es, v.live t e → v.key e = k

/-- Slot `i` has the key `k`, and no other slot with that key is live. -/
def HeldAt (t : τ) (k : κ) (i : Nat) (es : List ε) : Prop :=
  (∃ o, es[i]? = some o ∧ v.key o = k) ∧
    ∀ (j : Nat) (o : ε), es[j]? = some o → v.live t o → v.key o = k → j = i

/-- Every slot of `es'` with another key than `k` is the slot of `es` at its place. -/
def OthersFrom (k : κ) (es es' : List ε) : Prop :=
  ∀ (i : Nat) (o : ε), es'[i]? = some o → v.key o ≠ k → es[i]? = some o

/-- A scan for `k` has passed over `pre`; `reuse` is the first slot there that is not live. -/
structure Scanned (t : τ) (k : κ) (pre : List ε) (reuse : Option Nat) : Prop where
  other : ∀ e ∈ pre, v.live t e → v.key e ≠ k
  allLive : reuse = none → ∀ e ∈ pre, v.live t e
  firstDead : ∀ r, reuse = some r → ∃ o, pre[r]? = some o ∧ ¬ v.live t o ∧
    ∀ (j : Nat) (e : ε), j < r → pre[j]? = some e → v.live t e

variable {v}

/-! ## Scanning for a slot -/

theorem Scanned.nil (v : SlotView ε κ τ) (t : τ) (k : κ) : v.Scanned t k [] none where
  other := List.forall_mem_nil _
  allLive _ := List.forall_mem_nil _
  firstDead _ h := by cases h

theorem Scanned.live {pre : List ε} {reuse : Option Nat} (h : v.Scanned t k pre reuse)
    (hl : v.live t e) (hk : v.key e ≠ k) : v.Scanned t k (pre ++ [e]) reuse where
  other := List.forall_mem_append.mpr ⟨h.other, List.forall_mem_singleton.mpr fun _ => hk⟩
  allLive hr := List.forall_mem_append.mpr ⟨h.allLive hr, List.forall_mem_singleton.mpr hl⟩
  firstDead r hr := by
    obtain ⟨o, ho, hd, hbefore⟩ := h.firstDead r hr
    have hlt : r < pre.length := (List.getElem?_eq_some_iff.mp ho).1
    refine ⟨o, by rwa [List.getElem?_append_left hlt], hd, fun j p hj hp => hbefore j p hj ?_⟩
    rwa [List.getElem?_append_left (Nat.lt_trans hj hlt)] at hp

theorem Scanned.dead {pre : List ε} {reuse : Option Nat} (h : v.Scanned t k pre reuse)
    (hd : ¬ v.live t e) : v.Scanned t k (pre ++ [e]) (reuse.or (some pre.length)) where
  other := List.forall_mem_append.mpr
    ⟨h.other, List.forall_mem_singleton.mpr fun hl => absurd hl hd⟩
  allLive hr := by
    cases reuse <;> cases hr
  firstDead r hr := by
    cases hreuse : reuse with
    | some r' =>
      obtain ⟨o, ho, hdo, hbefore⟩ := h.firstDead r' hreuse
      have hlt : r' < pre.length := (List.getElem?_eq_some_iff.mp ho).1
      rw [hreuse] at hr
      obtain rfl := Option.some.inj hr
      refine ⟨o, by rwa [List.getElem?_append_left hlt], hdo, fun j p hj hp => hbefore j p hj ?_⟩
      rwa [List.getElem?_append_left (Nat.lt_trans hj hlt)] at hp
    | none =>
      rw [hreuse] at hr
      obtain rfl := Option.some.inj hr
      refine ⟨e, by simp, hd, fun j p hj hp => h.allLive hreuse p ?_⟩
      rw [List.getElem?_append_left hj] at hp
      exact List.mem_of_getElem? hp

/-- The scan stops at a live slot of `k`. -/
theorem takes_live {pre : List ε} (hl : v.live t e) (hk : v.key e = k) :
    v.Takes t k (pre ++ e :: es) pre.length :=
  ⟨e, by simp, .inl ⟨hl, hk⟩⟩

theorem Scanned.takes {r : Nat} (h : v.Scanned t k es (some r)) : v.Takes t k es r := by
  obtain ⟨o, ho, hd, hbefore⟩ := h.firstDead r rfl
  exact ⟨o, ho, .inr ⟨hd, h.other, hbefore⟩⟩

theorem Scanned.full (h : v.Scanned t k es none) : ¬ v.Room t k es := by
  rintro ⟨e, he, hk⟩
  exact h.other e he (h.allLive rfl e he) (hk (h.allLive rfl e he))

/-! ## Writing a slot -/

theorem Unique.mono (h : v.Unique t es) (ht : t ≤ t') : v.Unique t' es :=
  fun i j ei ej hi hj li lj => h i j ei ej hi hj (v.mono ht li) (v.mono ht lj)

theorem Room.mono (h : v.Room t k es) (ht : t ≤ t') : v.Room t' k es := by
  obtain ⟨e, he, hk⟩ := h
  exact ⟨e, he, fun hl => hk (v.mono ht hl)⟩

theorem HeldAt.mono (h : v.HeldAt t k i es) (ht : t ≤ t') : v.HeldAt t' k i es :=
  ⟨h.1, fun j o hj hl => h.2 j o hj (v.mono ht hl)⟩

theorem HeldAt.room (h : v.HeldAt t k i es) : v.Room t k es := by
  obtain ⟨⟨o, ho, hk⟩, -⟩ := h
  exact ⟨o, List.mem_of_getElem? ho, fun _ => hk⟩

theorem Takes.lt_length (h : v.Takes t k es i) : i < es.length := by
  obtain ⟨o, ho, -⟩ := h
  exact (List.getElem?_eq_some_iff.mp ho).1

/-- A slot of a table after a write is the written one or stands where it stood. -/
theorem getElem?_set_cases (h : (es.set i e)[j]? = some o) :
    i = j ∧ o = e ∨ i ≠ j ∧ es[j]? = some o := by
  rw [List.getElem?_set] at h
  split at h
  · next heq =>
    split at h
    · exact .inl ⟨heq, (Option.some.inj h).symm⟩
    · cases h
  · next hne => exact .inr ⟨hne, h⟩

/-- The slot that is taken is the only live one of its key that the write leaves. -/
theorem Takes.live_eq (hu : v.Unique t es) (h : v.Takes t k es i) (hj : es[j]? = some o)
    (hl : v.live t o) (hk : v.key o = k) : j = i := by
  obtain ⟨p, hp, ⟨hlive, hkey⟩ | ⟨-, hnone, -⟩⟩ := h
  · exact hu j i o p hj hp hl hlive (hk.trans hkey.symm)
  · exact absurd hk (hnone o (List.mem_of_getElem? hj) hl)

theorem Unique.set (hu : v.Unique t es) (ht : t ≤ t') (h : v.Takes t k es i) (hk : v.key e = k) :
    v.Unique t' (es.set i e) := by
  intro a b ea eb ha hb la lb hkey
  rcases getElem?_set_cases ha with ⟨rfl, rfl⟩ | ⟨-, hold⟩ <;>
    rcases getElem?_set_cases hb with ⟨rfl, rfl⟩ | ⟨-, hold'⟩
  · rfl
  · exact (h.live_eq hu hold' (v.mono ht lb) (hkey.symm.trans hk)).symm
  · exact h.live_eq hu hold (v.mono ht la) (hkey.trans hk)
  · exact hu a b ea eb hold hold' (v.mono ht la) (v.mono ht lb) hkey

theorem Unique.heldAt (hu : v.Unique t es) (hi : es[i]? = some o) (hl : v.live t o)
    (hk : v.key o = k) : v.HeldAt t k i es :=
  ⟨⟨o, hi, hk⟩, fun j p hj hlj hkj => hu j i p o hj hi hlj hl (hkj.trans hk.symm)⟩

/-- A write moves the slot of its key towards the front, if at all. -/
theorem HeldAt.takes_le (h : v.HeldAt t k j es) (ht : v.Takes t k es i) : i ≤ j := by
  obtain ⟨⟨o, ho, hk⟩, honly⟩ := h
  obtain ⟨p, hp, ⟨hlive, hkey⟩ | ⟨-, hnone, hbefore⟩⟩ := ht
  · exact Nat.le_of_eq (honly i p hp hlive hkey)
  · by_contra hlt
    have hl : v.live t o := hbefore j o (Nat.lt_of_not_le hlt) ho
    exact hnone o (List.mem_of_getElem? ho) hl hk

theorem heldAt_set (hu : v.Unique t es) (ht : t ≤ t') (h : v.Takes t k es i) (hk : v.key e = k) :
    v.HeldAt t' k i (es.set i e) := by
  refine ⟨⟨e, List.getElem?_set_self h.lt_length, hk⟩, fun j o hj hl hkj => ?_⟩
  rcases getElem?_set_cases hj with ⟨rfl, rfl⟩ | ⟨-, hj⟩
  · rfl
  · exact h.live_eq hu hj (v.mono ht hl) hkj

theorem OthersFrom.refl (k : κ) (es : List ε) : v.OthersFrom k es es := fun _ _ h _ => h

theorem OthersFrom.set (h : v.OthersFrom k es es') (i : Nat) (hk : v.key e = k) :
    v.OthersFrom k es (es'.set i e) := by
  intro j o hj hne
  rcases getElem?_set_cases hj with ⟨rfl, rfl⟩ | ⟨-, hj⟩
  · exact absurd hk hne
  · exact h j o hj hne

/-- A search that some slot of `k` meets ends at one, unless a slot before it has another key. -/
theorem find?_key {p : ε → Bool} (hi : es[i]? = some e) (hp : p e = true)
    (hbefore : ∀ (j : Nat) (o : ε), j ≤ i → es[j]? = some o → p o = true → v.key o = k) :
    ∃ o, es.find? p = some o ∧ v.key o = k := by
  obtain ⟨o, ho⟩ : ∃ o, es.find? p = some o :=
    Option.isSome_iff_exists.mp (List.find?_isSome.mpr ⟨e, List.mem_of_getElem? hi, hp⟩)
  obtain ⟨hpo, j, hj, hoj, hfirst⟩ := List.find?_eq_some_iff_getElem.mp ho
  refine ⟨o, ho, hbefore j o ?_ ?_ hpo⟩
  · by_contra hlt
    obtain ⟨hlen, rfl⟩ := List.getElem?_eq_some_iff.mp hi
    have hnot := hfirst i (Nat.lt_of_not_le hlt)
    rw [hp] at hnot
    cases hnot
  · rw [← hoj]
    exact List.getElem?_eq_getElem hj

/-- Where the search for `k` succeeded it still does: the key is no further back, and the other
slots that meet the search met it before. -/
theorem OthersFrom.search {p p' : ε → Bool} (h : v.OthersFrom k es es') (hfind : es.find? p = some o)
    (hk : v.key o = k) (hpp : ∀ a, p' a = true → p a = true) (hi : es'[i]? = some e)
    (hp : p' e = true) (hle : ∀ j : Nat, es[j]? = some o → i ≤ j) :
    ∃ a, es'.find? p' = some a ∧ v.key a = k := by
  obtain ⟨-, n, hn, hon, hfirst⟩ := List.find?_eq_some_iff_getElem.mp hfind
  have hgetn : es[n]? = some o := by
    rw [← hon]
    exact List.getElem?_eq_getElem hn
  refine find?_key hi hp fun j a hj ha hpa => ?_
  by_contra hne
  have hold : es[j]? = some a := h j a ha hne
  have hjn : j ≤ n := Nat.le_trans hj (hle n hgetn)
  obtain ⟨hlen, hja⟩ := List.getElem?_eq_some_iff.mp hold
  rcases Nat.lt_or_eq_of_le hjn with hlt | rfl
  · have hnot := hfirst j hlt
    rw [hja, hpp a hpa] at hnot
    cases hnot
  · exact hne ((congrArg v.key (hja.symm.trans hon)).trans hk)

end SlotView

end Lib.KeyedSlots
