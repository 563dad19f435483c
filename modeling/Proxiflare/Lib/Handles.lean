import Mathlib.Data.Set.Lattice
import Mathlib.Order.CompletePartialOrder

/-!
# Handles

A log of handles that are handed out, used and given back has two authors. The environment hands
out nothing that is still open (`Fresh`); the program uses and gives back only what is open
(`Owned`). `Leads pre ops post` is the contract between them: if the environment does its part, so
does the program, and what is open at the end satisfies `post`.
-/

namespace Lib.Handles

variable {ρ : Type*}

inductive Op (ρ : Type*) where
  | opens (r : ρ)
  | uses (r : ρ)
  | closes (r : ρ)

/-- What is open after an operation. -/
def Op.after (held : Set ρ) : Op ρ → Set ρ
  | .opens r => insert r held
  | .uses _ => held
  | .closes r => held \ {r}

def Op.Fresh (held : Set ρ) : Op ρ → Prop
  | .opens r => r ∉ held
  | .uses _ => True
  | .closes _ => True

def Op.Owned (held : Set ρ) : Op ρ → Prop
  | .opens _ => True
  | .uses r => r ∈ held
  | .closes r => r ∈ held

def after : Set ρ → List (Op ρ) → Set ρ
  | held, [] => held
  | held, op :: ops => after (op.after held) ops

def Fresh : Set ρ → List (Op ρ) → Prop
  | _, [] => True
  | held, op :: ops => op.Fresh held ∧ Fresh (op.after held) ops

def Owned : Set ρ → List (Op ρ) → Prop
  | _, [] => True
  | held, op :: ops => op.Owned held ∧ Owned (op.after held) ops

variable {held pre : Set ρ} {mid post post' : Set ρ → Prop} {ops ops' : List (Op ρ)} {r : ρ}

theorem after_append : after held (ops ++ ops') = after (after held ops) ops' := by
  induction ops generalizing held with
  | nil => rfl
  | cons op ops ih => exact ih

theorem fresh_append : Fresh held (ops ++ ops') ↔ Fresh held ops ∧ Fresh (after held ops) ops' := by
  induction ops generalizing held with
  | nil => exact Iff.of_eq (true_and _).symm
  | cons op ops ih =>
    show op.Fresh held ∧ Fresh _ (ops ++ ops') ↔ (op.Fresh held ∧ Fresh _ ops) ∧ _
    rw [ih, and_assoc]
    rfl

theorem owned_append : Owned held (ops ++ ops') ↔ Owned held ops ∧ Owned (after held ops) ops' := by
  induction ops generalizing held with
  | nil => exact Iff.of_eq (true_and _).symm
  | cons op ops ih =>
    show op.Owned held ∧ Owned _ (ops ++ ops') ↔ (op.Owned held ∧ Owned _ ops) ∧ _
    rw [ih, and_assoc]
    rfl

theorem Fresh.anti {own : Set ρ} (hsub : own ⊆ held) (h : Fresh held ops) : Fresh own ops := by
  induction ops generalizing own held with
  | nil => trivial
  | cons op ops ih =>
    obtain ⟨hop, hrest⟩ := h
    cases op with
    | opens r => exact ⟨fun hr => hop (hsub hr), ih (Set.insert_subset_insert hsub) hrest⟩
    | uses r => exact ⟨trivial, ih hsub hrest⟩
    | closes r => exact ⟨trivial, ih (Set.sdiff_subset_sdiff_left hsub) hrest⟩

/-- A program that owns what it closes closes nothing that others hold meanwhile. -/
theorem closes_notMem {own frame : Set ρ} (hdisjoint : Disjoint own frame)
    (howned : Owned own ops) (hfresh : Fresh (own ∪ frame) ops) (hr : r ∈ frame) :
    .closes r ∉ ops := by
  induction ops generalizing own with
  | nil => exact List.not_mem_nil
  | cons op ops ih =>
    obtain ⟨hop, howned⟩ := howned
    obtain ⟨hnew, hfresh⟩ := hfresh
    cases op with
    | opens s =>
      have hs : s ∉ frame := fun h => hnew (.inr h)
      have hunion : insert s (own ∪ frame) = insert s own ∪ frame := Set.insert_union.symm
      have hdisjoint' : Disjoint (insert s own) frame :=
        Set.disjoint_insert_left.mpr ⟨hs, hdisjoint⟩
      have htail := ih hdisjoint' howned (hunion ▸ hfresh)
      simpa using htail
    | uses s =>
      have htail := ih hdisjoint howned hfresh
      simpa using htail
    | closes s =>
      have hs : s ∉ frame := Set.disjoint_left.mp hdisjoint hop
      have hunion : (own ∪ frame) \ {s} = own \ {s} ∪ frame := by
        rw [Set.union_sdiff_distrib, Set.sdiff_singleton_eq_self hs]
      have htail := ih (hdisjoint.mono_left Set.sdiff_subset) howned (hunion ▸ hfresh)
      have hne : r ≠ s := fun h => hs (h ▸ hr)
      simpa [hne] using htail

/-! ## Contracts -/

def Leads (pre : Set ρ) (ops : List (Op ρ)) (post : Set ρ → Prop) : Prop :=
  Fresh pre ops → Owned pre ops ∧ post (after pre ops)

namespace Leads

theorem nil (h : post held) : Leads held [] post := fun _ => ⟨trivial, h⟩

theorem mono (h : Leads pre ops post) (himp : ∀ held, post held → post' held) :
    Leads pre ops post' := by
  intro hfresh
  obtain ⟨howned, hpost⟩ := h hfresh
  exact ⟨howned, himp _ hpost⟩

theorem append (h : Leads pre ops mid) (h' : ∀ held, mid held → Leads held ops' post) :
    Leads pre (ops ++ ops') post := by
  intro hfresh
  obtain ⟨hf, hf'⟩ := fresh_append.mp hfresh
  obtain ⟨howned, hmid⟩ := h hf
  obtain ⟨howned', hpost⟩ := h' _ hmid hf'
  exact ⟨owned_append.mpr ⟨howned, howned'⟩, after_append ▸ hpost⟩

theorem opens (h : r ∉ pre → Leads (insert r pre) ops post) : Leads pre (.opens r :: ops) post := by
  intro hfresh
  obtain ⟨howned, hpost⟩ := h hfresh.1 hfresh.2
  exact ⟨⟨trivial, howned⟩, hpost⟩

theorem uses (hr : r ∈ pre) (h : Leads pre ops post) : Leads pre (.uses r :: ops) post := by
  intro hfresh
  obtain ⟨howned, hpost⟩ := h hfresh.2
  exact ⟨⟨hr, howned⟩, hpost⟩

theorem closes (hr : r ∈ pre) (h : Leads (pre \ {r}) ops post) : Leads pre (.closes r :: ops) post := by
  intro hfresh
  obtain ⟨howned, hpost⟩ := h hfresh.2
  exact ⟨⟨hr, howned⟩, hpost⟩

end Leads

end Lib.Handles
