import Proxiflare.Lib.Act

/-!
# Computations that respect a view

A view maps a state to the part of it that may be seen. Outcomes are `Alike` when they
give the same value and leave states that look the same; a computation `Respects` a view
when states that look the same have outcomes that are alike, so that nothing it answers
is decided by what the view hides. Respect is kept by `>>=`.
-/

namespace Lib.View

universe u

variable {σ τ α β : Type u} {view : σ → τ}

structure Alike (view : σ → τ) (x y : α × σ) : Prop where
  value : x.1 = y.1
  state : view x.2 = view y.2

def Respects (view : σ → τ) (f : σ → α × σ) : Prop :=
  ∀ ⦃s t⦄, view s = view t → Alike view (f s) (f t)

/-- One value, and two states to go on from. -/
theorem Alike.split {x y : α × σ} (h : Alike view x y) :
    ∃ a s t, x = (a, s) ∧ y = (a, t) ∧ view s = view t := by
  obtain ⟨a, s⟩ := x
  obtain ⟨b, t⟩ := y
  obtain rfl : a = b := h.value
  exact ⟨a, s, t, rfl, rfl, h.state⟩

theorem Alike.of {s t : σ} (a : α) (h : view s = view t) : Alike view (a, s) (a, t) := ⟨rfl, h⟩

theorem Alike.map (g : α → β) {x y : α × σ} (h : Alike view x y) :
    Alike view (g x.1, x.2) (g y.1, y.2) := ⟨congrArg g h.value, h.state⟩

theorem respects_pure (a : α) : Respects view fun s => (a, s) := fun _ _ h => .of a h

theorem Respects.bind {m : Act σ α} {f : α → Act σ β} (hm : Respects view m)
    (hf : ∀ a, Respects view (f a)) : Respects view (m >>= f) := by
  intro s t h
  obtain ⟨r, s', t', hs, ht, hst⟩ := (hm h).split
  cases r with
  | none =>
    rw [Act.bind_of_none hs, Act.bind_of_none ht]
    exact .of none hst
  | some a =>
    have hgives : Act.Gives m s a s' := hs
    have hgives' : Act.Gives m t a t' := ht
    rw [hgives.bind_eq, hgives'.bind_eq]
    exact hf a hst

end Lib.View
