import Mathlib.Init
import Mathlib.Order.Defs.Unbundled
import Mathlib.Tactic.TypeStar

/-!
# Failing computations over a state

An `Act σ α` reads and changes a state and may fail; a failure keeps the state it
reached, as an early `return -1` does. `Moves R` says that every state change is
allowed by `R`, and `Gives` that a run succeeds with a value and a state. Both are
composed along `>>=`.
-/

namespace Lib

universe u

variable {σ α β : Type u}

def Act (σ α : Type u) : Type u := σ → Option α × σ

namespace Act

instance : Monad (Act σ) where
  pure a := fun s => (some a, s)
  bind m f := fun s => match m s with
    | (some a, t) => f a t
    | (none, t) => (none, t)

def fail : Act σ α := fun s => (none, s)

/-- Go on only if the check holds. -/
def require (b : Bool) : Act σ PUnit := if b then pure ⟨⟩ else fail

def update (f : σ → σ) : Act σ PUnit := fun s => (some ⟨⟩, f s)

/-- `cleanup` runs on the state a failure leaves. -/
def onFail (m : Act σ α) (cleanup : σ → σ) : Act σ α := fun s => match m s with
  | (some a, t) => (some a, t)
  | (none, t) => (none, cleanup t)

/-! ## Allowed state changes -/

def Moves (R : σ → σ → Prop) (m : Act σ α) : Prop := ∀ s, R s (m s).2

variable {R : σ → σ → Prop}

theorem Moves.pure [Std.Refl R] (a : α) : Moves R (Pure.pure a : Act σ α) :=
  fun s => Std.Refl.refl s

theorem Moves.fail [Std.Refl R] : Moves R (fail : Act σ α) := fun s => Std.Refl.refl s

theorem Moves.require [Std.Refl R] (b : Bool) : Moves R (require b : Act σ PUnit) := by
  cases b
  · exact Moves.fail
  · exact Moves.pure _

theorem Moves.update {f : σ → σ} (h : ∀ s, R s (f s)) : Moves R (update f) := h

theorem Moves.bind [IsTrans σ R] {m : Act σ α} {f : α → Act σ β} (hm : Moves R m)
    (hf : ∀ a, Moves R (f a)) : Moves R (m >>= f) := by
  intro s
  have hs := hm s
  show R s (match m s with | (some a, t) => f a t | (none, t) => (none, t)).2
  split
  · next a t heq =>
    rw [heq] at hs
    exact IsTrans.trans _ _ _ hs (hf a t)
  · next t heq =>
    rw [heq] at hs
    exact hs

/-- What follows a computation that always fails never runs. -/
theorem Moves.bind_of_fails {m : Act σ α} {f : α → Act σ β} (hm : Moves R m)
    (hfail : ∀ s, (m s).1 = none) : Moves R (m >>= f) := by
  intro s
  have hs := hm s
  have hnone := hfail s
  show R s (match m s with | (some a, t) => f a t | (none, t) => (none, t)).2
  split
  · next a t heq =>
    rw [heq] at hnone
    cases hnone
  · next t heq =>
    rw [heq] at hs
    exact hs

theorem Moves.onFail [IsTrans σ R] {m : Act σ α} {cleanup : σ → σ} (hm : Moves R m)
    (hc : ∀ s, R s (cleanup s)) : Moves R (m.onFail cleanup) := by
  intro s
  have hs := hm s
  unfold Act.onFail
  split
  · next a t heq =>
    rw [heq] at hs
    exact hs
  · next t heq =>
    rw [heq] at hs
    exact IsTrans.trans _ _ _ hs (hc t)

/-! ## Properties of the state reached -/

variable {Q : σ → Prop} {s : σ}

theorem bind_reaches {m : Act σ α} {f : α → Act σ β} (hm : Q (m s).2)
    (hf : ∀ a t, Q t → Q (f a t).2) : Q ((m >>= f) s).2 := by
  show Q (match m s with | (some a, t) => f a t | (none, t) => (none, t)).2
  split
  · next a t heq =>
    rw [heq] at hm
    exact hf a t hm
  · next t heq =>
    rw [heq] at hm
    exact hm

theorem onFail_reaches {m : Act σ α} {cleanup : σ → σ} (hm : Q (m s).2)
    (hc : ∀ t, Q t → Q (cleanup t)) : Q ((m.onFail cleanup) s).2 := by
  unfold Act.onFail
  split
  · next a t heq =>
    rw [heq] at hm
    exact hm
  · next t heq =>
    rw [heq] at hm
    exact hc t hm

/-! ## Successful runs -/

def Gives (m : Act σ α) (s : σ) (a : α) (t : σ) : Prop := m s = (some a, t)

theorem gives_of_fst {m : Act σ α} {a : α} (h : (m s).1 = some a) : Gives m s a (m s).2 :=
  Prod.ext h rfl

variable {t u : σ}

theorem Gives.pure (a : α) : Gives (Pure.pure a : Act σ α) s a s := rfl

theorem Gives.require {b : Bool} (h : b = true) : Gives (require b) s ⟨⟩ s := by
  subst h
  rfl

theorem Gives.update (f : σ → σ) : Gives (update f) s ⟨⟩ (f s) := rfl

theorem Gives.bind_eq {m : Act σ α} {f : α → Act σ β} {a : α} (hm : Gives m s a t) :
    (m >>= f) s = f a t := by
  show (match m s with | (some a, t) => f a t | (none, t) => (none, t)) = _
  rw [show m s = (some a, t) from hm]

theorem Gives.bind {m : Act σ α} {f : α → Act σ β} {a : α} {b : β} (hm : Gives m s a t)
    (hf : Gives (f a) t b u) : Gives (m >>= f) s b u :=
  hm.bind_eq.trans hf

theorem Gives.onFail {m : Act σ α} {cleanup : σ → σ} {a : α} (hm : Gives m s a t) :
    Gives (m.onFail cleanup) s a t := by
  unfold Gives Act.onFail
  rw [show m s = (some a, t) from hm]

theorem bind_of_none {m : Act σ α} {f : α → Act σ β} (h : m s = (none, t)) :
    (m >>= f) s = (none, t) := by
  show (match m s with | (some a, t) => f a t | (none, t) => (none, t)) = _
  rw [h]

theorem onFail_of_none {m : Act σ α} {cleanup : σ → σ} (h : m s = (none, t)) :
    (m.onFail cleanup) s = (none, cleanup t) := by
  unfold Act.onFail
  rw [h]

theorem assoc {γ : Type u} (m : Act σ α) (f : α → Act σ β) (g : β → Act σ γ) :
    (m >>= f) >>= g = m >>= fun a => f a >>= g := by
  funext s
  rcases hm : m s with ⟨_ | a, t⟩
  · rw [bind_of_none (bind_of_none hm), bind_of_none hm]
  · rw [Gives.bind_eq hm]
    rcases hf : f a t with ⟨_ | b, u⟩
    · rw [bind_of_none ((Gives.bind_eq hm).trans hf), bind_of_none hf]
    · rw [Gives.bind_eq ((Gives.bind_eq hm).trans hf), Gives.bind_eq hf]

/-- A cleanup after the whole is one after each part. -/
theorem onFail_bind (m : Act σ α) (f : α → Act σ β) (cleanup : σ → σ) :
    (m >>= f).onFail cleanup = m.onFail cleanup >>= fun a => (f a).onFail cleanup := by
  funext s
  rcases hm : m s with ⟨_ | a, t⟩
  · rw [onFail_of_none (bind_of_none hm), bind_of_none (onFail_of_none hm)]
  · rw [Gives.bind_eq (Gives.onFail hm)]
    unfold Act.onFail
    rw [Gives.bind_eq hm]

theorem bind_congr_state {m : Act σ α} {f : α → Act σ β} {s' : σ} (h : m s = m s') :
    (m >>= f) s = (m >>= f) s' := by
  show (match m s with | (some a, t) => f a t | (none, t) => (none, t)) =
    (match m s' with | (some a, t) => f a t | (none, t) => (none, t))
  rw [h]

theorem require_require (a b : Bool) (m : Act σ α) :
    (do require a; require b; m) = (do require (a && b); m) := by
  cases a <;> rfl

/-! ## What a successful run consists of -/

theorem gives_pure_iff {a b : α} : Gives (Pure.pure a : Act σ α) s b t ↔ a = b ∧ s = t := by
  unfold Gives
  show (some a, s) = (some b, t) ↔ _
  simp only [Prod.mk.injEq, Option.some.injEq]

theorem not_gives_fail {a : α} : ¬ Gives fail s a t := by
  intro h
  cases congrArg Prod.fst h

theorem gives_require_iff {b : Bool} {x : PUnit} : Gives (require b) s x t ↔ b = true ∧ s = t := by
  cases b with
  | false => exact ⟨fun h => absurd h not_gives_fail, fun h => Bool.noConfusion h.1⟩
  | true => exact gives_pure_iff.trans (and_congr_left' (iff_of_true rfl rfl))

theorem gives_update_iff {f : σ → σ} {x : PUnit} : Gives (update f) s x t ↔ t = f s := by
  unfold Gives update
  simp only [Prod.mk.injEq, true_and, eq_comm]

theorem gives_bind_iff {m : Act σ α} {f : α → Act σ β} {b : β} :
    Gives (m >>= f) s b u ↔ ∃ a t, Gives m s a t ∧ Gives (f a) t b u := by
  constructor
  · intro h
    cases hm : m s with
    | mk r t =>
      cases r with
      | some a => exact ⟨a, t, hm, (Gives.bind_eq hm).symm.trans h⟩
      | none =>
        have hnone : (m >>= f) s = (none, t) := by
          show (match m s with | (some a, t) => f a t | (none, t) => (none, t)) = _
          rw [hm]
        cases hnone.symm.trans h
  · intro h
    obtain ⟨a, t, hm, hf⟩ := h
    exact hm.bind hf

theorem gives_onFail_iff {m : Act σ α} {cleanup : σ → σ} {a : α} :
    Gives (m.onFail cleanup) s a t ↔ Gives m s a t := by
  constructor
  · intro h
    unfold Gives Act.onFail at h
    split at h
    · next b v heq => exact heq.trans h
    · next v heq => cases h
  · exact Gives.onFail

end Act

end Lib
