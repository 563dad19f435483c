import Mathlib.Init
import Mathlib.Tactic.TypeStar

/-!
# Guarded runs of a partial step function

A system is a step function `σ → ℓ → Option σ`: a label that does not apply gives
`none`. `Reach` collects the states met by runs whose every step satisfies a
guard on the state before it. The guard `fun _ _ => True` gives all runs.
-/

namespace Lib.Runs

variable {σ ℓ : Type*}

inductive Reach (step : σ → ℓ → Option σ) (guard : σ → ℓ → Prop) (init : σ → Prop) : σ → Prop where
  | start {s : σ} (h : init s) : Reach step guard init s
  | next {s s' : σ} {l : ℓ} (hr : Reach step guard init s) (hg : guard s l)
      (hs : step s l = some s') : Reach step guard init s'

variable {step : σ → ℓ → Option σ} {guard guard' : σ → ℓ → Prop} {init : σ → Prop}

/-- What holds at the start and is kept by every guarded step holds in every reachable state. -/
theorem Reach.invariant {inv : σ → Prop} (hinit : ∀ s, init s → inv s)
    (hstep : ∀ s l s', inv s → guard s l → step s l = some s' → inv s')
    {s : σ} (hr : Reach step guard init s) : inv s := by
  induction hr with
  | start h => exact hinit _ h
  | next _ hg hs ih => exact hstep _ _ _ ih hg hs

theorem Reach.mono (h : ∀ s l, guard s l → guard' s l) {s : σ}
    (hr : Reach step guard init s) : Reach step guard' init s := by
  induction hr with
  | start hi => exact .start hi
  | next _ hg hs ih => exact .next ih (h _ _ hg) hs

/-- Executes a list of labels; `none` as soon as one does not apply. -/
def run (step : σ → ℓ → Option σ) (s : σ) : List ℓ → Option σ
  | [] => some s
  | l :: ls => (step s l).bind fun s' => run step s' ls

@[simp] theorem run_nil (s : σ) : run step s [] = some s := rfl

@[simp] theorem run_cons (s : σ) (l : ℓ) (ls : List ℓ) :
    run step s (l :: ls) = (step s l).bind fun s' => run step s' ls := rfl

/-- A run whose labels satisfy the guard wherever they are taken. -/
theorem Reach.run {s s' : σ} {ls : List ℓ} (hr : Reach step guard init s)
    (hg : ∀ t, ∀ l ∈ ls, guard t l) (hrun : Runs.run step s ls = some s') :
    Reach step guard init s' := by
  induction ls generalizing s with
  | nil =>
    obtain rfl := Option.some.inj hrun
    exact hr
  | cons l ls ih =>
    obtain ⟨t, ht, hrest⟩ := Option.bind_eq_some_iff.mp hrun
    exact ih (.next hr (hg s l (by simp)) ht) (fun u k hk => hg u k (by simp [hk])) hrest

/-- A step taken only where a computable guard allows it. -/
def guarded (step : σ → ℓ → Option σ) (ok : σ → ℓ → Bool) (s : σ) (l : ℓ) : Option σ :=
  if ok s l then step s l else none

/-- A run that checks the guard as it goes. -/
theorem Reach.run_guarded {ok : σ → ℓ → Bool} {s s' : σ} {ls : List ℓ}
    (hr : Reach step (fun s l => ok s l = true) init s)
    (hrun : Runs.run (guarded step ok) s ls = some s') :
    Reach step (fun s l => ok s l = true) init s' := by
  induction ls generalizing s with
  | nil =>
    obtain rfl := Option.some.inj hrun
    exact hr
  | cons l ls ih =>
    obtain ⟨t, ht, hrest⟩ := Option.bind_eq_some_iff.mp hrun
    unfold guarded at ht
    split at ht
    · next hok => exact ih (.next hr hok ht) hrest
    · cases ht

/-- Every step of the run through `ls` satisfies `P`. -/
def Along (step : σ → ℓ → Option σ) (P : σ → ℓ → σ → Prop) : σ → List ℓ → Prop
  | _, [] => True
  | s, l :: ls => ∀ s', step s l = some s' → P s l s' ∧ Along step P s' ls

/-- Under an invariant, a step condition that implies another does so along every run. -/
theorem Along.imp {P Q : σ → ℓ → σ → Prop} (inv : σ → Prop)
    (hinv : ∀ s l s', inv s → step s l = some s' → inv s')
    (hPQ : ∀ s l s', inv s → step s l = some s' → P s l s' → Q s l s') {s : σ} (hs : inv s)
    {ls : List ℓ} (h : Along step P s ls) : Along step Q s ls := by
  induction ls generalizing s with
  | nil => trivial
  | cons l ls ih =>
    intro s' hstep
    obtain ⟨hP, hrest⟩ := h s' hstep
    exact ⟨hPQ s l s' hs hstep hP, ih (hinv s l s' hs hstep) hrest⟩

/-- Where an invariant makes two step conditions agree, they agree along every run. -/
theorem along_congr {P Q : σ → ℓ → σ → Prop} (inv : σ → Prop)
    (hinv : ∀ s l s', inv s → step s l = some s' → inv s')
    (hPQ : ∀ s l s', inv s → step s l = some s' → (P s l s' ↔ Q s l s')) {s : σ} (hs : inv s)
    (ls : List ℓ) : Along step P s ls ↔ Along step Q s ls :=
  ⟨.imp inv hinv (fun s l s' hi hstep => (hPQ s l s' hi hstep).mp) hs,
    .imp inv hinv (fun s l s' hi hstep => (hPQ s l s' hi hstep).mpr) hs⟩

end Lib.Runs
