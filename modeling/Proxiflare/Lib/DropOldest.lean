import Mathlib.Data.List.Basic
import Mathlib.Data.Nat.ModEq
import Mathlib.Logic.Function.Basic
import Mathlib.Tactic.TypeStar

/-!
# Bounded FIFO that drops its oldest element

The specification of such a queue over plain lists, with a ledger of what became of
each element, and its storage in a circular array: `Window n cells start xs` says
that the cells from `start` on, modulo `n`, hold `xs`.
-/

namespace Lib.DropOldest

variable {α : Type*}

/-! ## The queue -/

/-- How an element leaves. -/
inductive Fate where
  | handed | freed
  deriving DecidableEq

inductive Op (α : Type*) where
  | push (a : α)
  | drain (max : Nat)

def tag (f : Fate) (xs : List α) : List (Fate × α) := xs.map fun x => (f, x)

/-- The elements of a log that left in one way. -/
def those (f : Fate) (log : List (Fate × α)) : List α := (log.filter (·.1 = f)).map (·.2)

@[simp] theorem tag_snd (f : Fate) (xs : List α) : (tag f xs).map (·.2) = xs := by
  simp [tag, Function.comp_def]

@[simp] theorem those_append (f : Fate) (a b : List (Fate × α)) :
    those f (a ++ b) = those f a ++ those f b := by
  simp [those]

@[simp] theorem those_tag (f g : Fate) (xs : List α) :
    those f (tag g xs) = if g = f then xs else [] := by
  unfold those tag
  split
  · next h => simp [List.filter_map, Function.comp_def, h]
  · next h => simp [List.filter_map, Function.comp_def, h]

/-- The elements queued, those gone in order of leaving, and the batch of each drain. -/
structure Ledger (α : Type*) where
  queue : List α
  gone : List (Fate × α)
  batches : List (List α)

def Ledger.empty : Ledger α := ⟨[], [], []⟩

def Ledger.step (cap : Nat) (s : Ledger α) : Op α → Ledger α
  | .push a =>
    if s.queue.length < cap then { s with queue := s.queue ++ [a] }
    else ⟨s.queue.drop 1 ++ [a], s.gone ++ tag .freed (s.queue.take 1), s.batches⟩
  | .drain max =>
    ⟨s.queue.drop max, s.gone ++ tag .handed (s.queue.take max),
      s.batches ++ [s.queue.take max]⟩

/-- Whatever is left is freed. -/
def Ledger.close (s : Ledger α) : Ledger α :=
  { s with queue := [], gone := s.gone ++ tag .freed s.queue }

def pushed (ops : List (Op α)) : List α :=
  ops.filterMap fun | .push a => some a | .drain _ => none

/-- In order of arrival: first those gone, then those queued. -/
def Ledger.arrived (s : Ledger α) : List α := s.gone.map (·.2) ++ s.queue

theorem Ledger.step_push_room {cap : Nat} {s : Ledger α} (h : s.queue.length < cap) (a : α) :
    s.step cap (.push a) = { s with queue := s.queue ++ [a] } :=
  if_pos h

theorem Ledger.step_push_full {cap : Nat} {s : Ledger α} (h : ¬s.queue.length < cap) (a : α) :
    s.step cap (.push a) =
      ⟨s.queue.drop 1 ++ [a], s.gone ++ tag .freed (s.queue.take 1), s.batches⟩ :=
  if_neg h

theorem Ledger.step_arrived (cap : Nat) (s : Ledger α) (op : Op α) :
    (s.step cap op).arrived = s.arrived ++ pushed [op] := by
  cases op with
  | push a =>
    by_cases h : s.queue.length < cap
    · simp [step_push_room h, arrived, pushed]
    · rw [step_push_full h]
      simp only [arrived, List.map_append, tag_snd, List.append_assoc]
      rw [← List.append_assoc (s.queue.take 1), List.take_append_drop]
      rfl
  | drain max => simp [Ledger.step, arrived, pushed]

theorem pushed_cons (op : Op α) (ops : List (Op α)) : pushed (op :: ops) = pushed [op] ++ pushed ops := by
  cases op <;> simp [pushed]

/-- Nothing is lost, duplicated or reordered. -/
theorem Ledger.run_arrived (cap : Nat) (s : Ledger α) (ops : List (Op α)) :
    (ops.foldl (Ledger.step cap) s).arrived = s.arrived ++ pushed ops := by
  induction ops generalizing s with
  | nil => simp [pushed]
  | cons op ops ih =>
    rw [List.foldl_cons, ih, step_arrived, pushed_cons op ops, List.append_assoc]

/-- The batches, one after another, are the elements handed out. -/
theorem Ledger.step_batches (cap : Nat) {s : Ledger α}
    (hs : s.batches.flatten = those .handed s.gone) (op : Op α) :
    (s.step cap op).batches.flatten = those .handed (s.step cap op).gone := by
  cases op with
  | push a =>
    by_cases h : s.queue.length < cap
    · rw [step_push_room h]
      exact hs
    · rw [step_push_full h, those_append, those_tag]
      simpa using hs
  | drain max => simp [Ledger.step, hs]

theorem Ledger.run_batches (cap : Nat) (ops : List (Op α)) {s : Ledger α}
    (hs : s.batches.flatten = those .handed s.gone) :
    (ops.foldl (Ledger.step cap) s).batches.flatten =
      those .handed (ops.foldl (Ledger.step cap) s).gone := by
  induction ops generalizing s with
  | nil => exact hs
  | cons op ops ih => exact ih (step_batches cap hs op)

/-! ## Its storage in a circular array -/

/-- The cells from `start` on, taken modulo `n`, hold the elements of the list. -/
def Window (n : Nat) (cells : Nat → Option α) (start : Nat) (xs : List α) : Prop :=
  ∀ i (h : i < xs.length), cells ((start + i) % n) = some xs[i]

variable {n start start' : Nat} {cells : Nat → Option α} {x : α} {xs : List α}

theorem Window.nil : Window n cells start [] := by
  intro i h
  exact absurd h (Nat.not_lt_zero i)

theorem Window.congr (hmod : start' % n = start % n) (h : Window n cells start xs) :
    Window n cells start' xs := by
  intro i hi
  rw [Nat.add_mod, hmod, ← Nat.add_mod]
  exact h i hi

theorem Window.oldest (h : Window n cells start (x :: xs)) : cells (start % n) = some x :=
  h 0 (Nat.succ_pos _)

/-- Two offsets below `n` from one start give different cells. -/
theorem add_mod_ne {i j : Nat} (hi : i < n) (hj : j < n) (hij : i ≠ j) :
    (start + i) % n ≠ (start + j) % n := by
  intro heq
  have hmod : Nat.ModEq n i j := Nat.ModEq.add_left_cancel' start heq
  rw [Nat.ModEq, Nat.mod_eq_of_lt hi, Nat.mod_eq_of_lt hj] at hmod
  exact hij hmod

/-- The cells after the first hold the rest. -/
theorem Window.tail (h : Window n cells start (x :: xs)) : Window n cells (start + 1) xs := by
  intro i hi
  rw [Nat.add_assoc, Nat.add_comm 1 i]
  exact h (i + 1) (Nat.succ_lt_succ hi)

/-- Clearing the first cell and moving on by one takes the oldest element off. -/
theorem Window.pop (hn : xs.length < n) (h : Window n cells start (x :: xs)) :
    Window n (Function.update cells (start % n) none) (start + 1) xs := by
  intro i hi
  have hne : (start + (i + 1)) % n ≠ (start + 0) % n :=
    add_mod_ne (by omega) (by omega) (by omega)
  rw [show start + 1 + i = start + (i + 1) by omega, Function.update_of_ne (by simpa using hne)]
  exact h (i + 1) (Nat.succ_lt_succ hi)

/-- Writing the cell after the last adds a newest element. -/
theorem Window.push (hn : xs.length < n) (h : Window n cells start xs) :
    Window n (Function.update cells ((start + xs.length) % n) (some x)) start (xs ++ [x]) := by
  intro i hi
  rcases Nat.lt_or_ge i xs.length with hlt | hge
  · rw [Function.update_of_ne (add_mod_ne (by omega) (by omega) (by omega)),
      List.getElem_append_left hlt]
    exact h i hlt
  · obtain rfl : i = xs.length := by
      rw [List.length_append, List.length_singleton] at hi
      omega
    rw [Function.update_self, List.getElem_append_right (Nat.le_refl _)]
    simp

end Lib.DropOldest
