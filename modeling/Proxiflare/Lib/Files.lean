import Mathlib.Logic.Function.Basic

/-!
# A directory of files

What each name holds. The calls are those of C's `stdio`; on a name that holds nothing, removing
and renaming change nothing.
-/

namespace Lib

abbrev Files (κ γ : Type*) := κ → Option γ

namespace Files

variable {κ γ : Type*} [DecidableEq κ]

def remove (name : κ) (files : Files κ γ) : Files κ γ := Function.update files name none

/-- What the new name held is gone. -/
def rename (old new : κ) (files : Files κ γ) : Files κ γ :=
  match files old with
  | none => files
  | some contents => Function.update (Function.update files old none) new (some contents)

/-- `fopen(name, "a")` on a file that may not be there yet. -/
def create (name : κ) (empty : γ) (files : Files κ γ) : Files κ γ :=
  Function.update files name (some ((files name).getD empty))

/-- Each name down from the `n`-th takes over what the name before it holds. -/
def shift (names : Nat → κ) : Nat → Files κ γ → Files κ γ
  | 0, files => files
  | i + 1, files => shift names i (files.rename (names i) (names (i + 1)))

variable {files : Files κ γ} {old new name : κ}

@[simp] theorem remove_self : files.remove name name = none := Function.update_self ..

@[simp] theorem remove_of_ne {x : κ} (h : x ≠ name) : files.remove name x = files x :=
  Function.update_of_ne h ..

@[simp] theorem create_self (empty : γ) :
    files.create name empty name = some ((files name).getD empty) := Function.update_self ..

@[simp] theorem create_of_ne {x : κ} (h : x ≠ name) (empty : γ) :
    files.create name empty x = files x := Function.update_of_ne h ..

/-- Renaming to a name that holds nothing. -/
theorem rename_new (hfree : files new = none) : files.rename old new new = files old := by
  rw [rename]
  cases hold : files old with
  | none => exact hfree
  | some contents => exact Function.update_self ..

theorem rename_old (hne : old ≠ new) : files.rename old new old = none := by
  rw [rename]
  cases hold : files old with
  | none => exact hold
  | some contents =>
    show Function.update (Function.update files old none) new (some contents) old = none
    rw [Function.update_of_ne hne, Function.update_self]

theorem rename_of_ne {x : κ} (hold : x ≠ old) (hnew : x ≠ new) :
    files.rename old new x = files x := by
  rw [rename]
  cases files old with
  | none => rfl
  | some contents =>
    show Function.update (Function.update files old none) new (some contents) x = files x
    rw [Function.update_of_ne hnew, Function.update_of_ne hold]

section Shift

variable {names : Nat → κ} {n : Nat}

theorem shift_of_ne {x : κ} (hx : ∀ i ≤ n, x ≠ names i) : files.shift names n x = files x := by
  induction n generalizing files with
  | zero => rfl
  | succ n ih =>
    rw [shift, ih fun i hi => hx i (Nat.le_succ_of_le hi)]
    exact rename_of_ne (hx n (Nat.le_succ n)) (hx (n + 1) (Nat.le_refl _))

/-- If the last name holds nothing, everything moves on by one name and the first is free. -/
theorem shift_names (hinj : ∀ i ≤ n, ∀ j ≤ n, names i = names j → i = j)
    (hfree : files (names n) = none) :
    files.shift names n (names 0) = none ∧
      ∀ i < n, files.shift names n (names (i + 1)) = files (names i) := by
  induction n generalizing files with
  | zero => exact ⟨hfree, fun i hi => absurd hi (Nat.not_lt_zero i)⟩
  | succ n ih =>
    have hne : ∀ i ≤ n, names (n + 1) ≠ names i := by
      intro i hi h
      have heq := hinj (n + 1) (Nat.le_refl _) i (Nat.le_succ_of_le hi) h
      omega
    have hlast : files.rename (names n) (names (n + 1)) (names n) = none :=
      rename_old (hne n (Nat.le_refl n)).symm
    obtain ⟨hfirst, hmoved⟩ :=
      ih (fun i hi j hj => hinj i (Nat.le_succ_of_le hi) j (Nat.le_succ_of_le hj)) hlast
    refine ⟨hfirst, fun i hi => ?_⟩
    rcases Nat.lt_succ_iff_lt_or_eq.mp hi with hi | rfl
    · rw [shift, hmoved i hi]
      refine rename_of_ne (fun h => ?_) (hne i (Nat.le_of_lt hi)).symm
      have heq := hinj i (by omega) n (Nat.le_succ n) h
      omega
    · rw [shift, shift_of_ne hne]
      exact rename_new hfree

end Shift

end Files

end Lib
