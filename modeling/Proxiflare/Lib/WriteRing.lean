import Mathlib.Data.List.Basic
import Mathlib.Tactic.TypeStar

/-!
# An array written round and round

`n` slots and the position of the next write. A write replaces one slot, so what was
written stays until `n` later writes.
-/

namespace Lib

variable {α : Type*} {n : Nat}

structure WriteRing (α : Type*) (n : Nat) where
  slots : List α
  head : Nat
  length_eq : slots.length = n
  head_lt : head < n

namespace WriteRing

/-- All slots hold `a`. -/
def filled (n : Nat) (h : 0 < n) (a : α) : WriteRing α n :=
  ⟨List.replicate n a, 0, List.length_replicate, h⟩

def write (r : WriteRing α n) (a : α) : WriteRing α n where
  slots := r.slots.set r.head a
  head := (r.head + 1) % n
  length_eq := List.length_set.trans r.length_eq
  head_lt := Nat.mod_lt _ (Nat.zero_lt_of_lt r.head_lt)

def writes (r : WriteRing α n) (as : List α) : WriteRing α n := as.foldl write r

theorem mem_of_mem_write {r : WriteRing α n} {a b : α} (h : b ∈ (r.write a).slots) :
    b = a ∨ b ∈ r.slots := by
  rcases List.mem_or_eq_of_mem_set h with h | h
  · exact .inr h
  · exact .inl h

theorem mem_of_mem_writes {r : WriteRing α n} {as : List α} {b : α} (h : b ∈ (r.writes as).slots) :
    b ∈ as ∨ b ∈ r.slots := by
  induction as generalizing r with
  | nil => exact .inr h
  | cons a as ih =>
    rcases ih h with h | h
    · exact .inl (List.mem_cons_of_mem a h)
    · rcases mem_of_mem_write h with rfl | h
      · exact .inl List.mem_cons_self
      · exact .inr h

theorem writes_append (r : WriteRing α n) (as bs : List α) :
    r.writes (as ++ bs) = (r.writes as).writes bs := List.foldl_append

theorem write_self (r : WriteRing α n) (a : α) : (r.write a).slots[r.head]? = some a :=
  List.getElem?_set_self (Nat.lt_of_lt_of_eq r.head_lt r.length_eq.symm)

theorem write_of_ne {r : WriteRing α n} {i : Nat} (h : r.head ≠ i) (a : α) :
    (r.write a).slots[i]? = r.slots[i]? :=
  List.getElem?_set_ne h

/-- The slot `d` positions behind the head is out of reach for fewer than `n - d` writes. -/
theorem writes_behind {r : WriteRing α n} {i d : Nat} (as : List α) (hd : 0 < d)
    (hi : (i + d) % n = r.head) (hlt : i < n) (h : d + as.length ≤ n) :
    (r.writes as).slots[i]? = r.slots[i]? := by
  induction as generalizing r d with
  | nil => rfl
  | cons a as ih =>
    rw [List.length_cons] at h
    have hne : r.head ≠ i := by
      rw [← hi]
      rcases Nat.lt_or_ge (i + d) n with hin | hout
      · rw [Nat.mod_eq_of_lt hin]
        omega
      · rw [Nat.mod_eq_sub_mod hout, Nat.mod_eq_of_lt (by omega)]
        omega
    have hnext : (i + (d + 1)) % n = (r.write a).head := by
      show _ = (r.head + 1) % n
      rw [← hi, Nat.mod_add_mod, Nat.add_assoc]
    exact (ih (Nat.succ_pos d) hnext (by omega)).trans (write_of_ne hne a)

/-- What was written survives fewer than `n` later writes. -/
theorem mem_writes {r : WriteRing α n} (a : α) {as : List α} (h : as.length < n) :
    a ∈ ((r.write a).writes as).slots := by
  have hbehind := writes_behind (r := r.write a) as Nat.one_pos rfl r.head_lt (by omega)
  exact List.mem_of_getElem? (hbehind.trans (r.write_self a))

end WriteRing

end Lib
