import Mathlib.Data.List.TakeWhile

/-!
# A stream that arrives in pieces

An empty piece, or the end of the list, ends the stream. Readers take from the
front of the list and may split its first piece; what they leave is compared with
the stream, not with the pieces.
-/

namespace Lib

variable {α : Type*}

/-- What arrives before an empty piece. -/
def stream (pieces : List (List α)) : List α := (pieces.takeWhile fun piece => !piece.isEmpty).flatten

@[simp] theorem stream_nil : stream ([] : List (List α)) = [] := rfl

@[simp] theorem stream_empty_cons (pieces : List (List α)) : stream ([] :: pieces) = [] := rfl

theorem stream_cons {piece : List α} (h : piece ≠ []) (pieces : List (List α)) :
    stream (piece :: pieces) = piece ++ stream pieces := by
  obtain ⟨a, as, rfl⟩ := List.exists_cons_of_ne_nil h
  rfl

theorem stream_singleton (piece : List α) : stream [piece] = piece := by
  by_cases h : piece = []
  · rw [h, stream_empty_cons]
  · rw [stream_cons h, stream_nil, List.append_nil]

/-- A piece split by a reader. -/
theorem stream_drop_cons {piece : List α} {n : Nat} (h : n < piece.length)
    (pieces : List (List α)) :
    stream (piece.drop n :: pieces) = (stream (piece :: pieces)).drop n := by
  have hne : piece ≠ [] := List.ne_nil_of_length_pos (Nat.zero_lt_of_lt h)
  have hdrop : piece.drop n ≠ [] := by
    rw [Ne, List.drop_eq_nil_iff]
    omega
  rw [stream_cons hdrop, stream_cons hne, List.drop_append_of_le_length (Nat.le_of_lt h)]

end Lib
