import Mathlib.Data.List.Basic
import Proxiflare.Lib.CString

/-!
# `application/x-www-form-urlencoded`

Pairs of names and values as one text: `name=value` parts joined by `&`, with blanks as
`+` and other bytes as `%XX`. Which bytes stay as they are differs from writer to writer;
every choice that keeps clear of the separators reads back the same.
-/

namespace Lib.UrlForm

open Lib.CString

/-! ## Percent escapes -/

def hexValue (b : UInt8) : Option UInt8 :=
  if 48 ≤ b && b ≤ 57 then some (b - 48)
  else if 65 ≤ b && b ≤ 70 then some (b - 55)
  else if 97 ≤ b && b ≤ 102 then some (b - 87)
  else none

/-- The byte of two hex digits. -/
def hexByte (a b : UInt8) : Option UInt8 := do
  let hi ← hexValue a
  let lo ← hexValue b
  return 16 * hi + lo

def hexDigit (n : UInt8) : UInt8 := if n < 10 then 48 + n else 55 + n

/-- A `%` without two hex digits after it stands for itself. -/
def percentDecode : CStr → CStr
  | [] => []
  | c :: s =>
    if c = 37 then
      match s with
      | a :: b :: t =>
        match hexByte a b with
        | some x => x :: percentDecode t
        | none => 37 :: percentDecode (a :: b :: t)
      | [a] => [37, a]
      | [] => [37]
    else c :: percentDecode s

theorem percentDecode_plain {c : UInt8} (h : c ≠ 37) (s : CStr) :
    percentDecode (c :: s) = c :: percentDecode s := by
  rcases s with _ | ⟨a, _ | ⟨b, t⟩⟩ <;> simp [percentDecode, h]

theorem hexByte_digits (c : UInt8) : hexByte (hexDigit (c / 16)) (hexDigit (c % 16)) = some c := by
  have h : (fun c => hexByte (hexDigit (c / 16)) (hexDigit (c % 16))) = some :=
    ext_bytes (by decide +kernel)
  exact congrFun h c

theorem percentDecode_escape (c : UInt8) (s : CStr) :
    percentDecode (37 :: hexDigit (c / 16) :: hexDigit (c % 16) :: s) = c :: percentDecode s := by
  rw [percentDecode, if_pos rfl]
  simp only [hexByte_digits]

/-! ## Reading -/

def plusToSpace (s : CStr) : CStr := s.map fun c => if c = 43 then 32 else c

def formComponent (s : CStr) : CStr := percentDecode (plusToSpace s)

/-- The name ends at the first `=`; without one the value is empty. -/
def formPair (part : CStr) : CStr × CStr :=
  (formComponent (part.takeWhile (· ≠ 61)), formComponent ((part.dropWhile (· ≠ 61)).drop 1))

def formPairs (s : CStr) : List (CStr × CStr) := ((s.splitOn 38).filter (· ≠ [])).map formPair

/-! ## Writing -/

/-- A set of bytes that stand for themselves. -/
structure Plain where
  mem : UInt8 → Bool
  clear : [32, 37, 38, 43, 61].all (fun c => !mem c) = true

namespace Plain

variable (plain : Plain)

def quoteByte (c : UInt8) : CStr :=
  if plain.mem c then [c]
  else if c = 32 then [43]
  else [37, hexDigit (c / 16), hexDigit (c % 16)]

def quote (s : CStr) : CStr := s.flatMap plain.quoteByte

def urlencode (pairs : List (CStr × CStr)) : CStr :=
  [38].intercalate (pairs.map fun p => plain.quote p.1 ++ 61 :: plain.quote p.2)

variable {plain : Plain}

theorem ne_of_mem {c : UInt8} (h : plain.mem c = true) :
    c ≠ 32 ∧ c ≠ 37 ∧ c ≠ 38 ∧ c ≠ 43 ∧ c ≠ 61 := by
  have hclear := plain.clear
  simp only [List.all_cons, List.all_nil, Bool.and_true, Bool.and_eq_true, Bool.not_eq_true']
    at hclear
  obtain ⟨h1, h2, h3, h4, h5⟩ := hclear
  refine ⟨?_, ?_, ?_, ?_, ?_⟩ <;> rintro rfl <;> simp_all

theorem digits_clear (c : UInt8) :
    hexDigit (c / 16) ∉ [38, 43, 61] ∧ hexDigit (c % 16) ∉ [38, 43, 61] := by
  have h := forall_byte (p := fun c => !([38, 43, 61].contains (hexDigit (c / 16))) &&
    !([38, 43, 61].contains (hexDigit (c % 16)))) (by decide +kernel) c
  simpa using h

theorem clear_quoteByte (c : UInt8) : 38 ∉ plain.quoteByte c ∧ 61 ∉ plain.quoteByte c := by
  rw [quoteByte]
  split
  · next h =>
    obtain ⟨-, -, h38, -, h61⟩ := ne_of_mem h
    simp [h38.symm, h61.symm]
  · obtain ⟨hhi, hlo⟩ := digits_clear c
    simp only [List.mem_cons, not_or, List.not_mem_nil, not_false_eq_true, and_true] at hhi hlo
    split
    · decide
    · simp [Ne.symm hhi.1, Ne.symm hlo.1, Ne.symm hhi.2.2, Ne.symm hlo.2.2]

theorem formComponent_quoteByte (c : UInt8) (s : CStr) :
    formComponent (plain.quoteByte c ++ s) = c :: formComponent s := by
  rw [quoteByte]
  split
  · next h =>
    obtain ⟨-, h37, -, h43, -⟩ := ne_of_mem h
    simp [formComponent, plusToSpace, h43, percentDecode_plain h37]
  · obtain ⟨hhi, hlo⟩ := digits_clear c
    simp only [List.mem_cons, not_or, List.not_mem_nil, not_false_eq_true, and_true] at hhi hlo
    split
    · next h =>
      subst h
      simp [formComponent, plusToSpace, percentDecode_plain]
    · have hkeep : plusToSpace (37 :: hexDigit (c / 16) :: hexDigit (c % 16) :: s)
          = 37 :: hexDigit (c / 16) :: hexDigit (c % 16) :: plusToSpace s := by
        simp [plusToSpace, hhi.2.1, hlo.2.1]
      rw [formComponent, List.cons_append, List.cons_append, List.cons_append, List.nil_append,
        hkeep, percentDecode_escape, formComponent]

theorem formComponent_quote (s : CStr) : formComponent (plain.quote s) = s := by
  induction s with
  | nil => rfl
  | cons c s ih =>
    rw [quote, List.flatMap_cons, formComponent_quoteByte]
    exact congrArg (c :: ·) ih

theorem clear_quote (s : CStr) : 38 ∉ plain.quote s ∧ 61 ∉ plain.quote s := by
  refine ⟨?_, ?_⟩ <;> intro h <;> obtain ⟨c, -, hc⟩ := List.mem_flatMap.mp h
  · exact (clear_quoteByte c).1 hc
  · exact (clear_quoteByte c).2 hc

theorem formPair_quote (p : CStr × CStr) :
    formPair (plain.quote p.1 ++ 61 :: plain.quote p.2) = p := by
  have hname : ∀ c ∈ plain.quote p.1, (decide (c ≠ 61)) = true := by
    intro c hc
    have hne : c ≠ 61 := fun h => (clear_quote p.1).2 (h ▸ hc)
    simpa using hne
  rw [formPair, List.takeWhile_append_of_pos hname, List.dropWhile_append_of_pos hname]
  simp [formComponent_quote]

/-- What is written is read back. -/
theorem formPairs_urlencode (pairs : List (CStr × CStr)) :
    formPairs (plain.urlencode pairs) = pairs := by
  rcases eq_or_ne pairs [] with rfl | hne
  · rfl
  · have hparts : ∀ part ∈ pairs.map fun p => plain.quote p.1 ++ 61 :: plain.quote p.2,
        38 ∉ part ∧ part ≠ [] := by
      intro part hpart
      obtain ⟨p, -, rfl⟩ := List.mem_map.mp hpart
      have h1 : 38 ∉ plain.quote p.1 := (clear_quote p.1).1
      have h2 : 38 ∉ plain.quote p.2 := (clear_quote p.2).1
      simp [h1, h2]
    rw [formPairs, urlencode, List.splitOn_intercalate 38 (fun part h => (hparts part h).1)
      (by simpa using hne), List.filter_eq_self.mpr fun part h => by simpa using (hparts part h).2,
      List.map_map]
    exact List.map_congr_left (fun p _ => formPair_quote p) |>.trans (List.map_id _)

end Plain

end Lib.UrlForm
