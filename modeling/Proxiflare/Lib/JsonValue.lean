import Mathlib.Data.Rat.Defs
import Proxiflare.Lib.JsonText

/-!
# What a JSON text denotes

Numbers denote their decimal value, strings their UTF-16 code units, and an object the
last value it gives each name. Blanks may stand around every token.
-/

namespace Lib.JsonValue

open Lib.CString
open Lib.JsonText

inductive Json where
  | null
  | bool (b : Bool)
  | num (q : ℚ)
  | str (units : List Nat)
  | arr (vs : List Json)
  | obj (get : List Nat → Option Json)

/-! ## Numbers -/

def digitsValue (ds : CStr) : Nat := ds.foldl (fun n d => 10 * n + (d.toNat - 48)) 0

/-- The digits after the point. -/
inductive FracDigits : CStr → CStr → Prop where
  | none : FracDigits [] []
  | some {ds : CStr} (h : Digits ds) : FracDigits (46 :: ds) ds

inductive ExpValue : CStr → ℤ → Prop where
  | none : ExpValue [] 0
  | pos {e : UInt8} {sign ds : CStr} (he : e ∈ [101, 69]) (hs : sign ∈ [[], [43]]) (h : Digits ds) :
      ExpValue (e :: (sign ++ ds)) (digitsValue ds)
  | neg {e : UInt8} {ds : CStr} (he : e ∈ [101, 69]) (h : Digits ds) :
      ExpValue (e :: 45 :: ds) (-digitsValue ds)

inductive NumberValue : CStr → ℚ → Prop where
  | pos {i f ds e : CStr} {x : ℤ} (hi : IntPart i) (hf : FracDigits f ds) (he : ExpValue e x) :
      NumberValue (i ++ f ++ e) (digitsValue (i ++ ds) * 10 ^ (x - ds.length))
  | neg {s : CStr} {q : ℚ} (h : NumberValue s q) : NumberValue (45 :: s) (-q)

/-! ## Strings -/

def utf16 (c : Char) : List Nat :=
  let n := c.toNat
  if n < 0x10000 then [n] else [0xD800 + (n - 0x10000) / 0x400, 0xDC00 + (n - 0x10000) % 0x400]

def hexDigitValue (b : UInt8) : Nat :=
  if isDigit b then b.toNat - 48 else if b < 97 then b.toNat - 55 else b.toNat - 87

/-- The letters after a backslash and the units they stand for. -/
def escapes : List (UInt8 × Nat) :=
  [(34, 34), (92, 92), (47, 47), (98, 8), (102, 12), (110, 10), (114, 13), (116, 9)]

inductive Units : CStr → List Nat → Prop where
  | nil : Units [] []
  | plain {c : Char} {s : CStr} {us : List Nat} (hc : 32 ≤ c.toNat ∧ c ≠ '"' ∧ c ≠ '\\')
      (hs : Units s us) : Units (String.utf8EncodeChar c ++ s) (utf16 c ++ us)
  | escape {p : UInt8 × Nat} {s : CStr} {us : List Nat} (hp : p ∈ escapes) (hs : Units s us) :
      Units (92 :: p.1 :: s) (p.2 :: us)
  | unicode {a b c d : UInt8} {s : CStr} {us : List Nat} (h : [a, b, c, d].all isHex = true)
      (hs : Units s us) :
      Units (92 :: 117 :: a :: b :: c :: d :: s)
        ([a, b, c, d].foldl (fun n x => 16 * n + hexDigitValue x) 0 :: us)

inductive StrUnits : CStr → List Nat → Prop where
  | quoted {cs : CStr} {us : List Nat} (h : Units cs us) : StrUnits (34 :: cs ++ [34]) us

/-! ## Values -/

def Blank (s : CStr) : Prop := ∀ b ∈ s, b ∈ [32, 9, 10, 13]

/-- The last value that the members of an object give a name. -/
def lastValue (members : List (List Nat × Json)) (name : List Nat) : Option Json :=
  (members.reverse.find? (·.1 == name)).map (·.2)

mutual

inductive Value : CStr → Json → Prop where
  | null : Value (lit "null") .null
  | true : Value (lit "true") (.bool .true)
  | false : Value (lit "false") (.bool .false)
  | number {s : CStr} {q : ℚ} (h : NumberValue s q) : Value s (.num q)
  | string {s : CStr} {us : List Nat} (h : StrUnits s us) : Value s (.str us)
  | emptyArray {w : CStr} (hw : Blank w) : Value (91 :: w ++ [93]) (.arr [])
  | array {s : CStr} {vs : List Json} (h : Items s vs) : Value (91 :: s ++ [93]) (.arr vs)
  | emptyObject {w : CStr} (hw : Blank w) : Value (123 :: w ++ [125]) (.obj (lastValue []))
  | object {s : CStr} {ms : List (List Nat × Json)} (h : Members s ms) :
      Value (123 :: s ++ [125]) (.obj (lastValue ms))

/-- A value with blanks around it. -/
inductive Text : CStr → Json → Prop where
  | blanks {l s r : CStr} {v : Json} (hl : Blank l) (h : Value s v) (hr : Blank r) :
      Text (l ++ s ++ r) v

inductive Items : CStr → List Json → Prop where
  | one {s : CStr} {v : Json} (h : Text s v) : Items s [v]
  | cons {s t : CStr} {v : Json} {vs : List Json} (h : Text s v) (hs : Items t vs) :
      Items (s ++ 44 :: t) (v :: vs)

inductive Members : CStr → List (List Nat × Json) → Prop where
  | one {l k r s : CStr} {name : List Nat} {v : Json} (hl : Blank l) (hk : StrUnits k name)
      (hr : Blank r) (h : Text s v) : Members (l ++ k ++ r ++ 58 :: s) [(name, v)]
  | cons {l k r s t : CStr} {name : List Nat} {v : Json} {ms : List (List Nat × Json)}
      (hl : Blank l) (hk : StrUnits k name) (hr : Blank r) (h : Text s v) (hs : Members t ms) :
      Members (l ++ k ++ r ++ 58 :: (s ++ 44 :: t)) ((name, v) :: ms)

end

def IsJson (s : CStr) : Prop := ∃ v, Text s v

/-- Both are JSON texts and denote the same value. -/
def SameValue (s t : CStr) : Prop := ∃ v, Text s v ∧ Text t v

/-! ## The end of a text -/

theorem noReturn_of_digits {ds : CStr} (h : Digits ds) : 13 ∉ ds :=
  fun hmem => by simpa [isDigit] using h.2 13 hmem

theorem FracDigits.noReturn {f ds : CStr} (h : FracDigits f ds) : 13 ∉ f := by
  cases h with
  | none => exact List.not_mem_nil
  | some h => simpa using noReturn_of_digits h

theorem ExpValue.noReturn {e : CStr} {x : ℤ} (h : ExpValue e x) : 13 ∉ e := by
  cases h with
  | none => exact List.not_mem_nil
  | pos hmark hsign h =>
    simp only [List.mem_cons, List.not_mem_nil, or_false] at hmark hsign
    rcases hmark with rfl | rfl <;> rcases hsign with rfl | rfl <;> simpa using noReturn_of_digits h
  | neg hmark h =>
    simp only [List.mem_cons, List.not_mem_nil, or_false] at hmark
    rcases hmark with rfl | rfl <;> simpa using noReturn_of_digits h

theorem NumberValue.noReturn {s : CStr} {q : ℚ} (h : NumberValue s q) : 13 ∉ s := by
  induction h with
  | pos hi hf he => simp [noReturn_of_digits hi.1, hf.noReturn, he.noReturn]
  | neg _ ih => simpa using ih

theorem Value.getLast?_ne {s : CStr} {v : Json} (h : Value s v) : s.getLast? ≠ some 13 := by
  have hclosed : ∀ {b : UInt8} (s : CStr), b ≠ 13 → (s ++ [b]).getLast? ≠ some 13 := by simp
  cases h with
  | null => decide
  | true => decide
  | false => decide
  | number h => exact fun hlast => h.noReturn (List.mem_of_getLast? hlast)
  | string h =>
    cases h
    exact hclosed _ (by decide)
  | emptyArray _ => exact hclosed _ (by decide)
  | array _ => exact hclosed _ (by decide)
  | emptyObject _ => exact hclosed _ (by decide)
  | object _ => exact hclosed _ (by decide)

theorem Value.ne_nil {s : CStr} {v : Json} (h : Value s v) : s ≠ [] := by
  cases h with
  | null => decide
  | true => decide
  | false => decide
  | number h =>
    cases h with
    | pos hi _ _ => simp [hi.1.1]
    | neg _ => simp
  | string h =>
    cases h
    simp
  | emptyArray _ => simp
  | array _ => simp
  | emptyObject _ => simp
  | object _ => simp

/-- A carriage return at the end changes nothing. -/
theorem text_concat_return {s : CStr} {v : Json} : Text (s ++ [13]) v ↔ Text s v := by
  constructor
  · intro h
    generalize ht : s ++ [13] = t at h
    cases h with
    | @blanks l w r _ hl hw hr =>
      rcases List.eq_nil_or_concat r with rfl | ⟨r, b, rfl⟩
      · have hlast := congrArg List.getLast? ht
        rw [List.append_nil, List.getLast?_concat, List.getLast?_append_of_ne_nil _ hw.ne_nil] at hlast
        exact absurd hlast.symm hw.getLast?_ne
      · rw [List.concat_eq_append] at ht hr
        rw [← List.append_assoc] at ht
        obtain ⟨rfl, -⟩ := List.append_inj' ht rfl
        exact .blanks hl hw fun b hb => hr b (List.mem_append_left _ hb)
  · rintro ⟨hl, hw, hr⟩
    rw [List.append_assoc]
    refine .blanks hl hw fun b hb => ?_
    rcases List.mem_append.mp hb with hb | hb
    · exact hr b hb
    · simp_all

end Lib.JsonValue
