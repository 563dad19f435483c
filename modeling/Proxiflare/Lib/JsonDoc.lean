import Proxiflare.Lib.JsonValue

/-!
# JSON documents

A document keeps what a text says: its numbers as they are written, its strings as the bytes they
stand for, the members of an object in order, repeated names included. `Spells d s` says that the
text `s` is `d` with some choice of blanks and escapes.
-/

namespace Lib.JsonDoc

open Lib.CString Lib.JsonText
open Lib.JsonValue (Blank escapes hexDigitValue)

inductive Doc where
  | null
  | bool (b : Bool)
  | num (text : CStr)
  | str (s : CStr)
  | arr (items : List Doc)
  | obj (members : List (CStr × Doc))

/-! ## Strings -/

/-- Four hexadecimal digits of this value. -/
structure HexUnit (ds : CStr) (n : Nat) : Prop where
  length : ds.length = 4
  hex : ds.all isHex = true
  value : ds.foldl (fun n x => 16 * n + hexDigitValue x) 0 = n

/-- The two units of a character above the first plane. -/
def highUnit (c : Char) : Nat := 0xD800 + (c.toNat - 0x10000) / 0x400

def lowUnit (c : Char) : Nat := 0xDC00 + (c.toNat - 0x10000) % 0x400

/-- The first text, between quotes, stands for the second. -/
inductive Chars : CStr → CStr → Prop where
  | nil : Chars [] []
  | plain {b : UInt8} {cs s : CStr} (hb : 32 ≤ b ∧ b ≠ 34 ∧ b ≠ 92) (h : Chars cs s) :
      Chars (b :: cs) (b :: s)
  | escape {p : UInt8 × Nat} {cs s : CStr} (hp : p ∈ escapes) (h : Chars cs s) :
      Chars (92 :: p.1 :: cs) (UInt8.ofNat p.2 :: s)
  | unicode {ds : CStr} {c : Char} {cs s : CStr} (hd : HexUnit ds c.toNat) (h : Chars cs s) :
      Chars (92 :: 117 :: (ds ++ cs)) (String.utf8EncodeChar c ++ s)
  | surrogates {hi lo : CStr} {c : Char} {cs s : CStr} (hc : 0x10000 ≤ c.toNat)
      (hhi : HexUnit hi (highUnit c)) (hlo : HexUnit lo (lowUnit c)) (h : Chars cs s) :
      Chars (92 :: 117 :: (hi ++ 92 :: 117 :: (lo ++ cs))) (String.utf8EncodeChar c ++ s)

def Quoted (content s : CStr) : Prop := ∃ cs, Chars cs content ∧ s = 34 :: (cs ++ [34])

/-! ## Documents -/

/-- Such a text with blanks around it. -/
def Padded (p : CStr → Prop) (s : CStr) : Prop :=
  ∃ l t r, Blank l ∧ p t ∧ Blank r ∧ s = l ++ t ++ r

mutual

def Spells : Doc → CStr → Prop
  | .null, s => s = lit "null"
  | .bool b, s => s = if b then lit "true" else lit "false"
  | .num text, s => Number text ∧ s = text
  | .str content, s => Quoted content s
  | .arr [], s => ∃ w, Blank w ∧ s = 91 :: (w ++ [93])
  | .arr (d :: ds), s =>
    ∃ e rest, Padded (Spells d) e ∧ SpellsItems ds rest ∧ s = 91 :: (e ++ rest ++ [93])
  | .obj [], s => ∃ w, Blank w ∧ s = 123 :: (w ++ [125])
  | .obj ((name, d) :: ms), s =>
    ∃ k e rest, Padded (Quoted name) k ∧ Padded (Spells d) e ∧ SpellsMembers ms rest ∧
      s = 123 :: (k ++ 58 :: (e ++ rest ++ [125]))

/-- The further elements of an array. -/
def SpellsItems : List Doc → CStr → Prop
  | [], s => s = []
  | d :: ds, s => ∃ e rest, Padded (Spells d) e ∧ SpellsItems ds rest ∧ s = 44 :: (e ++ rest)

def SpellsMembers : List (CStr × Doc) → CStr → Prop
  | [], s => s = []
  | (name, d) :: ms, s =>
    ∃ k e rest, Padded (Quoted name) k ∧ Padded (Spells d) e ∧ SpellsMembers ms rest ∧
      s = 44 :: (k ++ 58 :: (e ++ rest))

end

/-- A whole text. -/
def Text (d : Doc) (s : CStr) : Prop := Padded (Spells d) s

mutual

/-- How deep the arrays and objects are nested. -/
def Doc.depth : Doc → Nat
  | .arr items => depthItems items + 1
  | .obj members => depthMembers members + 1
  | .null => 0
  | .bool _ => 0
  | .num _ => 0
  | .str _ => 0

def depthItems : List Doc → Nat
  | [] => 0
  | d :: ds => max d.depth (depthItems ds)

def depthMembers : List (CStr × Doc) → Nat
  | [] => 0
  | (_, d) :: ms => max d.depth (depthMembers ms)

end

mutual

/-- The texts of its numbers. -/
def Doc.numbers : Doc → List CStr
  | .num text => [text]
  | .arr items => numbersItems items
  | .obj members => numbersMembers members
  | .null => []
  | .bool _ => []
  | .str _ => []

def numbersItems : List Doc → List CStr
  | [] => []
  | d :: ds => d.numbers ++ numbersItems ds

def numbersMembers : List (CStr × Doc) → List CStr
  | [] => []
  | (_, d) :: ms => d.numbers ++ numbersMembers ms

end

theorem mem_numbersItems {t : CStr} {ds : List Doc} :
    t ∈ numbersItems ds ↔ ∃ d ∈ ds, t ∈ d.numbers := by
  induction ds with
  | nil => simp [numbersItems]
  | cons d ds ih => simp [numbersItems, ih]

theorem mem_numbersMembers {t : CStr} {ms : List (CStr × Doc)} :
    t ∈ numbersMembers ms ↔ ∃ m ∈ ms, t ∈ m.2.numbers := by
  induction ms with
  | nil => simp [numbersMembers]
  | cons m ms ih => simp [numbersMembers, ih]

/-! ## The first byte -/

theorem Number.head {s : CStr} (h : Number s) :
    ∃ c rest, s = c :: rest ∧ (c = 45 ∨ isDigit c = true) := by
  obtain ⟨sign, i, f, e, hsign, ⟨⟨hne, hdigits⟩, -⟩, -, -, rfl⟩ := h
  obtain ⟨d, ds, rfl⟩ := List.exists_cons_of_ne_nil hne
  rcases List.mem_cons.mp hsign with rfl | hminus
  · exact ⟨d, ds ++ f ++ e, rfl, .inr (hdigits d List.mem_cons_self)⟩
  · obtain rfl := List.mem_singleton.mp hminus
    exact ⟨45, d :: ds ++ f ++ e, rfl, .inl rfl⟩

theorem isDigit_iff {c : UInt8} : isDigit c = true ↔ 48 ≤ c.toNat ∧ c.toNat ≤ 57 := by
  rw [isDigit, Bool.and_eq_true, decide_eq_true_eq, decide_eq_true_eq]
  exact Iff.rfl

/-- What a value begins with is an ASCII byte, no blank, and closes nothing. -/
theorem Spells.head {d : Doc} {s : CStr} (h : Spells d s) :
    ∃ c rest, s = c :: rest ∧ 32 < c ∧ c < 128 ∧ c ≠ 93 ∧ c ≠ 125 := by
  cases d with
  | null =>
    rw [Spells] at h
    exact ⟨110, lit "ull", h, by decide⟩
  | bool b =>
    rw [Spells] at h
    cases b
    · exact ⟨102, lit "alse", h, by decide⟩
    · exact ⟨116, lit "rue", h, by decide⟩
  | num text =>
    rw [Spells] at h
    obtain ⟨hnumber, rfl⟩ := h
    obtain ⟨c, rest, rfl, rfl | hdigit⟩ := Number.head hnumber
    · exact ⟨45, rest, rfl, by decide⟩
    · have hc := isDigit_iff.mp hdigit
      refine ⟨c, rest, rfl, ?_, ?_, ?_, ?_⟩
      · show 32 < c.toNat
        omega
      · show c.toNat < 128
        omega
      · exact fun h => absurd (h ▸ hc) (by decide)
      · exact fun h => absurd (h ▸ hc) (by decide)
  | str content =>
    rw [Spells] at h
    obtain ⟨cs, -, rfl⟩ := h
    exact ⟨34, cs ++ [34], rfl, by decide⟩
  | arr items =>
    cases items with
    | nil =>
      rw [Spells] at h
      obtain ⟨w, -, rfl⟩ := h
      exact ⟨91, w ++ [93], rfl, by decide⟩
    | cons d ds =>
      rw [Spells] at h
      obtain ⟨e, rest, -, -, rfl⟩ := h
      exact ⟨91, e ++ rest ++ [93], rfl, by decide⟩
  | obj members =>
    cases members with
    | nil =>
      rw [Spells] at h
      obtain ⟨w, -, rfl⟩ := h
      exact ⟨123, w ++ [125], rfl, by decide⟩
    | cons m ms =>
      rw [Spells] at h
      obtain ⟨k, e, rest, -, -, -, rfl⟩ := h
      exact ⟨123, k ++ 58 :: (e ++ rest ++ [125]), rfl, by decide⟩

end Lib.JsonDoc
