import Mathlib.Data.Nat.Bitwise
import Mathlib.Tactic.IntervalCases
import Proxiflare.Daemon.Cjson
import Proxiflare.Lib.JsonDoc

/-!
# `cJSON_Parse`

The parser of `vendor/cJSON/cJSON.c`. A buffer is what is left of it from the offset on, its final
NUL included, and allocation succeeds. `strtod` gives the number at the front of a text and the
length it read, `none` where it reads nothing.
-/

namespace Proxiflare.Daemon.CjsonParse

open Lib.CString Lib.JsonDoc

variable {ν : Type}

/-- `CJSON_NESTING_LIMIT`. -/
def nestingLimit : Nat := 1000

/-- Every byte up to the blank is skipped, the final NUL too: at the end of the buffer the offset
goes back by one. -/
def skipWhitespace (b : CStr) : CStr :=
  match b.dropWhile (· ≤ 32) with
  | [] => b.drop (b.length - 1)
  | rest => rest

def skipUtf8Bom (b : CStr) : CStr :=
  if 4 < b.length && ([0xEF, 0xBB, 0xBF] : CStr).isPrefixOf b then b.drop 3 else b

/-! ## Numbers -/

/-- The bytes copied for `strtod`. The locale is C, so the point stays a point. -/
def isNumberByte (c : UInt8) : Bool :=
  isDigit c || c = 43 || c = 45 || c = 101 || c = 69 || c = 46

/-- `number_c_string` has room for 63 bytes. -/
def numberCString (b : CStr) : CStr := (b.take 63).takeWhile isNumberByte

def parseNumber (strtod : CStr → Option (ν × Nat)) (b : CStr) : Option (Cjson ν × CStr) :=
  (strtod (numberCString b)).map fun (n, len) => (.num n, b.drop len)

/-! ## Strings -/

def hexNibble (c : UInt8) : Option Nat :=
  if 48 ≤ c && c ≤ 57 then some (c.toNat - 48)
  else if 65 ≤ c && c ≤ 70 then some (10 + c.toNat - 65)
  else if 97 ≤ c && c ≤ 102 then some (10 + c.toNat - 97)
  else none

/-- A byte that is no hexadecimal digit makes the whole code 0. -/
def parseHex4 (input : CStr) : Nat :=
  ((input.take 4).foldlM (fun h c => (hexNibble c).map fun d => h <<< 4 + d) 0).getD 0

/-- The bytes after the first, written from the last on; and what is left of the code point. -/
def utf8Tail : Nat → Nat → Nat × CStr
  | 0, codepoint => (codepoint, [])
  | n + 1, codepoint =>
    let (left, bytes) := utf8Tail n (codepoint >>> 6)
    (left, bytes ++ [UInt8.ofNat ((codepoint ||| 0x80) &&& 0xBF)])

/-- The branches on the code point: how many bytes follow the first, and the mark of that one. -/
def utf8Bytes (codepoint : Nat) : Option CStr :=
  if codepoint < 0x80 then some [UInt8.ofNat (codepoint &&& 0x7F)]
  else
    let marked (n mark : Nat) : CStr :=
      let (left, bytes) := utf8Tail n codepoint
      UInt8.ofNat ((left ||| mark) &&& 0xFF) :: bytes
    if codepoint < 0x800 then some (marked 1 0xC0)
    else if codepoint < 0x10000 then some (marked 2 0xE0)
    else if codepoint ≤ 0x10FFFF then some (marked 3 0xF0)
    else none

/-- The input from a `\u` on, up to the closing quote: what is written and the length of the
literal. -/
def utf16LiteralToUtf8 (input : CStr) : Option (CStr × Nat) :=
  if input.length < 6 then none
  else
    let firstCode := parseHex4 (input.drop 2)
    if 0xDC00 ≤ firstCode ∧ firstCode ≤ 0xDFFF then none
    else if 0xD800 ≤ firstCode ∧ firstCode ≤ 0xDBFF then
      let second := input.drop 6
      if second.length < 6 then none
      else if second.take 2 ≠ [92, 117] then none
      else
        let secondCode := parseHex4 (second.drop 2)
        if secondCode < 0xDC00 ∨ 0xDFFF < secondCode then none
        else
          (utf8Bytes (0x10000 + (((firstCode &&& 0x3FF) <<< 10) ||| (secondCode &&& 0x3FF)))).map
            fun bytes => (bytes, 12)
    else (utf8Bytes firstCode).map fun bytes => (bytes, 6)

/-- The first loop of `parse_string`: how far the closing quote is. -/
def closingQuote : CStr → Option Nat
  | [] => none
  | c :: rest =>
    if c = 34 then some 0
    else if c = 92 then
      match rest with
      | [] => none
      | _ :: rest => (closingQuote rest).map (· + 2)
    else (closingQuote rest).map (· + 1)

/-- The escapes of one letter. -/
def shortEscape (c : UInt8) : Option UInt8 :=
  match c with
  | 98 => some 8
  | 102 => some 12
  | 110 => some 10
  | 114 => some 13
  | 116 => some 9
  | 34 => some 34
  | 92 => some 92
  | 47 => some 47
  | _ => none

/-- One turn of the second loop, with `n` bytes up to the closing quote: what is written and how
much of the input it takes. -/
def unescapeTurn (input : CStr) (n : Nat) : Option (CStr × Nat) :=
  match input with
  | [] => none
  | c :: rest =>
    if c ≠ 92 then some ([c], 1)
    else if rest.head? = some 117 then utf16LiteralToUtf8 (input.take n)
    else (rest.head?.bind shortEscape).map fun b => ([b], 2)

/-- At most `turns` turns; a last escape may end beyond the closing quote. -/
def unescape : (turns : Nat) → CStr → Nat → Option CStr
  | _, _, 0 => some []
  | 0, _, _ + 1 => none
  | turns + 1, input, n + 1 => do
    let (bytes, len) ← unescapeTurn input (n + 1)
    let output ← unescape turns (input.drop len) (n + 1 - len)
    some (bytes ++ output)

def parseString (b : CStr) : Option (CStr × CStr) :=
  match b with
  | 34 :: input => do
    let n ← closingQuote input
    let output ← unescape n input n
    some (output, input.drop (n + 1))
  | _ => none

/-! ## Values -/

/-- The loop over the elements of an array, after the bracket or a comma. -/
def parseElements (value : CStr → Option (Cjson ν × CStr)) :
    (turns : Nat) → CStr → Option (List (Cjson ν) × CStr)
  | 0, _ => none
  | turns + 1, b => do
    let (v, b) ← value (skipWhitespace b)
    let (vs, b) ← match skipWhitespace b with
      | 44 :: b => parseElements value turns b
      | 93 :: b => some ([], b)
      | _ => none
    some (v :: vs, b)

/-- `parse_array` after its bracket, every element read by `value`. -/
def parseArray (value : CStr → Option (Cjson ν × CStr)) (b : CStr) : Option (Cjson ν × CStr) :=
  match skipWhitespace b with
  | [] => none
  | 93 :: b => some (.arr [], b)
  | b => (parseElements value b.length b).map fun (vs, b) => (.arr vs, b)

/-- The loop over the members of an object. -/
def parseMembers (value : CStr → Option (Cjson ν × CStr)) :
    (turns : Nat) → CStr → Option (List (CStr × Cjson ν) × CStr)
  | 0, _ => none
  | turns + 1, b =>
    if b = [] then none
    else do
      let (name, b) ← parseString (skipWhitespace b)
      let (v, b) ← match skipWhitespace b with
        | 58 :: b => value (skipWhitespace b)
        | _ => none
      let (ms, b) ← match skipWhitespace b with
        | 44 :: b => parseMembers value turns b
        | 125 :: b => some ([], b)
        | _ => none
      some ((name, v) :: ms, b)

def parseObject (value : CStr → Option (Cjson ν × CStr)) (b : CStr) : Option (Cjson ν × CStr) :=
  match skipWhitespace b with
  | [] => none
  | 125 :: b => some (.obj [], b)
  | b => (parseMembers value b.length b).map fun (ms, b) => (.obj ms, b)

/-- `parse_value`, with the functions for what follows an opening bracket. -/
def parseValueWith (strtod : CStr → Option (ν × Nat)) (array object : CStr → Option (Cjson ν × CStr))
    (b : CStr) : Option (Cjson ν × CStr) :=
  if (lit "null").isPrefixOf b then some (.null, b.drop 4)
  else if (lit "false").isPrefixOf b then some (.bool false, b.drop 5)
  else if (lit "true").isPrefixOf b then some (.bool true, b.drop 4)
  else match b with
    | [] => none
    | c :: rest =>
      if c = 34 then (parseString b).map fun (s, b) => (.str s, b)
      else if c = 45 || isDigit c then parseNumber strtod b
      else if c = 91 then array rest
      else if c = 123 then object rest
      else none

/-- `levels` is how far `depth` is below its limit. -/
def parseValue (strtod : CStr → Option (ν × Nat)) : (levels : Nat) → CStr → Option (Cjson ν × CStr)
  | 0 => parseValueWith strtod (fun _ => none) (fun _ => none)
  | levels + 1 => parseValueWith strtod (parseArray (parseValue strtod levels))
      (parseObject (parseValue strtod levels))

/-- `cJSON_Parse`: what follows the first value is not looked at. -/
def cjsonParse (strtod : CStr → Option (ν × Nat)) (value : CStr) : Option (Cjson ν) :=
  (parseValue strtod nestingLimit (skipWhitespace (skipUtf8Bom (value ++ [0])))).map Prod.fst

/-! ## Blanks and numbers -/

theorem skipWhitespace_of_blanks {l b : CStr} {c : UInt8} (hl : ∀ x ∈ l, x ≤ 32) (hc : 32 < c) :
    skipWhitespace (l ++ c :: b) = c :: b := by
  have hdrop : (l ++ c :: b).dropWhile (· ≤ 32) = c :: b := by
    rw [List.dropWhile_append_of_pos fun x hx => decide_eq_true (hl x hx),
      List.dropWhile_cons_of_neg (by simpa using hc)]
  rw [skipWhitespace, hdrop]

theorem blank_le {w : CStr} (h : Lib.JsonValue.Blank w) : ∀ x ∈ w, x ≤ 32 := by
  intro x hx
  have hmem := h x hx
  simp only [List.mem_cons, List.not_mem_nil, or_false] at hmem
  rcases hmem with rfl | rfl | rfl | rfl <;> decide

theorem numberCString_append {s rest : CStr} (hlen : s.length ≤ 63)
    (hs : ∀ c ∈ s, isNumberByte c = true) (hrest : ∀ c ∈ rest.head?, isNumberByte c = false) :
    numberCString (s ++ rest) = s := by
  have hstop : (rest.take (63 - s.length)).takeWhile isNumberByte = [] := by
    rw [List.takeWhile_eq_nil_iff]
    intro hpos
    cases rest with
    | nil => simp at hpos
    | cons c rest =>
      rw [List.length_take, List.length_cons] at hpos
      obtain ⟨k, hk⟩ := Nat.exists_eq_succ_of_ne_zero (show 63 - s.length ≠ 0 by omega)
      simp [hk, hrest c rfl]
  rw [numberCString, List.take_append, List.take_of_length_le hlen,
    List.takeWhile_append_of_pos hs, hstop, List.append_nil]

/-! ## UTF-8 -/

theorem continuation_byte (n : Nat) : (n ||| 0x80) &&& 0xBF = n % 64 + 128 := by
  have hsplit : n % 64 + 128 = 2 ^ 7 * 1 ||| n % 2 ^ 6 := by
    rw [← Nat.two_pow_add_eq_or_of_lt (by omega)]
    omega
  rw [hsplit]
  refine Nat.eq_of_testBit_eq fun i => ?_
  rw [Nat.testBit_and, Nat.testBit_or, Nat.testBit_or, Nat.testBit_mod_two_pow]
  by_cases hi : i < 8
  · interval_cases i <;> simp [Nat.testBit]
  · have hhigh : ∀ m < 2 ^ 8, m.testBit i = false := fun m hm =>
      Nat.testBit_lt_two_pow (hm.trans_le (Nat.pow_le_pow_right (by decide) (by omega)))
    rw [hhigh 0xBF (by decide), hhigh (2 ^ 7 * 1) (by decide)]
    simp
    omega

theorem toNat_le (c : Char) : c.toNat ≤ 0x10FFFF := by
  rcases c.valid with h | h
  · exact Nat.le_of_lt (h.trans (by decide))
  · exact Nat.le_of_lt_succ h.2

/-- A character is no surrogate. -/
theorem toNat_cases (c : Char) : c.toNat < 0xD800 ∨ 0xDFFF < c.toNat := by
  rcases c.valid with h | h
  · exact .inl h
  · exact .inr h.1

/-- What is written for a character is its encoding. -/
theorem utf8Bytes_char (c : Char) : utf8Bytes c.toNat = some (String.utf8EncodeChar c) := by
  have hlt := toNat_le c
  have htwo : ∀ m < 32, (m ||| 0xC0) &&& 0xFF = m + 0xC0 := by decide
  have hthree : ∀ m < 16, (m ||| 0xE0) &&& 0xFF = m + 0xE0 := by decide
  have hfour : ∀ m < 8, (m ||| 0xF0) &&& 0xFF = m + 0xF0 := by decide
  have hascii : ∀ m < 128, m &&& 0x7F = m := by decide
  have hn : c.val.toNat = c.toNat := rfl
  generalize c.toNat = n at *
  unfold utf8Bytes String.utf8EncodeChar
  simp only [utf8Tail, continuation_byte, hn, Nat.shiftRight_eq_div_pow]
  by_cases h1 : n < 0x80
  · rw [if_pos h1, if_pos (by omega), hascii n h1]
  · rw [if_neg h1, if_neg (show ¬ n ≤ 0x7f by omega)]
    by_cases h2 : n < 0x800
    · have hfirst : n / 64 % 0x20 = n / 64 := by omega
      rw [if_pos h2, if_pos (show n ≤ 0x7ff by omega), htwo _ (by omega), hfirst]
      rfl
    · rw [if_neg h2, if_neg (show ¬ n ≤ 0x7ff by omega)]
      by_cases h3 : n < 0x10000
      · have hfirst : n / 4096 % 0x10 = n / 4096 := by omega
        rw [if_pos h3, if_pos (show n ≤ 0xffff by omega), hthree _ (by omega), hfirst]
        simp [Nat.div_div_eq_div_mul]
      · have hfirst : n / 262144 % 0x08 = n / 262144 := by omega
        rw [if_neg h3, if_neg (show ¬ n ≤ 0xffff by omega), if_pos hlt, hfour _ (by omega), hfirst]
        simp [Nat.div_div_eq_div_mul]

/-! ## Escapes -/

theorem hexNibble_eq {c : UInt8} (h : Lib.JsonText.isHex c = true) :
    hexNibble c = some (Lib.JsonValue.hexDigitValue c) := by
  have hall := forall_byte (p := fun c => !Lib.JsonText.isHex c ||
    (hexNibble c == some (Lib.JsonValue.hexDigitValue c))) (by decide +kernel) c
  simpa [h] using hall

theorem parseHex4_unit {ds : CStr} {n : Nat} (h : HexUnit ds n) (rest : CStr) :
    parseHex4 (ds ++ rest) = n := by
  have hfold : ∀ (ds : CStr) (h₀ : Nat), ds.all Lib.JsonText.isHex = true →
      ds.foldlM (fun h c => (hexNibble c).map fun d => h <<< 4 + d) h₀ =
        some (ds.foldl (fun n x => 16 * n + Lib.JsonValue.hexDigitValue x) h₀) := by
    intro ds
    induction ds with
    | nil => exact fun _ _ => rfl
    | cons d ds ih =>
      intro h₀ hall
      rw [List.all_cons, Bool.and_eq_true] at hall
      rw [List.foldlM_cons, hexNibble_eq hall.1, List.foldl_cons, ← ih _ hall.2, Nat.shiftLeft_eq,
        Nat.mul_comm]
      rfl
  rw [parseHex4, List.take_left' h.length, hfold ds 0 h.hex, h.value, Option.getD_some]

theorem utf16LiteralToUtf8_unicode {ds : CStr} {c : Char} (h : HexUnit ds c.toNat)
    (cs : CStr) :
    utf16LiteralToUtf8 (92 :: 117 :: (ds ++ cs)) = some (String.utf8EncodeChar c, 6) := by
  have hlen : ¬ (92 :: 117 :: (ds ++ cs)).length < 6 := by
    simp [h.length]
  have hcode : parseHex4 ((92 :: 117 :: (ds ++ cs)).drop 2) = c.toNat := parseHex4_unit h cs
  have hcases := toNat_cases c
  rw [utf16LiteralToUtf8, if_neg hlen]
  dsimp only
  rw [hcode, if_neg (by omega), if_neg (by omega), utf8Bytes_char, Option.map_some]

/-- The two units put together again. -/
theorem joined_units {c : Char} (hc : 0x10000 ≤ c.toNat) :
    0x10000 + (((highUnit c &&& 0x3FF) <<< 10) ||| (lowUnit c &&& 0x3FF)) =
      c.toNat := by
  have hmod : ∀ n, n &&& 0x3FF = n % 1024 := fun n => Nat.and_two_pow_sub_one_eq_mod n 10
  have hlt := toNat_le c
  rw [hmod, hmod, ← Nat.shiftLeft_add_eq_or_of_lt (Nat.mod_lt _ (by decide)), Nat.shiftLeft_eq,
    highUnit, lowUnit]
  omega

theorem utf16LiteralToUtf8_surrogates {hi lo : CStr} {c : Char} (hc : 0x10000 ≤ c.toNat)
    (hhi : HexUnit hi (highUnit c))
    (hlo : HexUnit lo (lowUnit c)) (cs : CStr) :
    utf16LiteralToUtf8 (92 :: 117 :: (hi ++ 92 :: 117 :: (lo ++ cs))) =
      some (String.utf8EncodeChar c, 12) := by
  have hlt := toNat_le c
  have hlen : ¬ (92 :: 117 :: (hi ++ 92 :: 117 :: (lo ++ cs))).length < 6 := by
    simp [hhi.length]
  have hfirst : parseHex4 ((92 :: 117 :: (hi ++ 92 :: 117 :: (lo ++ cs))).drop 2) =
      highUnit c := parseHex4_unit hhi _
  have hsecond : (92 :: 117 :: (hi ++ 92 :: 117 :: (lo ++ cs))).drop 6 = 92 :: 117 :: (lo ++ cs) := by
    rw [show (92 :: 117 :: (hi ++ 92 :: 117 :: (lo ++ cs))).drop 6 =
      (hi ++ 92 :: 117 :: (lo ++ cs)).drop 4 from rfl, List.drop_left' hhi.length]
  have hlen' : ¬ (92 :: 117 :: (lo ++ cs)).length < 6 := by
    simp [hlo.length]
  have hcode : parseHex4 ((92 :: 117 :: (lo ++ cs)).drop 2) = lowUnit c :=
    parseHex4_unit hlo cs
  have hhigh : 0xD800 ≤ highUnit c ∧ highUnit c ≤ 0xDBFF := by
    rw [highUnit]
    omega
  have hlow : ¬ (lowUnit c < 0xDC00 ∨ 0xDFFF < lowUnit c) := by
    rw [lowUnit]
    omega
  rw [utf16LiteralToUtf8, if_neg hlen]
  dsimp only
  rw [hfirst, if_neg (by omega), if_pos hhigh, hsecond, if_neg hlen', if_neg (by simp), hcode,
    if_neg hlow, joined_units hc, utf8Bytes_char, Option.map_some]

/-! ## Strings -/

theorem closingQuote_append {pre : CStr} (h : ∀ c ∈ pre, c ≠ 34 ∧ c ≠ 92) (t : CStr) :
    closingQuote (pre ++ t) = (closingQuote t).map (· + pre.length) := by
  induction pre with
  | nil => simp
  | cons c pre ih =>
    obtain ⟨⟨hquote, hslash⟩, hpre⟩ := List.forall_mem_cons.mp h
    rw [List.cons_append, closingQuote.eq_def, List.length_cons]
    dsimp only
    rw [if_neg hquote, if_neg hslash, ih hpre, Option.map_map]
    rfl

theorem closingQuote_slash (c : UInt8) (t : CStr) :
    closingQuote (92 :: c :: t) = (closingQuote t).map (· + 2) := by
  rw [closingQuote.eq_def]
  rfl

theorem unit_plain {ds : CStr} {n : Nat} (h : HexUnit ds n) : ∀ c ∈ ds, c ≠ 34 ∧ c ≠ 92 := by
  intro c hc
  have hhex := List.all_eq_true.mp h.hex c hc
  constructor
  · rintro rfl
    exact absurd hhex (by decide)
  · rintro rfl
    exact absurd hhex (by decide)

/-- One turn reads the first text and writes the second, whatever follows. -/
structure Turn (pre bytes : CStr) : Prop where
  ne_nil : pre ≠ []
  scanned : ∀ t, closingQuote (pre ++ t) = (closingQuote t).map (· + pre.length)
  written : ∀ t n, unescapeTurn (pre ++ t) (pre.length + n) = some (bytes, pre.length)

/-- Both loops on the text before the closing quote. -/
structure Unescapes (cs content : CStr) : Prop where
  closed : ∀ rest, closingQuote (cs ++ 34 :: rest) = some cs.length
  content : ∀ rest turns, cs.length ≤ turns →
    unescape turns (cs ++ 34 :: rest) cs.length = some content

theorem Turn.then {pre bytes cs content : CStr} (h : Turn pre bytes) (hcs : Unescapes cs content) :
    Unescapes (pre ++ cs) (bytes ++ content) := by
  obtain ⟨k, hk⟩ := Nat.exists_eq_succ_of_ne_zero (mt List.length_eq_zero_iff.mp h.ne_nil)
  constructor
  · intro rest
    rw [List.append_assoc, h.scanned, hcs.closed rest, Option.map_some, List.length_append,
      Nat.add_comm]
  · intro rest turns hturns
    rw [List.length_append] at hturns ⊢
    obtain ⟨turns, rfl⟩ := Nat.exists_eq_add_of_le' (show 1 ≤ turns by omega)
    have hturn := h.written (cs ++ 34 :: rest) cs.length
    have hn : pre.length + cs.length = k + cs.length + 1 := by omega
    have hleft : k + cs.length + 1 - pre.length = cs.length := by omega
    rw [hn] at hturn ⊢
    rw [List.append_assoc, unescape, hturn]
    dsimp only [Option.bind_eq_bind, Option.bind_some]
    rw [hleft, List.drop_left' rfl, hcs.content rest turns (by omega)]
    rfl

theorem turn_plain {b : UInt8} (hb : b ≠ 34 ∧ b ≠ 92) : Turn [b] [b] where
  ne_nil := List.cons_ne_nil b []
  scanned := closingQuote_append (List.forall_mem_singleton.mpr hb)
  written t n := by simp [unescapeTurn, hb.2]

theorem shortEscape_eq {p : UInt8 × Nat} (hp : p ∈ Lib.JsonValue.escapes) :
    p.1 ≠ 117 ∧ shortEscape p.1 = some (UInt8.ofNat p.2) := by
  simp only [Lib.JsonValue.escapes, List.mem_cons, List.not_mem_nil, or_false] at hp
  rcases hp with rfl | rfl | rfl | rfl | rfl | rfl | rfl | rfl <;> exact ⟨by decide, rfl⟩

theorem turn_escape {p : UInt8 × Nat} (hp : p ∈ Lib.JsonValue.escapes) :
    Turn [92, p.1] [UInt8.ofNat p.2] where
  ne_nil := List.cons_ne_nil 92 _
  scanned := closingQuote_slash p.1
  written t n := by
    obtain ⟨hne, hshort⟩ := shortEscape_eq hp
    simp [unescapeTurn, hne, hshort]

/-- A `\u` literal, up to the closing quote. -/
theorem unescapeTurn_unicode (ds t : CStr) (n : Nat) :
    unescapeTurn (92 :: 117 :: ds ++ t) ((92 :: 117 :: ds).length + n) =
      utf16LiteralToUtf8 (92 :: 117 :: (ds ++ t.take n)) := by
  have htake : (92 :: 117 :: ds ++ t).take ((92 :: 117 :: ds).length + n) =
      92 :: 117 :: (ds ++ t.take n) := by
    rw [List.take_length_add_append]
    rfl
  rw [List.cons_append, unescapeTurn, if_neg (by simp), if_pos (by rfl), ← List.cons_append, htake]

theorem turn_unicode {ds : CStr} {c : Char} (hd : HexUnit ds c.toNat) :
    Turn (92 :: 117 :: ds) (String.utf8EncodeChar c) where
  ne_nil := List.cons_ne_nil 92 _
  scanned t := by
    rw [List.cons_append, List.cons_append, closingQuote_slash, closingQuote_append (unit_plain hd),
      Option.map_map]
    rfl
  written t n := by
    rw [unescapeTurn_unicode, utf16LiteralToUtf8_unicode hd, List.length_cons, List.length_cons,
      hd.length]

theorem turn_surrogates {hi lo : CStr} {c : Char} (hc : 0x10000 ≤ c.toNat)
    (hhi : HexUnit hi (highUnit c)) (hlo : HexUnit lo (lowUnit c)) :
    Turn (92 :: 117 :: (hi ++ 92 :: 117 :: lo)) (String.utf8EncodeChar c) where
  ne_nil := List.cons_ne_nil 92 _
  scanned t := by
    rw [List.cons_append, List.cons_append, closingQuote_slash, List.append_assoc,
      closingQuote_append (unit_plain hhi), List.cons_append, List.cons_append, closingQuote_slash,
      closingQuote_append (unit_plain hlo), Option.map_map, Option.map_map, Option.map_map]
    simp [hhi.length, hlo.length, Function.comp_def]
  written t n := by
    rw [unescapeTurn_unicode, List.append_assoc, List.cons_append, List.cons_append,
      utf16LiteralToUtf8_surrogates hc hhi hlo]
    simp [hhi.length, hlo.length]

theorem unescapes_chars {cs content : CStr} (h : Chars cs content) : Unescapes cs content := by
  induction h with
  | nil =>
    refine ⟨fun rest => ?_, fun rest turns _ => ?_⟩
    · rw [List.nil_append, closingQuote.eq_def]
      rfl
    · cases turns <;> rfl
  | plain hb _ ih => exact (turn_plain hb.2).then ih
  | escape hp _ ih => exact (turn_escape hp).then ih
  | @unicode ds c cs s hd _ ih => exact (turn_unicode hd).then ih
  | @surrogates hi lo c cs s hc hhi hlo _ ih =>
    have h := (turn_surrogates hc hhi hlo).then ih
    rwa [List.cons_append, List.cons_append, List.append_assoc, List.cons_append,
      List.cons_append] at h

/-- A string is read up to its closing quote. -/
theorem parseString_quoted {content s : CStr} (h : Quoted content s) (rest : CStr) :
    parseString (s ++ rest) = some (content, rest) := by
  obtain ⟨cs, hcs, rfl⟩ := h
  have hun := unescapes_chars hcs
  have hdrop : (cs ++ 34 :: rest).drop (cs.length + 1) = rest := by
    rw [List.append_cons, List.drop_left' (by simp)]
  rw [List.cons_append, List.append_assoc, List.singleton_append]
  rw [parseString, hun.closed rest]
  dsimp only [Option.bind_eq_bind, Option.bind_some]
  rw [hun.content rest cs.length (Nat.le_refl _), Option.bind_some, hdrop]

end Proxiflare.Daemon.CjsonParse
