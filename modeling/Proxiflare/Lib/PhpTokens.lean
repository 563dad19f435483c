import Proxiflare.Lib.StringLiteral

/-!
# Reading PHP code

The code of a PHP program with its string literals read: the single-quoted ones and the
verbatim ones that stand on lines of their own. Line comments are no part of it. What would
start anything else (another kind of string, another comment, the end of the code) is not
read.
-/

namespace Lib.PhpTokens

open Lib.CString
open Lib.StringLiteral

inductive Token where
  | code (c : UInt8)
  | string (value : CStr)
  deriving DecidableEq

/-! ## Single quotes -/

/-- A literal from behind its opening quote on: its value and what follows it. A backslash
before any other byte than itself and the quote stands for itself. -/
def readSingle : CStr → Option (CStr × CStr)
  | [] => none
  | [c] => if c = 39 then some ([], []) else none
  | c :: e :: s =>
    if c = 39 then some ([], e :: s)
    else if c = 92 ∧ (e = 39 ∨ e = 92) then (readSingle s).map fun p => (e :: p.1, p.2)
    else (readSingle (e :: s)).map fun p => (c :: p.1, p.2)

def singleByte (c : UInt8) : CStr := if c = 39 ∨ c = 92 then [92, c] else [c]

def single (s : CStr) : CStr := 39 :: (s.flatMap singleByte ++ [39])

theorem readSingle_quote (rest : CStr) : readSingle (39 :: rest) = some ([], rest) := by
  cases rest <;> simp [readSingle]

theorem readSingle_cons {c : UInt8} (hquote : c ≠ 39) (hslash : c ≠ 92) (s : CStr) :
    readSingle (c :: s) = (readSingle s).map fun p => (c :: p.1, p.2) := by
  cases s <;> simp [readSingle, hquote, hslash]

theorem readSingle_escape {c : UInt8} (hc : c = 39 ∨ c = 92) (s : CStr) :
    readSingle (92 :: c :: s) = (readSingle s).map fun p => (c :: p.1, p.2) := by
  have h92 : (92 : UInt8) ≠ 39 := by decide
  rw [readSingle, if_neg h92, if_pos ⟨rfl, hc⟩]

theorem readSingle_flatMap (s rest : CStr) :
    readSingle (s.flatMap singleByte ++ 39 :: rest) = some (s, rest) := by
  induction s with
  | nil => exact readSingle_quote rest
  | cons c s ih =>
    rw [List.flatMap_cons, List.append_assoc, singleByte]
    by_cases hc : c = 39 ∨ c = 92
    · rw [if_pos hc, List.cons_append, List.singleton_append, readSingle_escape hc, ih,
        Option.map_some]
    · obtain ⟨hquote, hslash⟩ := not_or.mp hc
      rw [if_neg hc, List.singleton_append, readSingle_cons hquote hslash, ih, Option.map_some]

/-! ## Code -/

/-- The bytes of code that belong to no string and no comment: names, blanks, line breaks and
`$ ( ) , . ; = [ ]`. -/
def isCode (c : UInt8) : Bool :=
  isNameByte c || isBlank c || c = 10
    || ([36, 40, 41, 44, 46, 59, 61, 91, 93] : CStr).contains c

/-- What follows a line comment, which must not end the code. -/
def skipComment : CStr → Option CStr
  | [] => some []
  | c :: s =>
    if isBreak c then some (c :: s)
    else if c = 63 ∧ s.head? = some 62 then none
    else skipComment s

/-- The label and the lines of a verbatim literal, from behind its first `<` on. -/
def readOpening (s : CStr) : Option (CStr × CStr) :=
  if s.take 3 = lit "<<'" then
    let t := s.drop 3
    match t.dropWhile isNameByte with
    | 39 :: b :: rest => if isBreak b then some (t.takeWhile isNameByte, afterBreak b rest) else none
    | _ => none
  else none

/-- Every token takes a byte at least: the length of a text is fuel enough for it. -/
def lex : Nat → CStr → Option (List Token)
  | _, [] => some []
  | 0, _ :: _ => none
  | n + 1, c :: s =>
    if c = 39 then (readSingle s).bind fun p => (lex n p.2).map (.string p.1 :: ·)
    else if c = 47 then (if s.head? = some 47 then (skipComment s).bind (lex n) else none)
    else if c = 60 then
      (readOpening s).bind fun o =>
        (nowdoc o.1 o.2).bind fun p => (lex n p.2).map (.string p.1 :: ·)
    else if isCode c then (lex n s).map (.code c :: ·)
    else none

def openTag : CStr := lit "<?php"

/-- The tokens of a program that is all code. -/
def tokens (program : CStr) : Option (List Token) :=
  if program.take openTag.length = openTag then lex program.length (program.drop openTag.length)
  else none

def codeTokens (s : CStr) : List Token := s.map .code

/-! ## A text and what follows its first tokens -/

/-- With fuel enough, `s` is the tokens `ts` and then the tokens of `rest`. -/
def Leads (s : CStr) (ts : List Token) (rest : CStr) : Prop :=
  ∀ n, s.length ≤ n → ∃ m, rest.length ≤ m ∧ lex n s = (lex m rest).map (ts ++ ·)

variable {s rest rest' : CStr} {ts ts' : List Token}

theorem Leads.refl (s : CStr) : Leads s [] s := by
  intro n hn
  refine ⟨n, hn, ?_⟩
  simp

theorem Leads.trans (h : Leads s ts rest) (h' : Leads rest ts' rest') :
    Leads s (ts ++ ts') rest' := by
  intro n hn
  obtain ⟨m, hm, hlex⟩ := h n hn
  obtain ⟨k, hk, hlex'⟩ := h' m hm
  refine ⟨k, hk, ?_⟩
  rw [hlex, hlex', Option.map_map]
  congr 1
  funext us
  exact (List.append_assoc ts ts' us).symm

/-- The first token of a text leaves fuel enough for what follows it. -/
theorem Leads.of_cons {c : UInt8} (hlen : rest.length ≤ s.length)
    (h : ∀ n, s.length ≤ n → lex (n + 1) (c :: s) = (lex n rest).map (ts ++ ·)) :
    Leads (c :: s) ts rest := by
  intro n hn
  rw [List.length_cons] at hn
  obtain ⟨m, rfl⟩ : ∃ m, n = m + 1 := ⟨n - 1, by omega⟩
  exact ⟨m, by omega, h m (by omega)⟩

theorem ne_of_isCode {c : UInt8} (hc : isCode c = true) : c ≠ 39 ∧ c ≠ 47 ∧ c ≠ 60 := by
  refine ⟨?_, ?_, ?_⟩ <;> rintro rfl <;> revert hc <;> decide +kernel

theorem Leads.code {s : CStr} (hs : ∀ c ∈ s, isCode c = true) (rest : CStr) :
    Leads (s ++ rest) (codeTokens s) rest := by
  induction s with
  | nil => exact Leads.refl rest
  | cons c s ih =>
    have hrest := ih fun d hd => hs d (List.mem_cons_of_mem c hd)
    have hc := hs c List.mem_cons_self
    obtain ⟨h39, h47, h60⟩ := ne_of_isCode hc
    have hfirst : Leads (c :: (s ++ rest)) [.code c] (s ++ rest) := by
      refine Leads.of_cons le_rfl fun n _ => ?_
      rw [lex, if_neg h39, if_neg h47, if_neg h60, if_pos hc]
      rfl
    exact hfirst.trans hrest

theorem Leads.single (v rest : CStr) : Leads (single v ++ rest) [.string v] rest := by
  rw [PhpTokens.single, List.cons_append, List.append_assoc]
  refine Leads.of_cons ?_ fun n _ => ?_
  · simp only [List.length_append, List.length_singleton]
    omega
  · rw [lex, if_pos rfl, List.singleton_append, readSingle_flatMap, Option.bind_some]
    rfl

theorem skipComment_eq {s : CStr} (hs : ∀ c ∈ s, isBreak c = false ∧ c ≠ 63) (rest : CStr) :
    skipComment (s ++ 10 :: rest) = some (10 :: rest) := by
  induction s with
  | nil => rfl
  | cons c s ih =>
    obtain ⟨hbreak, hmark⟩ := hs c List.mem_cons_self
    have hne : ¬ (c = 63 ∧ (s ++ 10 :: rest).head? = some 62) := fun h => hmark h.1
    rw [List.cons_append, skipComment, hbreak, if_neg Bool.false_ne_true, if_neg hne]
    exact ih fun d hd => hs d (List.mem_cons_of_mem c hd)

/-- A comment leaves the end of its line. -/
theorem Leads.comment (hs : ∀ c ∈ s, isBreak c = false ∧ c ≠ 63) (rest : CStr) :
    Leads (lit "//" ++ s ++ 10 :: rest) [.code 10] rest := by
  have hslashes : lit "//" ++ s ++ 10 :: rest = 47 :: (47 :: s ++ 10 :: rest) := rfl
  have hskip : skipComment (47 :: s ++ 10 :: rest) = some (10 :: rest) :=
    skipComment_eq (List.forall_mem_cons.mpr ⟨by decide, hs⟩) rest
  have hfirst : Leads (47 :: (47 :: s ++ 10 :: rest)) [] (10 :: rest) := by
    refine Leads.of_cons ?_ fun n _ => ?_
    · simp only [List.length_append, List.length_cons]
      omega
    · have h47 : (47 : UInt8) ≠ 39 := by decide
      have hhead : (47 :: s ++ 10 :: rest).head? = some 47 := rfl
      rw [lex, if_neg h47, if_pos rfl, if_pos hhead, hskip, Option.bind_some]
      simp
  rw [hslashes]
  have hbreak : ∀ c ∈ ([10] : CStr), isCode c = true := by decide +kernel
  exact hfirst.trans (Leads.code hbreak rest)

/-- A text is read as its first tokens and more exactly when what follows them is read as more. -/
theorem Leads.lex_eq_some_iff (h : Leads s ts rest) {n : Nat} (hn : s.length ≤ n) :
    ∃ m, rest.length ≤ m ∧ ∀ us, lex n s = some (ts ++ us) ↔ lex m rest = some us := by
  obtain ⟨m, hm, hlex⟩ := h n hn
  refine ⟨m, hm, fun us => ?_⟩
  rw [hlex, Option.map_eq_some_iff]
  simp

theorem lex_nil (n : Nat) : lex n [] = some [] := by
  cases n <;> rfl

/-- A text with nothing behind its first tokens is these tokens. -/
theorem Leads.lex_eq (h : Leads s ts []) {n : Nat} (hn : s.length ≤ n) : lex n s = some ts := by
  obtain ⟨m, -, hlex⟩ := h n hn
  rw [hlex, lex_nil, Option.map_some, List.append_nil]

/-! ## Verbatim literals -/

theorem readOpening_eq {label : CStr} (hlabel : ∀ c ∈ label, isNameByte c = true) (s : CStr) :
    readOpening (lit "<<'" ++ label ++ lit "'\n" ++ s) = some (label, s) := by
  have hdrop : (lit "<<'" ++ label ++ lit "'\n" ++ s).drop 3 = label ++ 39 :: 10 :: s := by
    simp [lit]
  have hstop : ∀ t : CStr, (39 :: t).dropWhile isNameByte = 39 :: t ∧
      (39 :: t).takeWhile isNameByte = [] := fun t => ⟨rfl, rfl⟩
  have htake : (lit "<<'" ++ label ++ lit "'\n" ++ s).take 3 = lit "<<'" := by
    simp [lit]
  rw [readOpening, if_pos htake, hdrop]
  dsimp only
  rw [List.dropWhile_append_of_pos hlabel, List.takeWhile_append_of_pos hlabel, (hstop _).1,
    (hstop _).2, List.append_nil]
  rfl

theorem lex_nowdoc {label : CStr} (hlabel : ∀ c ∈ label, isNameByte c = true) (n : Nat) (s : CStr) :
    lex (n + 1) (lit "<<<'" ++ label ++ lit "'\n" ++ s) =
      (nowdoc label s).bind fun p => (lex n p.2).map (.string p.1 :: ·) := by
  have hopen : lit "<<<'" ++ label ++ lit "'\n" ++ s = 60 :: (lit "<<'" ++ label ++ lit "'\n" ++ s) :=
    rfl
  have h39 : (60 : UInt8) ≠ 39 := by decide
  have h47 : (60 : UInt8) ≠ 47 := by decide
  rw [hopen, lex, if_neg h39, if_neg h47, if_pos rfl, readOpening_eq hlabel, Option.bind_some]

end Lib.PhpTokens
