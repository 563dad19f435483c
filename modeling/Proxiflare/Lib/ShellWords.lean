import Mathlib.Data.List.Basic
import Proxiflare.Lib.CString

/-!
# Reading a shell script

The commands of a POSIX shell script as lists of words: lines and blanks, comments, the
backslash and single quotes. Every other byte that means something to the shell where it
stands unquoted (an operator, an expansion, a pattern, an assignment, a double quote) is
not read, so a script that is read runs the commands listed and nothing else.
-/

namespace Lib.ShellWords

open Lib.CString

/-- Where a reader stands: before a word, in a comment, in a word, between single quotes in
a word, or after a backslash in a word or before one. -/
inductive Mode where
  | between
  | comment
  | word (w : CStr)
  | quoted (w : CStr)
  | escaped (w : Option CStr)
  deriving DecidableEq

structure Reader where
  commands : List (List CStr)
  words : List CStr
  mode : Mode
  deriving DecidableEq

namespace Reader

/-- The end of a word, if one is open. -/
def endWord (r : Reader) : Reader :=
  match r.mode with
  | .word w => ⟨r.commands, r.words ++ [w], .between⟩
  | _ => ⟨r.commands, r.words, .between⟩

/-- The end of a command; an empty line is none. -/
def endCommand (r : Reader) : Reader :=
  match r.endWord.words with
  | [] => ⟨r.commands, [], .between⟩
  | words => ⟨r.commands ++ [words], [], .between⟩

end Reader

/-- The bytes that always stand for themselves: letters, digits and `% + , - . / : @ _`. -/
def isPlain (c : UInt8) : Bool :=
  isDigit c || (65 ≤ c && c ≤ 90) || (97 ≤ c && c ≤ 122)
    || ([37, 43, 44, 45, 46, 47, 58, 64, 95] : CStr).contains c

/-- An unquoted byte after the word `w`, or before any word. -/
def stepPlain (r : Reader) (w : Option CStr) (c : UInt8) : Option Reader :=
  if c = 10 then some r.endCommand
  else if c = 32 || c = 9 then some r.endWord
  else if c = 39 then some ⟨r.commands, r.words, .quoted (w.getD [])⟩
  else if c = 92 then some ⟨r.commands, r.words, .escaped w⟩
  else if c = 35 && w.isNone then some ⟨r.commands, r.words, .comment⟩
  else if isPlain c then some ⟨r.commands, r.words, .word (w.getD [] ++ [c])⟩
  else none

/-- What the next byte does. A backslash joins two lines, in a word and between words. -/
def step (r : Reader) (c : UInt8) : Option Reader :=
  match r.mode with
  | .between => stepPlain r none c
  | .word w => stepPlain r (some w) c
  | .comment => if c = 10 then some r.endCommand else some r
  | .quoted w =>
    some ⟨r.commands, r.words, if c = 39 then .word w else .quoted (w ++ [c])⟩
  | .escaped w =>
    if c = 10 then some ⟨r.commands, r.words, w.elim .between .word⟩
    else some ⟨r.commands, r.words, .word (w.getD [] ++ [c])⟩

def read (r : Reader) (s : CStr) : Option Reader := s.foldlM step r

def start : Reader := ⟨[], [], .between⟩

/-- A script must not end between quotes or after a backslash. -/
def finish (r : Reader) : Option (List (List CStr)) :=
  match r.mode with
  | .quoted _ => none
  | .escaped _ => none
  | _ => some r.endCommand.commands

def commands (script : CStr) : Option (List (List CStr)) := (read start script).bind finish

/-! ## Single quotes -/

/-- A quote in a text is written outside the quotes, after a backslash. -/
def quoteByte (c : UInt8) : CStr := if c = 39 then [39, 92, 39, 39] else [c]

def quote (s : CStr) : CStr := 39 :: (s.flatMap quoteByte ++ [39])

variable {cs : List (List CStr)} {ws : List CStr}

theorem read_append (r : Reader) (s t : CStr) :
    read r (s ++ t) = (read r s).bind fun r => read r t := List.foldlM_append

theorem read_cons (r : Reader) (c : UInt8) (s : CStr) :
    read r (c :: s) = (step r c).bind fun r => read r s := List.foldlM_cons

/-- A part that is read leaves the rest of the script to the reader it ends in. -/
theorem read_append_of {r r' : Reader} {s : CStr} (h : read r s = some r') (t : CStr) :
    read r (s ++ t) = read r' t := by
  rw [read_append, h, Option.bind_some]

theorem read_quoteByte (w : CStr) (c : UInt8) :
    read ⟨cs, ws, .quoted w⟩ (quoteByte c) = some ⟨cs, ws, .quoted (w ++ [c])⟩ := by
  by_cases hc : c = 39
  · subst hc
    rfl
  · have hstep : step ⟨cs, ws, .quoted w⟩ c = some ⟨cs, ws, .quoted (w ++ [c])⟩ := by
      simp only [step, if_neg hc]
    rw [quoteByte, if_neg hc, read_cons, hstep]
    rfl

theorem read_flatMap (w s : CStr) :
    read ⟨cs, ws, .quoted w⟩ (s.flatMap quoteByte) = some ⟨cs, ws, .quoted (w ++ s)⟩ := by
  induction s generalizing w with
  | nil =>
    rw [List.append_nil]
    rfl
  | cons c s ih =>
    rw [List.flatMap_cons, read_append_of (read_quoteByte w c), ih, List.append_assoc]
    rfl

/-- A quoted text is one word, the text itself, whatever bytes it holds. -/
theorem read_quote (s : CStr) :
    read ⟨cs, ws, .between⟩ (quote s) = some ⟨cs, ws, .word s⟩ := by
  have hopen : step ⟨cs, ws, .between⟩ 39 = some ⟨cs, ws, .quoted []⟩ := rfl
  rw [quote, read_cons, hopen, Option.bind_some, read_append_of (read_flatMap [] s),
    List.nil_append]
  rfl

/-! ## Plain words and line ends -/

theorem stepPlain_of_isPlain {r : Reader} {w : Option CStr} {c : UInt8} (hc : isPlain c = true) :
    stepPlain r w c = some ⟨r.commands, r.words, .word (w.getD [] ++ [c])⟩ := by
  have hspecial : c ≠ 10 ∧ c ≠ 32 ∧ c ≠ 9 ∧ c ≠ 39 ∧ c ≠ 92 ∧ c ≠ 35 := by
    refine ⟨?_, ?_, ?_, ?_, ?_, ?_⟩ <;> rintro rfl <;> revert hc <;> decide +kernel
  obtain ⟨h10, h32, h9, h39, h92, h35⟩ := hspecial
  simp [stepPlain, h10, h32, h9, h39, h92, h35, hc]

theorem read_plain (w : CStr) {s : CStr} (hs : ∀ c ∈ s, isPlain c = true) :
    read ⟨cs, ws, .word w⟩ s = some ⟨cs, ws, .word (w ++ s)⟩ := by
  induction s generalizing w with
  | nil =>
    rw [List.append_nil]
    rfl
  | cons c s ih =>
    have hstep : step ⟨cs, ws, .word w⟩ c = some ⟨cs, ws, .word (w ++ [c])⟩ :=
      stepPlain_of_isPlain (hs c List.mem_cons_self)
    rw [read_cons, hstep, Option.bind_some, ih _ fun d hd => hs d (List.mem_cons_of_mem _ hd),
      List.append_assoc]
    rfl

theorem read_word {s : CStr} (hne : s ≠ []) (hs : ∀ c ∈ s, isPlain c = true) :
    read ⟨cs, ws, .between⟩ s = some ⟨cs, ws, .word s⟩ := by
  cases s with
  | nil => exact absurd rfl hne
  | cons c s =>
    have hstep : step ⟨cs, ws, .between⟩ c = some ⟨cs, ws, .word [c]⟩ :=
      stepPlain_of_isPlain (hs c List.mem_cons_self)
    rw [read_cons, hstep, Option.bind_some, read_plain _ fun d hd => hs d (List.mem_cons_of_mem _ hd)]
    rfl

/-- A blank ends a word. -/
theorem read_blank (w : CStr) :
    read ⟨cs, ws, .word w⟩ [32] = some ⟨cs, ws ++ [w], .between⟩ := rfl

/-- A backslash at the end of a line goes on with the next line. -/
theorem read_continuation (w : CStr) :
    read ⟨cs, ws, .word w⟩ (lit " \\\n") = some ⟨cs, ws ++ [w], .between⟩ := rfl

theorem read_indent (s : CStr) :
    read ⟨cs, ws, .between⟩ (lit "  " ++ s) = read ⟨cs, ws, .between⟩ s := rfl

/-- A script that ends in a word has that command as its last. -/
theorem finish_word (w : CStr) : finish ⟨cs, ws, .word w⟩ = some (cs ++ [ws ++ [w]]) := by
  cases ws <;> rfl

end Lib.ShellWords
