import Mathlib.Data.List.Infix
import Proxiflare.Lib.StringLiteral

/-!
# String expressions of Go

A sum of literals on one line of code: raw ones between backquotes, which may hold line
breaks, and interpreted ones between double quotes. A raw literal holds every byte but the
backquote, and its carriage returns are no part of its value.
-/

namespace Lib.GoStrings

open Lib.CString
open Lib.StringLiteral

/-- Where a reader stands: before a literal, in a literal of either kind, after the
backslash of an escape, or after a literal. -/
inductive Mode where
  | operand
  | raw
  | interpreted
  | escaped
  | after
  deriving DecidableEq

structure Reader where
  value : CStr
  mode : Mode
  deriving DecidableEq

/-- The letters of the escapes that stand for one byte. -/
def escapes : List (UInt8 × UInt8) :=
  [(92, 92), (34, 34), (10, 110), (13, 114), (9, 116), (7, 97), (8, 98), (12, 102), (11, 118)]

/-- What the next byte does. A line break between tokens ends the expression unless it
follows a `+`. -/
def step (r : Reader) (c : UInt8) : Option Reader :=
  match r.mode with
  | .operand =>
    if c = 96 then some ⟨r.value, .raw⟩
    else if c = 34 then some ⟨r.value, .interpreted⟩
    else if isBlank c || isBreak c then some r
    else none
  | .raw =>
    if c = 96 then some ⟨r.value, .after⟩
    else if c = 13 then some r
    else some ⟨r.value ++ [c], .raw⟩
  | .interpreted =>
    if c = 34 then some ⟨r.value, .after⟩
    else if c = 92 then some ⟨r.value, .escaped⟩
    else if c = 10 then none
    else some ⟨r.value ++ [c], .interpreted⟩
  | .escaped =>
    (escapes.find? (·.2 == c)).map fun p => ⟨r.value ++ [p.1], .interpreted⟩
  | .after =>
    if c = 43 then some ⟨r.value, .operand⟩
    else if isBlank c || c = 13 then some r
    else none

def read (r : Reader) (s : CStr) : Option Reader := s.foldlM step r

def start : Reader := ⟨[], .operand⟩

def byteOrderMark : CStr := [239, 187, 191]

/-- The value of an expression in a source that is UTF-8. Go takes no source with a NUL, or
with a byte-order mark after its beginning. -/
def value (s : CStr) : Option CStr :=
  if 0 ∈ s ∨ (strstr s byteOrderMark).isSome then none
  else (read start s).bind fun r => if r.mode = .after then some r.value else none

/-! ## Texts written as raw literals -/

/-- A backquote stands in a literal of its own between two raw ones. -/
def rawByte (c : UInt8) : CStr := if c = 96 then lit "\x60 + \"\x60\" + \x60" else [c]

def rawQuote (s : CStr) : CStr := 96 :: (s.flatMap rawByte ++ [96])

theorem read_append (r : Reader) (s t : CStr) :
    read r (s ++ t) = (read r s).bind fun r => read r t := List.foldlM_append

theorem read_rawByte (v : CStr) (c : UInt8) :
    read ⟨v, .raw⟩ (rawByte c) = some ⟨v ++ [c].filter (· ≠ 13), .raw⟩ := by
  rw [rawByte]
  by_cases hquote : c = 96
  · subst hquote
    rfl
  · by_cases hreturn : c = 13
    · subst hreturn
      rw [if_neg hquote, List.filter_cons_of_neg (by decide), List.filter_nil, List.append_nil]
      rfl
    · have hkept : [c].filter (· ≠ 13) = [c] := by simp [hreturn]
      rw [if_neg hquote, hkept, read, List.foldlM_cons]
      simp [step, hquote, hreturn]

theorem read_flatMap (v s : CStr) :
    read ⟨v, .raw⟩ (s.flatMap rawByte) = some ⟨v ++ s.filter (· ≠ 13), .raw⟩ := by
  induction s generalizing v with
  | nil =>
    rw [List.filter_nil, List.append_nil]
    rfl
  | cons c s ih =>
    rw [List.flatMap_cons, read_append, read_rawByte, Option.bind_some, ih, List.append_assoc,
      ← List.filter_append, List.singleton_append]

theorem read_rawQuote (s : CStr) :
    read start (rawQuote s) = some ⟨s.filter (· ≠ 13), .after⟩ := by
  have hopen : ∀ t, read start (96 :: t) = read ⟨[], .raw⟩ t := fun _ => rfl
  rw [rawQuote, hopen, read_append, read_flatMap, Option.bind_some, List.nil_append]
  rfl

/-! ## What a source may not hold -/

theorem mem_rawByte {a c : UInt8} (h : a ∈ rawByte c) : a ∈ rawByte 96 ∨ a = c := by
  by_cases hquote : c = 96
  · exact .inl (hquote ▸ h)
  · rw [rawByte, if_neg hquote] at h
    exact .inr (List.mem_singleton.mp h)

variable {needle : CStr} {f : UInt8 → CStr}

/-- Where each byte is kept or becomes a text without bytes of the needle, the needle starts a
text only if it started what the text was made of. -/
theorem prefix_of_prefix_flatMap
    (hf : ∀ b, f b = [b] ∨ f b ≠ [] ∧ ∀ c ∈ f b, c ∉ needle) {s : CStr}
    (h : needle <+: s.flatMap f) : needle <+: s := by
  induction needle generalizing s with
  | nil => exact List.nil_prefix
  | cons d needle ih =>
    cases s with
    | nil => exact h
    | cons b s =>
      rw [List.flatMap_cons] at h
      rcases hf b with hkept | ⟨hne, hfree⟩
      · rw [hkept, List.singleton_append, List.cons_prefix_cons] at h
        refine List.cons_prefix_cons.mpr ⟨h.1, ih (fun b => ?_) h.2⟩
        exact (hf b).imp_right fun hb =>
          ⟨hb.1, fun c hc => List.not_mem_of_not_mem_cons (hb.2 c hc)⟩
      · obtain ⟨c, rest, hc⟩ := List.exists_cons_of_ne_nil hne
        rw [hc, List.cons_append, List.cons_prefix_cons] at h
        have hcmem : c ∈ f b := by simp [hc]
        exact absurd (h.1 ▸ List.mem_cons_self) (hfree c hcmem)

theorem infix_of_infix_flatMap (hne : needle ≠ [])
    (hf : ∀ b, f b = [b] ∨ f b ≠ [] ∧ ∀ c ∈ f b, c ∉ needle) {s : CStr}
    (h : needle <:+: s.flatMap f) : needle <:+: s := by
  induction s with
  | nil => exact h
  | cons b s ih =>
    rw [List.flatMap_cons] at h
    rcases hf b with hkept | ⟨-, hfree⟩
    · rw [hkept, List.singleton_append, List.infix_cons_iff] at h
      refine List.infix_cons_iff.mpr (h.imp (fun hp => ?_) ih)
      refine prefix_of_prefix_flatMap hf (s := b :: s) ?_
      rwa [List.flatMap_cons, hkept]
    · have hrest : needle <:+: s.flatMap f := by
        generalize f b = block at h hfree
        induction block with
        | nil => exact h
        | cons c block ihb =>
          have hc : c ∉ needle := hfree c List.mem_cons_self
          rcases (infix_append_sep_iff (a := []) hc).mp h with hnil | hin
          · exact absurd (List.infix_nil.mp hnil) hne
          · exact ihb hin fun d hd => hfree d (List.mem_cons_of_mem c hd)
      exact (ih hrest).trans (List.suffix_cons b s).isInfix

/-- A text without NUL and byte-order mark is read back without its carriage returns. -/
theorem value_rawQuote {s : CStr} (hnul : 0 ∉ s) (hbom : ¬ byteOrderMark <:+: s) :
    value (rawQuote s) = some (s.filter (· ≠ 13)) := by
  have hnul' : 0 ∉ rawQuote s := by
    simp only [rawQuote, List.mem_cons, List.mem_append, List.mem_flatMap, List.not_mem_nil,
      or_false, not_or, not_exists, not_and]
    refine ⟨by decide, fun c hc h0 => ?_, by decide⟩
    rcases mem_rawByte h0 with hmark | rfl
    · exact absurd hmark (by decide)
    · exact hnul hc
  have hbom' : ¬ byteOrderMark <:+: rawQuote s := by
    intro h
    have h96 : (96 : UInt8) ∉ byteOrderMark := by decide
    rcases (infix_append_sep_iff (a := []) h96).mp h with hnil | hin
    · exact absurd (List.infix_nil.mp hnil) (by decide)
    · rcases (infix_append_sep_iff (b := []) h96).mp hin with hin | hnil
      · refine hbom (infix_of_infix_flatMap (by decide) (fun b => ?_) hin)
        rw [rawByte]
        by_cases hquote : b = 96
        · rw [if_pos hquote]
          exact .inr ⟨by decide, by decide +kernel⟩
        · exact .inl (if_neg hquote)
      · exact absurd (List.infix_nil.mp hnil) (by decide)
  have hmarks : ¬ (0 ∈ rawQuote s ∨ (strstr (rawQuote s) byteOrderMark).isSome) := by
    rw [strstr_isSome_iff]
    exact not_or.mpr ⟨hnul', hbom'⟩
  rw [value, if_neg hmarks, read_rawQuote]
  rfl

end Lib.GoStrings
