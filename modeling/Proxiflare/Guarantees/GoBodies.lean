import Proxiflare.Gui.SnippetPrograms
import Proxiflare.Lib.GoStrings

/-!
# The body literal of the Go snippet

`goRaw` writes a body as raw literals, and Go takes the carriage returns out of those.
`goStr`, which the other texts of the snippet go through, escapes them.
-/

namespace Proxiflare.Guarantees.GoBodies

open Lib.CString
open Lib.GoStrings
open Proxiflare.Gui

def wrap (part : CStr) : CStr := 96 :: (part ++ [96])

def glue : CStr := lit " + \"" ++ 96 :: lit "\" + "

theorem glued_cons {part : CStr} {parts : List CStr} (hne : parts ≠ []) :
    glue.intercalate ((part :: parts).map wrap) =
      wrap part ++ (glue ++ glue.intercalate (parts.map wrap)) := by
  obtain ⟨next, parts, rfl⟩ := List.exists_cons_of_ne_nil hne
  simp [List.intercalate]

/-- Between the outer backquotes stands every byte as it is written by itself. -/
theorem glued_splitOn (s : CStr) :
    glue.intercalate ((s.splitOn 96).map wrap) = rawQuote s := by
  induction s with
  | nil => rfl
  | cons c s ih =>
    obtain ⟨part, parts, hparts⟩ := List.exists_cons_of_ne_nil (List.splitOn_ne_nil 96 s)
    rw [List.splitOn_cons_eq_if_modifyHead]
    by_cases hquote : c = 96
    · have hbeq : (c == 96) = true := by simpa using hquote
      have hglue : wrap [] ++ (glue ++ [96]) = 96 :: rawByte 96 := by decide
      rw [if_pos hbeq, glued_cons (List.splitOn_ne_nil 96 s), ih, rawQuote, rawQuote,
        List.flatMap_cons, hquote]
      have hline := congrArg (· ++ (s.flatMap rawByte ++ [96])) hglue
      simpa only [List.append_assoc, List.cons_append, List.nil_append] using hline
    · have hbeq : (c == 96) = false := by simpa using hquote
      have hhead : ∀ t, glue.intercalate (((c :: part) :: parts).map wrap) = 96 :: c :: t ↔
          glue.intercalate ((part :: parts).map wrap) = 96 :: t := by
        intro t
        cases parts with
        | nil => simp [wrap, List.intercalate]
        | cons next parts => simp [wrap, List.intercalate]
      rw [hparts, rawQuote] at ih
      rw [hbeq, hparts, rawQuote, List.flatMap_cons, rawByte, if_neg hquote]
      exact (hhead _).mpr ih

theorem goRaw_eq (s : CStr) : goRaw s = rawQuote s := by
  rw [← glued_splitOn]
  by_cases hquote : 96 ∈ s
  · rw [goRaw, if_neg (not_not.mpr hquote)]
    rfl
  · rw [goRaw, if_pos hquote, List.splitOn_eq_singleton hquote]
    simp [wrap, List.intercalate]

/-- The literal of a text is that text exactly when it holds no carriage return. -/
theorem body_literal_iff (s : CStr) (hnul : 0 ∉ s) (hbom : ¬ byteOrderMark <:+: s) :
    value (goRaw s) = some s ↔ 13 ∉ s := by
  rw [goRaw_eq, value_rawQuote hnul hbom, Option.some.injEq, List.filter_eq_self]
  simp only [decide_eq_true_eq]
  exact ⟨fun h h13 => h 13 h13 rfl, fun h c hc hc13 => h (hc13 ▸ hc)⟩

theorem query_literal : value (goRaw (lit "a\x60b\n\"\\")) = some (lit "a\x60b\n\"\\") :=
  (body_literal_iff (lit "a\x60b\n\"\\") (by decide +kernel) (by decide +kernel)).mpr
    (by decide +kernel)

/-- A line that ends as lines do on the wire loses half of its end. -/
theorem multipart_literal :
    0 ∉ lit "--a\r\n" ∧ ¬ byteOrderMark <:+: lit "--a\r\n" ∧
      value (goRaw (lit "--a\r\n")) = some (lit "--a\n") ∧
      value (goRaw (lit "--a\r\n")) ≠ some (lit "--a\r\n") := by
  decide +kernel

end Proxiflare.Guarantees.GoBodies
