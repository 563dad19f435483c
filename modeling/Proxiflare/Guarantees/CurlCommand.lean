import Proxiflare.Guarantees.SnippetBodies
import Proxiflare.Lib.ShellWords

/-!
# The curl snippet as a shell script

Every argument stands between single quotes, so whatever a captured request holds, the
script is one command whose words are those of the request.
-/

namespace Proxiflare.Guarantees.CurlCommand

open Lib.CString
open Lib.ShellWords
open Proxiflare.Gui

/-! ## The property -/

def methodWords (har : HarRequest) : List CStr :=
  if har.method = lit "GET" then [] else [lit "--request", har.method]

def headerWords (har : HarRequest) : List CStr :=
  har.headers.flatMap fun h => [lit "--header", h.1 ++ lit ": " ++ h.2]

def bodyWords (har : HarRequest) : List CStr :=
  har.postData.elim [] fun postData => [lit "--data-raw", postData.text]

/-- The one command a request is meant to be. -/
def commandWords (har : HarRequest) : List CStr :=
  [lit "curl", lit "--insecure"] ++ methodWords har ++ headerWords har ++ bodyWords har
    ++ [har.url]

/-! ## One line of the command -/

theorem shEscape_eq (s : CStr) : Curl.shEscape s = quote s := by
  have hbyte : (fun b => if b = 39 then lit "'\\''" else [b]) = quoteByte :=
    ext_bytes (by decide +kernel)
  rw [Curl.shEscape, replaceAll, hbyte, quote]

example : Curl.shEscape (lit "a b") = quote (lit "a b") := by decide +kernel

/-- Whatever lines follow, the lines `ls` of a command add the words `ws` to it. -/
def Adds (ls ws : List CStr) : Prop :=
  ∀ cs before after, after ≠ [] →
    read ⟨cs, before, .between⟩ (joinLines (ls ++ after)) =
      read ⟨cs, before ++ ws, .between⟩ (joinLines after)

theorem Adds.nil : Adds [] [] := by
  intro cs before after _
  rw [List.nil_append, List.append_nil]

theorem Adds.append {ls ls' ws ws' : List CStr} (h : Adds ls ws) (h' : Adds ls' ws') :
    Adds (ls ++ ls') (ws ++ ws') := by
  intro cs before after hafter
  have hne : ls' ++ after ≠ [] := List.append_ne_nil_of_right_ne_nil ls' hafter
  rw [List.append_assoc, h cs before _ hne, h' cs _ after hafter, List.append_assoc]

/-- A flag with its quoted argument, which may hold line breaks of its own. -/
theorem Adds.flag {flag line : CStr} (arg : CStr) (hne : flag ≠ [])
    (hplain : ∀ c ∈ flag, isPlain c = true)
    (hline : line = lit "  " ++ flag ++ [32] ++ quote arg ++ lit " \\") :
    Adds [line] [flag, arg] := by
  intro cs before after hafter
  have hjoin : joinLines ([line] ++ after) =
      lit "  " ++ (flag ++ ([32] ++ (quote arg ++ (lit " \\\n" ++ joinLines after)))) := by
    have hbreak : lit " \\\n" = lit " \\" ++ [10] := rfl
    rw [List.singleton_append, joinLines_cons hafter, hline, hbreak]
    simp only [List.append_assoc, List.cons_append, List.nil_append]
  rw [hjoin, read_indent, read_append_of (read_word hne hplain), read_append_of (read_blank flag),
    read_append_of (read_quote arg), read_append_of (read_continuation arg), List.append_assoc]
  rfl

/-! ## The parts of the command -/

theorem adds_methodFlag (har : HarRequest) :
    Adds (Curl.flagLine (Curl.methodFlag har)) (methodWords har) := by
  rw [Curl.methodFlag, methodWords]
  by_cases hget : har.method = lit "GET"
  · rw [if_pos hget, if_pos hget]
    exact Adds.nil
  · rw [if_neg hget, if_neg hget, Curl.flagLine, if_neg (by simp [lit])]
    refine Adds.flag har.method (by decide) (by decide +kernel) ?_
    rw [shEscape_eq]
    rfl

theorem adds_headers (headers : List HarHeader) :
    Adds (headers.map fun h => lit "  --header " ++ Curl.shEscape (h.1 ++ lit ": " ++ h.2) ++ lit " \\")
      (headers.flatMap fun h => [lit "--header", h.1 ++ lit ": " ++ h.2]) := by
  induction headers with
  | nil => exact Adds.nil
  | cons h headers ih =>
    rw [List.map_cons, List.flatMap_cons, ← List.singleton_append]
    refine Adds.append (Adds.flag _ (by decide) (by decide +kernel) ?_) ih
    rw [shEscape_eq]
    rfl

/-- The lines of the headers are joined before the lines of the snippet are. -/
theorem adds_headerFlags (har : HarRequest) :
    Adds (Curl.flagLine (Curl.headerFlags har)) (headerWords har) := by
  intro cs before after hafter
  have hlines : joinLines (Curl.flagLine (Curl.headerFlags har) ++ after) =
      joinLines ((har.headers.map fun h =>
        lit "  --header " ++ Curl.shEscape (h.1 ++ lit ": " ++ h.2) ++ lit " \\") ++ after) := by
    rw [Curl.headerFlags]
    cases har.headers with
    | nil => rfl
    | cons h headers =>
      have hne : joinLines ((h :: headers).map fun h =>
          lit "  --header " ++ Curl.shEscape (h.1 ++ lit ": " ++ h.2) ++ lit " \\") ≠ [] := by
        intro hnil
        have hhead := congrArg List.head? hnil
        rw [List.map_cons, head?_joinLines (by simp [lit])] at hhead
        simp [lit] at hhead
      rw [Curl.flagLine, if_neg hne, List.singleton_append, joinLines_cons hafter,
        joinLines_append (by simp) hafter]
  rw [hlines]
  exact adds_headers har.headers cs before after hafter

variable {har : HarRequest} {body : List CStr × CStr}

theorem bodyFlag_of_text (htext : ∀ postData ∈ har.postData, postData.isBinary = false) :
    ∃ flag, Curl.bodyFlag har.postData = some ([], flag) ∧
      Adds (Curl.flagLine flag) (bodyWords har) := by
  rw [bodyWords]
  cases hdata : har.postData with
  | none => exact ⟨[], rfl, Adds.nil⟩
  | some postData =>
    have hbinary : postData.isBinary = false := htext postData hdata
    refine ⟨lit "  --data-raw " ++ Curl.shEscape postData.text ++ lit " \\", ?_, ?_⟩
    · simp only [Curl.bodyFlag, hbinary, Bool.false_eq_true, if_false]
    · rw [Curl.flagLine, if_neg (by simp [lit])]
      refine Adds.flag postData.text (by decide) (by decide +kernel) ?_
      rw [shEscape_eq]
      rfl

/-! ## The script -/

/-- The lines before the flags: comments, which are no part of a command, and its first words. -/
def openingLines : List CStr :=
  [lit "# cURL " ++ dash ++ lit " generated by ProxiFlare",
    lit "# Remove --insecure if the server has a valid certificate", [], lit "curl --insecure \\"]

theorem read_opening : read start (joinLines openingLines ++ [10]) =
    some ⟨[], [lit "curl", lit "--insecure"], .between⟩ := by
  decide +kernel

theorem commands_text {flag : CStr} (hbody : Adds (Curl.flagLine flag) (bodyWords har)) :
    commands (Curl.text har ([], flag)) = some [commandWords har] := by
  have hadds := ((adds_methodFlag har).append (adds_headerFlags har)).append hbody
  have htext : Curl.text har ([], flag) = joinLines openingLines ++ [10] ++
      joinLines (Curl.flagLine (Curl.methodFlag har) ++ Curl.flagLine (Curl.headerFlags har)
        ++ Curl.flagLine flag ++ [lit "  " ++ quote har.url]) := by
    have hopen : openingLines ≠ [] := by simp [openingLines]
    have hends : Curl.flagLine (Curl.methodFlag har) ++ Curl.flagLine (Curl.headerFlags har)
        ++ Curl.flagLine flag ++ [lit "  " ++ quote har.url] ≠ [] := by simp
    rw [List.append_assoc, List.singleton_append, ← joinLines_append hopen hends, Curl.text,
      shEscape_eq]
    simp only [openingLines, List.append_assoc, List.append_nil, List.cons_append, List.nil_append]
  have hread := hadds [] [lit "curl", lit "--insecure"] [lit "  " ++ quote har.url] (by simp)
  rw [joinLines_singleton, read_indent, read_quote] at hread
  rw [commands, htext, read_append_of read_opening, hread, Option.bind_some, finish_word,
    commandWords]
  simp only [List.append_assoc, List.nil_append]

variable {js : Js} {entry : InspectEntry}

/-- A body without a NUL is not taken for binary. -/
theorem isBinaryBody_of_noNul {body : CStr} (h : 0 ∉ body) : isBinaryBody body = false := by
  have hwithin : ∀ n, nulWithin n body = false := by
    induction body with
    | nil => exact fun n => rfl
    | cons b s ih =>
      intro n
      have hb : (b == 0) = false := by simpa using (List.ne_of_not_mem_cons h).symm
      rw [nulWithin, hb, Bool.false_or, ih (List.not_mem_of_not_mem_cons h), Bool.and_false]
  exact hwithin 512

theorem postData_text (hbody : ∀ body ∈ entry.body, 0 ∉ body) :
    ∀ postData ∈ postDataOf js entry, postData.isBinary = false := by
  intro postData hdata
  rw [postDataOf] at hdata
  split at hdata
  · next b s hentry =>
    obtain rfl := Option.some.inj hdata
    exact isBinaryBody_of_noNul (hbody _ hentry)
  · cases hdata

/-- Whatever a captured request with a readable query string and a text for a body holds, its
curl snippet is one command, made of the words of the request. -/
theorem snippet_is_the_command (js : Js) (entry : InspectEntry)
    (hquery : (parseQuery (searchOf entry)).isSome = true)
    (hbody : ∀ body ∈ entry.body, 0 ∉ body) :
    ∃ har script, toHar js entry = some har ∧ Curl.generate js entry = some script ∧
      commands script = some [commandWords har] := by
  obtain ⟨query, hparsed⟩ := Option.isSome_iff_exists.mp hquery
  have hhar : toHar js entry = some (harOf js entry query) := by
    rw [toHar, hparsed, Option.map_some]
  have htext : ∀ postData ∈ (harOf js entry query).postData, postData.isBinary = false :=
    postData_text hbody
  obtain ⟨flag, hflag, hadds⟩ := bodyFlag_of_text htext
  refine ⟨harOf js entry query, Curl.text (harOf js entry query) ([], flag), hhar, ?_,
    commands_text hadds⟩
  rw [Curl.generate, hhar]
  simp only [Option.bind_eq_bind, Option.bind_some, hflag, Option.pure_def]

/-- A body that tries to close its quotes and start a second command. -/
def hostile : InspectEntry := SnippetBodies.post "text/plain" "'; reboot #\n$(reboot)\\"

theorem hostile_snippet : ∃ har script, toHar SnippetBodies.asciiJs hostile = some har ∧
    Curl.generate SnippetBodies.asciiJs hostile = some script ∧
      commands script = some [commandWords har] :=
  snippet_is_the_command SnippetBodies.asciiJs hostile (by decide +kernel) (by decide +kernel)

end Proxiflare.Guarantees.CurlCommand
