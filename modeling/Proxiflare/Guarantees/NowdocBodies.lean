import Proxiflare.Guarantees.SnippetBodies
import Proxiflare.Lib.PhpTokens

/-!
# The body literal of the PHP cURL snippet

A body that is no form stands verbatim between `<<<'EOD'` and `EOD;`. The program is read as
it is meant unless a line of the body closes the literal or a carriage return at its end
joins the line break behind it.
-/

namespace Proxiflare.Guarantees.NowdocBodies

open Lib.CString
open Lib.StringLiteral
open Lib.PhpTokens
open Proxiflare.Gui

/-! ## The property -/

/-- Lines of code without a literal. A comment leaves an empty one. -/
def codeLines (ls : List CStr) : List Token := codeTokens (joinLines ls ++ [10])

/-- A line with one literal in it. -/
def literalLine (before v behind : CStr) : List Token :=
  codeTokens before ++ [.string v] ++ codeTokens (behind ++ [10])

def headerTokens (har : HarRequest) : List Token :=
  har.headers.flatMap fun h => literalLine (lit "    ") (h.1 ++ lit ": " ++ h.2) (lit ",")

def methodTokens (har : HarRequest) : List Token :=
  if har.method = lit "GET" then []
  else literalLine (lit "curl_setopt($ch, CURLOPT_CUSTOMREQUEST, ") har.method (lit ");")

/-- The lines that make the handle. -/
def handleLines : List CStr :=
  [lit "];", [], lit "$ch = curl_init();", lit "curl_setopt($ch, CURLOPT_URL, $url);",
    lit "curl_setopt($ch, CURLOPT_RETURNTRANSFER, true);",
    lit "curl_setopt($ch, CURLOPT_HTTPHEADER, $headers);"]

def beforeBody (har : HarRequest) : List Token :=
  codeLines [[], [], []] ++ literalLine (lit "$url = ") har.url (lit ";")
    ++ codeLines [[], lit "$headers = ["] ++ headerTokens har ++ codeLines handleLines
    ++ methodTokens har ++ codeTokens (lit "$body = ")

def postLine : CStr := lit "curl_setopt($ch, CURLOPT_POSTFIELDS, $body);"

/-- The last lines but one. -/
def sendingLines : List CStr :=
  [[], lit "$response = curl_exec($ch);", lit "$httpCode = curl_getinfo($ch, CURLINFO_HTTP_CODE);",
    lit "curl_close($ch);", []]

def lastLine : CStr := lit "echo $httpCode . PHP_EOL . substr($response, 0, 500);"

/-- The statements after the body. -/
def afterBody : List Token :=
  codeLines [lit ";", postLine] ++ codeLines [[]] ++ codeLines [[]] ++ codeLines sendingLines
    ++ codeTokens lastLine

/-- The program a request with the body `body` is meant to be. -/
def programTokens (har : HarRequest) (body : CStr) : List Token :=
  beforeBody har ++ .string body :: afterBody

/-! ## Lines of the program -/

theorem phpStr_eq_single (s : CStr) : phpStr s = single s := by
  have hbyte : (fun b => replaceAll 39 (lit "\\'") (if b = 92 then lit "\\\\" else [b]))
      = singleByte := ext_bytes (by decide +kernel)
  rw [phpStr, single, replaceAll.eq_def 92, replaceAll_flatMap, hbyte]

example : phpStr (lit "a\\b") = single (lit "a\\b") := by decide +kernel

/-- Whatever lines follow, the lines `ls` are read as the tokens `ts`. -/
def Gives (ls : List CStr) (ts : List Token) : Prop :=
  ∀ after, after ≠ [] → Leads (joinLines (ls ++ after)) ts (joinLines after)

theorem Gives.nil : Gives [] [] := fun after _ => Leads.refl (joinLines after)

theorem Gives.append {ls ls' : List CStr} {ts ts' : List Token} (h : Gives ls ts)
    (h' : Gives ls' ts') : Gives (ls ++ ls') (ts ++ ts') := by
  intro after hafter
  rw [List.append_assoc]
  have hne : ls' ++ after ≠ [] := List.append_ne_nil_of_right_ne_nil ls' hafter
  exact (h _ hne).trans (h' after hafter)

theorem joinLines_lines {ls after : List CStr} (hls : ls ≠ []) (hafter : after ≠ []) :
    joinLines (ls ++ after) = joinLines ls ++ [10] ++ joinLines after := by
  rw [joinLines_append hls hafter, List.append_assoc, List.singleton_append]

/-- A list of lines that are all code. -/
def AllCode (ls : List CStr) : Prop := ∀ l ∈ ls, ∀ c ∈ l, isCode c = true

theorem AllCode.nil : AllCode [] := List.forall_mem_nil _

theorem AllCode.cons {l : CStr} {ls : List CStr} (hl : ∀ c ∈ l, isCode c = true)
    (h : AllCode ls) : AllCode (l :: ls) := List.forall_mem_cons.mpr ⟨hl, h⟩

theorem AllCode.empty {ls : List CStr} (h : AllCode ls) : AllCode ([] :: ls) :=
  AllCode.cons (List.forall_mem_nil _) h

theorem isCode_break : ∀ c ∈ ([10] : CStr), isCode c = true := List.forall_mem_singleton.mpr rfl

theorem AllCode.joinLines {ls : List CStr} (h : AllCode ls) :
    ∀ c ∈ joinLines ls ++ [10], isCode c = true := by
  induction ls with
  | nil => exact isCode_break
  | cons l ls ih =>
    have hl := h l List.mem_cons_self
    have hls := ih fun l' hl' => h l' (List.mem_cons_of_mem l hl')
    by_cases hnil : ls = []
    · rw [hnil, joinLines_singleton]
      exact List.forall_mem_append.mpr ⟨hl, isCode_break⟩
    · rw [joinLines_cons hnil, List.append_assoc]
      exact List.forall_mem_append.mpr ⟨hl, List.forall_mem_cons.mpr ⟨by decide, hls⟩⟩

theorem Gives.code {ls : List CStr} (hls : ls ≠ []) (hcode : AllCode ls) :
    Gives ls (codeLines ls) := by
  intro after hafter
  rw [joinLines_lines hls hafter]
  exact Leads.code hcode.joinLines (joinLines after)

theorem Gives.comment {line : CStr} (l : CStr) (hline : line = lit "//" ++ l)
    (hl : ∀ c ∈ l, isBreak c = false ∧ c ≠ 63) : Gives [line] (codeLines [[]]) := by
  intro after hafter
  rw [hline, joinLines_lines (List.cons_ne_nil _ _) hafter, joinLines_singleton, List.append_assoc,
    List.singleton_append]
  exact Leads.comment hl (joinLines after)

theorem Gives.literal {before behind : CStr} (v : CStr) (hbefore : ∀ c ∈ before, isCode c = true)
    (hbehind : ∀ c ∈ behind, isCode c = true) :
    Gives [before ++ phpStr v ++ behind] (literalLine before v behind) := by
  intro after hafter
  rw [joinLines_lines (List.cons_ne_nil _ _) hafter, joinLines_singleton, phpStr_eq_single,
    literalLine]
  simp only [List.append_assoc]
  have hlast : Leads (behind ++ ([10] ++ joinLines after)) (codeTokens (behind ++ [10]))
      (joinLines after) := by
    rw [← List.append_assoc]
    exact Leads.code (List.forall_mem_append.mpr ⟨hbehind, isCode_break⟩) (joinLines after)
  exact (Leads.code hbefore _).trans ((Leads.single v _).trans hlast)

/-! ## The parts of the program -/

/-- The lines before the headers. -/
def openingLines (har : HarRequest) : List CStr :=
  [[], lit "// PHP: cURL " ++ dash ++ lit " generated by ProxiFlare", [],
    lit "$url = " ++ phpStr har.url ++ lit ";", [], lit "$headers = ["]

theorem gives_opening (har : HarRequest) :
    Gives (openingLines har)
      (codeLines [[], [], []] ++ literalLine (lit "$url = ") har.url (lit ";")
        ++ codeLines [[], lit "$headers = ["]) := by
  have hbreak : Gives [[]] (codeLines [[]]) := Gives.code (by decide) AllCode.nil.empty
  have hcomment : Gives [lit "// PHP: cURL " ++ dash ++ lit " generated by ProxiFlare"]
      (codeLines [[]]) :=
    Gives.comment (lit " PHP: cURL " ++ dash ++ lit " generated by ProxiFlare")
      (by rw [lit_ofList, lit_ofList, lit_ofList]; rfl)
      (List.forall_mem_append.mpr ⟨List.forall_mem_append.mpr ⟨forall_lit _ rfl, forall_of_all rfl⟩,
        forall_lit _ rfl⟩)
  have hurl : Gives [lit "$url = " ++ phpStr har.url ++ lit ";"]
      (literalLine (lit "$url = ") har.url (lit ";")) :=
    Gives.literal har.url (forall_lit _ rfl) (forall_lit _ rfl)
  have hheaders : Gives [[], lit "$headers = ["] (codeLines [[], lit "$headers = ["]) := by
    apply Gives.code (List.cons_ne_nil _ _)
    exact AllCode.empty (AllCode.cons (forall_lit _ rfl) AllCode.nil)
  exact ((hbreak.append (hcomment.append hbreak)).append hurl).append hheaders

theorem gives_headers (headers : List HarHeader) :
    Gives (headers.map fun h => lit "    " ++ phpStr (h.1 ++ lit ": " ++ h.2) ++ lit ",")
      (headers.flatMap fun h => literalLine (lit "    ") (h.1 ++ lit ": " ++ h.2) (lit ",")) := by
  induction headers with
  | nil => exact Gives.nil
  | cons h headers ih =>
    rw [List.map_cons, List.flatMap_cons, ← List.singleton_append]
    exact (Gives.literal _ (forall_lit _ rfl)
      (forall_lit _ rfl)).append ih

theorem gives_handle : Gives handleLines (codeLines handleLines) := by
  apply Gives.code (List.cons_ne_nil _ _)
  apply AllCode.cons (forall_lit _ rfl)
  apply AllCode.empty
  apply AllCode.cons (forall_lit _ rfl)
  apply AllCode.cons (forall_lit _ rfl)
  apply AllCode.cons (forall_lit _ rfl)
  exact AllCode.cons (forall_lit _ rfl) AllCode.nil

theorem gives_method (har : HarRequest) :
    Gives ((if har.method = lit "GET" then none else some (phpStr har.method)).toList.map
      (lit "curl_setopt($ch, CURLOPT_CUSTOMREQUEST, " ++ · ++ lit ");")) (methodTokens har) := by
  rw [methodTokens]
  by_cases hget : har.method = lit "GET"
  · rw [if_pos hget, if_pos hget]
    exact Gives.nil
  · rw [if_neg hget, if_neg hget]
    exact Gives.literal har.method (forall_lit _ rfl)
      (forall_lit _ rfl)

theorem gives_post : Gives [lit ";", postLine] (codeLines [lit ";", postLine]) := by
  apply Gives.code (List.cons_ne_nil _ _)
  apply AllCode.cons (forall_lit _ rfl)
  exact AllCode.cons (forall_lit _ rfl) AllCode.nil

theorem gives_sending : Gives sendingLines (codeLines sendingLines) := by
  apply Gives.code (List.cons_ne_nil _ _)
  apply AllCode.empty
  apply AllCode.cons (forall_lit _ rfl)
  apply AllCode.cons (forall_lit _ rfl)
  apply AllCode.cons (forall_lit _ rfl)
  exact AllCode.nil.empty

def peerLine : CStr :=
  lit "// curl_setopt($ch, CURLOPT_SSL_VERIFYPEER, false); // disable TLS verify"

def hostLine : CStr := lit "// curl_setopt($ch, CURLOPT_SSL_VERIFYHOST, false);"

theorem gives_peer : Gives [peerLine] (codeLines [[]]) := by
  apply Gives.comment (lit " curl_setopt($ch, CURLOPT_SSL_VERIFYPEER, false); // disable TLS verify")
  · rw [peerLine, lit_ofList, lit_ofList, lit_ofList]
    rfl
  · exact forall_lit _ rfl

theorem gives_host : Gives [hostLine] (codeLines [[]]) := by
  apply Gives.comment (lit " curl_setopt($ch, CURLOPT_SSL_VERIFYHOST, false);")
  · rw [hostLine, lit_ofList, lit_ofList, lit_ofList]
    rfl
  · exact forall_lit _ rfl

theorem afterLabel_eq : PhpCurl.afterLabel =
    joinLines ([lit ";", postLine] ++ [peerLine] ++ [hostLine] ++ sendingLines ++ [lastLine]) := by
  have hfirst : lit ";\ncurl_setopt($ch, CURLOPT_POSTFIELDS, $body);\n"
      = joinLines [lit ";", postLine] ++ [10] := by
    rw [postLine, lit_ofList, lit_ofList, lit_ofList]
    rfl
  simp only [List.append_assoc]
  rw [PhpCurl.afterLabel, hfirst, PhpCurl.closing,
    ← joinLines_lines (List.cons_ne_nil _ _) (List.cons_ne_nil _ _)]
  simp only [sendingLines, peerLine, hostLine, lastLine, List.cons_append, List.nil_append]

/-- What follows the label that closes the body is read as it is meant. -/
theorem leads_afterLabel : Leads PhpCurl.afterLabel afterBody [] := by
  have hlines := (((gives_post.append gives_peer).append gives_host).append gives_sending)
    [lastLine] (List.cons_ne_nil _ _)
  have hlast : Leads (joinLines [lastLine]) (codeTokens lastLine) [] := by
    have hcode : Leads (lastLine ++ []) (codeTokens lastLine) [] :=
      Leads.code (forall_lit _ rfl) []
    rwa [List.append_nil, ← joinLines_singleton lastLine] at hcode
  rw [afterLabel_eq]
  exact hlines.trans hlast

/-! ## The program -/

variable {js : Js} {har : HarRequest} {text : CStr}

theorem nowdoc_text_iff (text : CStr) :
    (∃ r, nowdoc PhpCurl.label (text ++ 10 :: (PhpCurl.label ++ PhpCurl.afterLabel)) = some (text, r))
      ↔ closes PhpCurl.label text = false ∧ text.getLast? ≠ some 13 :=
  nowdoc_eq_self_iff (by decide) (by decide) SnippetBodies.closer_afterLabel
    (List.length_append) text

/-- The literal and what follows it. -/
def verbatimLines (text : CStr) : CStr :=
  lit "<<<'" ++ PhpCurl.label ++ lit "'\n" ++ (text ++ 10 :: (PhpCurl.label ++ PhpCurl.afterLabel))

theorem fuel_of_line {a b label rest : CStr} {n : Nat}
    (h : (a ++ (b ++ 10 :: (label ++ rest))).length ≤ n) : ∃ m, n = m + 1 ∧ rest.length ≤ m := by
  simp only [List.length_append, List.length_cons] at h
  exact ⟨n - 1, by omega, by omega⟩

theorem lex_verbatimLines_iff {n : Nat} (hn : (verbatimLines text).length ≤ n) :
    lex n (verbatimLines text) = some (.string text :: afterBody) ↔
      closes PhpCurl.label text = false ∧ text.getLast? ≠ some 13 := by
  have hlabel : ∀ c ∈ PhpCurl.label, isNameByte c = true := forall_lit _ rfl
  obtain ⟨m, rfl, hlen⟩ := fuel_of_line hn
  rw [← nowdoc_text_iff, verbatimLines, lex_nowdoc hlabel]
  constructor
  · intro h
    obtain ⟨p, hp, hlex⟩ := Option.bind_eq_some_iff.mp h
    obtain ⟨ts, -, hts⟩ := Option.map_eq_some_iff.mp hlex
    have hv : p.1 = text := by
      have hhead := (List.cons.inj hts).1
      exact Token.string.inj hhead
    exact ⟨p.2, by rw [hp, ← hv]⟩
  · rintro ⟨r, hr⟩
    have hread := (nowdoc_eq_some_iff (by decide) (by decide) SnippetBodies.closer_afterLabel
      text text).mpr
    obtain ⟨hopen, hlast⟩ := (nowdoc_text_iff text).mp ⟨r, hr⟩
    have hchop : text = chopReturn text := ((chopReturn_eq_self_iff text).mpr hlast).symm
    rw [hread ⟨hopen, hchop⟩, Option.bind_some]
    rw [leads_afterLabel.lex_eq hlen, Option.map_some]

/-- The lines of the program before its last one, which starts with the body. -/
def frontLines (har : HarRequest) : List CStr :=
  openingLines har
    ++ (har.headers.map fun h => lit "    " ++ phpStr (h.1 ++ lit ": " ++ h.2) ++ lit ",")
    ++ handleLines
    ++ (if har.method = lit "GET" then none else some (phpStr har.method)).toList.map
      (lit "curl_setopt($ch, CURLOPT_CUSTOMREQUEST, " ++ · ++ lit ");")

theorem leads_front (har : HarRequest) (text : CStr) :
    Leads (joinLines (frontLines har ++ [lit "$body = " ++ verbatimLines text])) (beforeBody har)
      (verbatimLines text) := by
  have hlines := (((gives_opening har).append (gives_headers har.headers)).append gives_handle).append
    (gives_method har) [lit "$body = " ++ verbatimLines text] (List.cons_ne_nil _ _)
  have hbody : Leads (joinLines [lit "$body = " ++ verbatimLines text])
      (codeTokens (lit "$body = ")) (verbatimLines text) := by
    rw [joinLines_singleton]
    exact Leads.code (forall_lit _ rfl) (verbatimLines text)
  exact hlines.trans hbody

/-- The parts of the snippet of a request with a verbatim body. -/
def snippetOf (har : HarRequest) (text : CStr) : CurlSnippet where
  method := if har.method = lit "GET" then none else some (phpStr har.method)
  url := phpStr har.url
  headers := har.headers.map fun h => phpStr (h.1 ++ lit ": " ++ h.2)
  body := .verbatim text

theorem text_eq (har : HarRequest) (text : CStr) :
    PhpCurl.text (snippetOf har text) =
      openTag ++ joinLines (frontLines har ++ [lit "$body = " ++ verbatimLines text]) := by
  have hlast : PhpCurl.bodyCode (.verbatim text) = lit "$body = " ++ verbatimLines text := by
    have hopen : lit "$body = <<<'EOD'\n" = lit "$body = " ++ (lit "<<<'" ++ PhpCurl.label ++ lit "'\n") := by
      decide +kernel
    rw [PhpCurl.bodyCode, verbatimLines, hopen]
    simp only [List.append_assoc]
  have hfront : ∀ ls : List CStr, ls ≠ [] → joinLines (lit "<?php" :: ls) = openTag ++ joinLines ([] :: ls) := by
    intro ls hls
    rw [joinLines_cons hls, joinLines_cons hls, List.nil_append]
    rfl
  rw [PhpCurl.text, snippetOf, hlast, frontLines, openingLines, List.map_map]
  exact hfront _ (List.cons_ne_nil _ _)

theorem tokens_text_iff (har : HarRequest) (text : CStr) :
    tokens (PhpCurl.text (snippetOf har text)) = some (programTokens har text) ↔
      closes PhpCurl.label text = false ∧ text.getLast? ≠ some 13 := by
  have hlen : (joinLines (frontLines har ++ [lit "$body = " ++ verbatimLines text])).length
      ≤ (PhpCurl.text (snippetOf har text)).length := by
    rw [text_eq, List.length_append]
    omega
  obtain ⟨m, hm, hlex⟩ := (leads_front har text).lex_eq_some_iff hlen
  have htag : (PhpCurl.text (snippetOf har text)).take openTag.length = openTag := by
    rw [text_eq]
    exact List.take_left
  have hcode : (PhpCurl.text (snippetOf har text)).drop openTag.length =
      joinLines (frontLines har ++ [lit "$body = " ++ verbatimLines text]) := by
    rw [text_eq]
    exact List.drop_left
  rw [tokens, if_pos htag, hcode, programTokens, hlex, lex_verbatimLines_iff hm]

variable {entry : InspectEntry} {query : List HarQuery}

theorem generate_eq (hquery : parseQuery (searchOf entry) = some query)
    (hdata : postDataOf js entry = some ⟨mimeTypeOf js entry, text, false⟩)
    (hform : isFormMime (SnippetBodies.mimeOf js entry) = false) :
    PhpCurl.generate js entry = some (PhpCurl.text (snippetOf (harOf js entry query) text)) := by
  have hform' : isFormMime (js.toLowerCase (mimeTypeOf js entry)) = false := hform
  have hbody : PhpCurl.body js (harOf js entry query) = some (.verbatim text) := by
    have hpost : (harOf js entry query).postData = some ⟨mimeTypeOf js entry, text, false⟩ := hdata
    simp only [PhpCurl.body, hpost, hform', Bool.false_eq_true, if_false]
  have hhar : toHar js entry = some (harOf js entry query) := by
    rw [toHar, hquery, Option.map_some]
  rw [PhpCurl.generate, PhpCurl.snippet, hhar]
  simp only [Option.bind_eq_bind, Option.bind_some, hbody, Option.pure_def, Option.map_some]
  rfl

/-- The program for a body that is neither binary nor a form is read as it is meant, with the
body as one literal, exactly when no line of the body closes the literal and no carriage return
ends it. -/
theorem program_is_read_iff (js : Js) (entry : InspectEntry) (text : CStr)
    (hquery : (parseQuery (searchOf entry)).isSome = true) (hbody : entry.body = some text)
    (hne : text ≠ []) (htext : isBinaryBody text = false)
    (hform : isFormMime (SnippetBodies.mimeOf js entry) = false) :
    ∃ har program, toHar js entry = some har ∧ PhpCurl.generate js entry = some program ∧
      (tokens program = some (programTokens har text) ↔
        closes PhpCurl.label text = false ∧ text.getLast? ≠ some 13) := by
  obtain ⟨query, hparsed⟩ := Option.isSome_iff_exists.mp hquery
  have hdata : postDataOf js entry = some ⟨mimeTypeOf js entry, text, false⟩ :=
    SnippetBodies.postDataOf_text hbody hne htext
  refine ⟨harOf js entry query, _, ?_, generate_eq hparsed hdata hform, tokens_text_iff _ _⟩
  rw [toHar, hparsed, Option.map_some]

theorem greeting_is_read : ∃ har program,
    toHar SnippetBodies.asciiJs (SnippetBodies.post "text/plain" "hello") = some har ∧
      PhpCurl.generate SnippetBodies.asciiJs (SnippetBodies.post "text/plain" "hello") = some program ∧
        (tokens program = some (programTokens har (lit "hello")) ↔
          closes PhpCurl.label (lit "hello") = false ∧ (lit "hello").getLast? ≠ some 13) :=
  program_is_read_iff SnippetBodies.asciiJs (SnippetBodies.post "text/plain" "hello") (lit "hello")
    (by decide +kernel) rfl (by decide) (by decide +kernel) (by decide +kernel)

/-- A body with a line that closes the literal and statements behind it. -/
def hostile : InspectEntry :=
  SnippetBodies.post "text/plain" "EOD;\nreboot();\n$body = <<<'EOD'\n"

def hostileText : CStr := lit "EOD;\nreboot();\n$body = <<<'EOD'\n"

/-- The literal of the body is empty, and the statements are what follows it. -/
theorem hostile_is_code : ∃ har program rest,
    hostile.body = some hostileText ∧ isBinaryBody hostileText = false ∧
      toHar SnippetBodies.asciiJs hostile = some har ∧
        PhpCurl.generate SnippetBodies.asciiJs hostile = some program ∧
          tokens program ≠ some (programTokens har hostileText) ∧
            nowdoc PhpCurl.label (hostileText ++ 10 :: (PhpCurl.label ++ PhpCurl.afterLabel)) =
              some ([], lit ";\nreboot();\n" ++ rest) := by
  have hquery : parseQuery (searchOf hostile) = some [] := by decide +kernel
  have hdata : postDataOf SnippetBodies.asciiJs hostile =
      some ⟨mimeTypeOf SnippetBodies.asciiJs hostile, hostileText, false⟩ :=
    SnippetBodies.postDataOf_text rfl (by decide +kernel) (by decide +kernel)
  have hcloses : closes PhpCurl.label hostileText = true := by decide +kernel
  refine ⟨harOf SnippetBodies.asciiJs hostile [], _,
    lit "$body = <<<'EOD'\n" ++ 10 :: (PhpCurl.label ++ PhpCurl.afterLabel), rfl,
    by decide +kernel, ?_, generate_eq hquery hdata (by decide +kernel), ?_, ?_⟩
  · rw [toHar, hquery, Option.map_some]
  · rw [Ne, tokens_text_iff, hcloses]
    simp
  · have hfirst : closer PhpCurl.label hostileText =
        some ([], lit ";\nreboot();\n" ++ lit "$body = <<<'EOD'\n") := by
      decide +kernel
    rw [nowdoc, closer_append (by decide) (by decide), hfirst, Option.map_some, List.append_assoc]

end Proxiflare.Guarantees.NowdocBodies
