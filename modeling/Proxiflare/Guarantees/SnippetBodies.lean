import Proxiflare.Gui.SnippetPrograms
import Proxiflare.Lib.JsonValue

/-!
# The bodies of snippets

A snippet repeats a captured request, so the program it is should send the captured body.
The form branches of three generators send the pairs of the query string instead; what
else can go wrong lies with the target's library or with the text of a PHP verbatim string.
-/

namespace Proxiflare.Guarantees.SnippetBodies

open Lib.CString
open Lib.UrlForm
open Lib.StringLiteral
open Lib.JsonValue
open Proxiflare.Gui

variable (js : Js) (libs : Libraries) (entry : InspectEntry)

/-! ## The property -/

inductive Kind where
  | json
  | form
  | other
  deriving DecidableEq

def Kind.ofMime (mime : CStr) : Kind :=
  if isJsonMime mime then .json else if isFormMime mime then .form else .other

/-- The content type in lower case. -/
def mimeOf : CStr := js.toLowerCase (mimeTypeOf js entry)

def kindOf : Kind := Kind.ofMime (mimeOf js entry)

/-- A JSON text of the same value and a form of the same pairs will do. -/
def SameBody : Kind → CStr → CStr → Prop
  | .json, sent, text => sent = text ∨ SameValue sent text
  | .form, sent, text => formPairs sent = formPairs text
  | .other, sent, text => sent = text

/-- The snippet sends the body `text`. -/
def SendsBody (target : Target) (text : CStr) : Prop :=
  ∃ sent, sends js libs entry target = some sent ∧ SameBody (kindOf js entry) sent text

/-! ## The condition -/

section Condition

variable (request : BodyValue → Option CStr)

/-- The requests that the snippets of the four targets make of an entry, up to the body. -/
def pyRequest (lib : Library (List (CStr × CStr))) : BodyValue → Option CStr :=
  lib.request (some (js.toLowerCase (methodOf js entry))) (urlOf entry)
    (dictOf (stripHeaders js entry.headers))

def curlRequest : BodyValue → Option CStr :=
  libs.curl.request (if methodOf js entry = lit "GET" then none else some (methodOf js entry))
    (urlOf entry) ((stripHeaders js entry.headers).map fun h => h.1 ++ lit ": " ++ h.2)

def guzzleRequest : BodyValue → Option CStr :=
  libs.guzzle.request (some (methodOf js entry)) (urlOf entry)
    (dictOf (stripHeaders js entry.headers))

/-- The library sends a request with the value, and a text is ASCII or sent in UTF-8. -/
def KeepsText : BodyValue → Prop
  | .text s => (request (.text s)).isSome = true ∧ s.all (· < 128) = true ∨
      request (.text s) = some s
  | value => (request value).isSome = true

/-- The library sends `text` or a JSON text of its value. -/
def KeepsValue (value : BodyValue) (text : CStr) : Prop :=
  ∃ sent, request value = some sent ∧ (sent = text ∨ SameValue sent text)

/-- The library sends a request with the pairs of the query string, and they are those of `text`. -/
def KeepsForm (query : List HarQuery) (text : CStr) : Prop :=
  (request (.form (dictOf query))).isSome = true ∧ dictOf query = formPairs text

/-- No text that is quoted before the body holds a NUL. -/
def PythonReads : Prop := 0 ∉ urlOf entry ∧ NulFree (stripHeaders js entry.headers)

def PythonKeeps (ofText : CStr → BodyValue) (query : List HarQuery) (text : CStr) : Kind → Prop
  | .json => 0 ∉ text ∧
      KeepsValue request (if (js.jsonReprint text).isSome then .json text else ofText text) text
  | .form => NulFree query ∧ KeepsForm request query text
  | .other => 0 ∉ text ∧ KeepsText request (ofText text)

/-- Forms are quoted, and a JSON text may lose a carriage return at its end. -/
def CurlKeeps (mime text : CStr) : Prop :=
  if isFormMime mime = true then (request (.bytes text)).isSome = true
  else closes PhpCurl.label text = false ∧ (request (.bytes (chopReturn text))).isSome = true ∧
    (text.getLast? ≠ some 13 ∨ isJsonMime mime = true ∧ IsJson text)

def GuzzleKeeps (query : List HarQuery) (text : CStr) : Kind → Prop
  | .json => KeepsValue request ((js.jsonReprint text).elim (.bytes text) .json) text
  | .form => KeepsForm request query text
  | .other => (request (.bytes text)).isSome = true

end Condition

/-- The query string decodes, the library sends the request, and the body passes the
target's way of writing it. -/
def Passes (target : Target) (text : CStr) : Prop :=
  ∃ query, parseQuery (searchOf entry) = some query ∧
    match target with
    | .pythonRequests => PythonReads js entry ∧
      PythonKeeps js (pyRequest js entry libs.requests) .text query text (kindOf js entry)
    | .pythonHttpx => PythonReads js entry ∧
      PythonKeeps js (pyRequest js entry libs.httpx) .bytes query text (kindOf js entry)
    | .phpCurl => CurlKeeps (curlRequest js libs entry) (mimeOf js entry) text
    | .phpGuzzle => GuzzleKeeps js (guzzleRequest js libs entry) query text (kindOf js entry)

theorem sameBody_self (kind : Kind) (text : CStr) : SameBody kind text text := by
  cases kind with
  | json => exact .inl rfl
  | form => rfl
  | other => rfl

/-! ## Documented requests -/

section Documented

variable {η : Type} {lib : Library η} {method : Option CStr} {url : CStr} {headers : η}
variable {text : CStr}

theorem bytes_sent_iff (hlib : lib.Documented) {good : CStr → Prop} :
    (∃ sent, lib.request method url headers (.bytes text) = some sent ∧ good sent) ↔
      (lib.request method url headers (.bytes text)).isSome = true ∧ good text := by
  rw [Option.isSome_iff_exists]
  constructor
  · rintro ⟨sent, hsent, hgood⟩
    exact ⟨⟨sent, hsent⟩, hlib.bytes_sent hsent ▸ hgood⟩
  · rintro ⟨⟨sent, hsent⟩, hgood⟩
    exact ⟨sent, hsent, (hlib.bytes_sent hsent).symm ▸ hgood⟩

theorem text_sent_iff (hlib : lib.Documented) {ofText : CStr → BodyValue}
    (hof : ofText = .text ∨ ofText = .bytes) :
    (∃ sent, lib.request method url headers (ofText text) = some sent ∧ sent = text) ↔
      KeepsText (lib.request method url headers) (ofText text) := by
  rcases hof with rfl | rfl
  · rw [exists_eq_right, KeepsText]
    refine ⟨.inr, ?_⟩
    rintro (⟨hsome, hascii⟩ | hsent)
    · obtain ⟨sent, hsent⟩ := Option.isSome_iff_exists.mp hsome
      rw [hsent, hlib.ascii_sent hascii hsent]
    · exact hsent
  · rw [bytes_sent_iff hlib, and_iff_left rfl]
    rfl

theorem form_sent_iff (hlib : lib.Documented) {query : List HarQuery} :
    (∃ sent, lib.request method url headers (.form (dictOf query)) = some sent ∧
        formPairs sent = formPairs text) ↔
      KeepsForm (lib.request method url headers) query text := by
  rw [KeepsForm, Option.isSome_iff_exists]
  constructor
  · rintro ⟨sent, hsent, hpairs⟩
    exact ⟨⟨sent, hsent⟩, (hlib.form_sent (dictOf_nodup query) hsent).symm.trans hpairs⟩
  · rintro ⟨⟨sent, hsent⟩, hpairs⟩
    exact ⟨sent, hsent, (hlib.form_sent (dictOf_nodup query) hsent).trans hpairs⟩

end Documented

/-! ## Python -/

section Python

variable {js entry}
variable {lib : Library (List (CStr × CStr))} {ofText : CStr → BodyValue} {text sent : CStr}

theorem text_value : (PyBody.text (pyStr text)).value lib ofText =
    if 0 ∈ text then none else some (ofText text) := by
  rw [PyBody.value, read_pyStr]
  split <;> rfl

theorem json_value : (PyBody.json (pyStr text)).value lib ofText =
    if 0 ∈ text then none else some (.json text) := by
  rw [PyBody.value, read_pyStr]
  split <;> rfl

theorem form_value {query : List HarQuery} {value : BodyValue} :
    (PyBody.form (pyRows query)).value lib ofText = some value ↔
      NulFree query ∧ value = .form (dictOf query) := by
  simp only [PyBody.value, Option.map_eq_some_iff, readRows_pyRows]
  constructor
  · rintro ⟨_, ⟨hfree, rfl⟩, rfl⟩
    exact ⟨hfree, rfl⟩
  · rintro ⟨hfree, rfl⟩
    exact ⟨query, ⟨hfree, rfl⟩, rfl⟩

theorem pySnippet_sends {method url : CStr} {headers : List (CStr × CStr)} {body : PyBody} :
    (PySnippet.mk method (pyStr url) (pyRows headers) body).sends lib ofText = some sent ↔
      (0 ∉ url ∧ NulFree headers) ∧
        (body.value lib ofText).bind (lib.request (some method) url (dictOf headers)) = some sent := by
  simp only [PySnippet.sends, read_pyStr, Option.bind_eq_bind, Option.bind_eq_some_iff,
    readRows_pyRows]
  constructor
  · rintro ⟨read, hread, rows, ⟨hfree, rfl⟩, hrest⟩
    split at hread
    · cases hread
    · next hurl =>
      obtain rfl := Option.some.inj hread
      exact ⟨⟨hurl, hfree⟩, hrest⟩
  · rintro ⟨⟨hurl, hfree⟩, hrest⟩
    exact ⟨url, if_neg hurl, headers, ⟨hfree, rfl⟩, hrest⟩

variable {method : Option CStr} {url : CStr} {headers : List (CStr × CStr)}

/-- The body's statements send a body that will do. -/
theorem pyBody_sends_iff (har : HarRequest) {mimeType : CStr} (hlib : lib.Documented)
    (hof : ofText = .text ∨ ofText = .bytes)
    (hdata : har.postData = some ⟨mimeType, text, false⟩) :
    (∃ body sent, pyBody js har = some body ∧
        (body.value lib ofText).bind (lib.request method url headers) = some sent ∧
        SameBody (.ofMime (js.toLowerCase mimeType)) sent text) ↔
      PythonKeeps js (lib.request method url headers) ofText har.queryString text
        (.ofMime (js.toLowerCase mimeType)) := by
  rw [pyBody, hdata, Kind.ofMime]
  simp only [Bool.false_eq_true, if_false]
  by_cases hjson : isJsonMime (js.toLowerCase mimeType) = true
  · simp only [hjson, if_true, PythonKeeps, SameBody, KeepsValue]
    cases hparsed : js.jsonReprint text with
    | none => by_cases h0 : 0 ∈ text <;> simp [text_value, h0]
    | some written => by_cases h0 : 0 ∈ text <;> simp [json_value, h0]
  · simp only [hjson]
    by_cases hform : isFormMime (js.toLowerCase mimeType) = true
    · simp only [hform, if_true, PythonKeeps, SameBody, ← form_sent_iff hlib]
      simp [Option.bind_eq_some_iff, form_value, and_assoc]
    · simp only [hform, PythonKeeps, SameBody, ← text_sent_iff hlib hof]
      by_cases h0 : 0 ∈ text <;> simp [text_value, h0]

end Python

/-! ## PHP -/

section Php

variable {js}
variable {η : Type} {lib : Library η} {text : CStr}

theorem text_value_php : (PhpBody.text (phpStr text)).value lib = some (.bytes text) := by
  rw [PhpBody.value, read_phpStr, Option.map_some]

theorem json_value_php : (PhpBody.json (phpStr text)).value lib = some (.json text) := by
  rw [PhpBody.value, read_phpStr, Option.map_some]

theorem form_value_php {query : List HarQuery} :
    (PhpBody.form (phpRows query)).value lib = some (.form (dictOf query)) := by
  rw [PhpBody.value, readRows_phpRows, Option.map_some]

theorem closer_afterLabel : closer PhpCurl.label (PhpCurl.label ++ PhpCurl.afterLabel)
    = some ([], PhpCurl.afterLabel) := by
  have hhead : PhpCurl.afterLabel.head? = some 59 := by
    rw [PhpCurl.afterLabel, List.head?_append]
    rfl
  have hfirst : PhpCurl.label.head? = some 69 := rfl
  have hlabel : ∀ c ∈ (PhpCurl.label ++ PhpCurl.afterLabel).head?, isBlank c = false := by
    rw [List.head?_append, hfirst, Option.some_or]
    simp [isBlank]
  rw [closer_of_head hlabel, List.take_left, List.drop_left, hhead]
  rfl

theorem verbatim_value {value : BodyValue} : (PhpBody.verbatim text).value lib = some value ↔
    closes PhpCurl.label text = false ∧ value = .bytes (chopReturn text) := by
  have hiff := nowdoc_eq_some_iff (by decide) (by decide) closer_afterLabel text
  have hread : (PhpBody.verbatim text).value lib = some value ↔ ∃ body,
      nowdoc PhpCurl.label (text ++ 10 :: (PhpCurl.label ++ PhpCurl.afterLabel)) =
        some (body, PhpCurl.afterLabel) ∧ value = .bytes body := by
    rw [PhpBody.value]
    split
    · next body rest hread =>
      split
      · next hrest => simp [hread, hrest, eq_comm]
      · next hrest => simp [hread, hrest]
    · next hread => simp [hread]
  simp only [hread, hiff, and_assoc, exists_and_left, exists_eq_left]

theorem curlSnippet_sends {libs : Libraries} {method : Option CStr} {url : CStr}
    {lines : List CStr} {body : PhpBody} :
    (CurlSnippet.mk (method.map phpStr) (phpStr url) (lines.map phpStr) body).sends libs.curl =
      (body.value libs.curl).bind (libs.curl.request method url lines) := by
  have hmethod : (method.map phpStr).bind php.read = method := by
    cases method with
    | none => rfl
    | some m => exact read_phpStr m
  have hlines : (lines.map phpStr).mapM php.read = some lines := by
    induction lines with
    | nil => rfl
    | cons l lines ih =>
      rw [List.map_cons, List.mapM_cons, read_phpStr, ih]
      rfl
  simp only [CurlSnippet.sends, read_phpStr, hmethod, hlines, Option.bind_eq_bind, Option.bind_some]

theorem guzzleSnippet_sends {libs : Libraries} {method url : CStr} {headers : List (CStr × CStr)}
    {body : PhpBody} :
    (GuzzleSnippet.mk (phpStr method) (phpStr url) (phpRows headers) body).sends libs.guzzle =
      (body.value libs.guzzle).bind (libs.guzzle.request (some method) url (dictOf headers)) := by
  simp only [GuzzleSnippet.sends, read_phpStr, readRows_phpRows, Option.bind_eq_bind,
    Option.bind_some]

/-- Losing a carriage return at the end matters to no JSON text. -/
theorem sameBody_chopReturn {mime : CStr} (hform : ¬ isFormMime mime = true) :
    SameBody (.ofMime mime) (chopReturn text) text ↔
      text.getLast? ≠ some 13 ∨ isJsonMime mime = true ∧ IsJson text := by
  by_cases hlast : text.getLast? = some 13
  · obtain ⟨s, rfl⟩ := List.getLast?_eq_some_iff.mp hlast
    have hchop : chopReturn (s ++ [13]) = s := by
      rw [chopReturn, if_pos hlast, List.dropLast_concat]
    have hne : s ≠ s ++ [13] := by simp
    rw [hchop, or_iff_right (not_not.mpr hlast), Kind.ofMime]
    by_cases hjson : isJsonMime mime = true
    · simp only [hjson, if_true, SameBody, hne, false_or, true_and]
      simp only [SameValue, IsJson, text_concat_return, and_self]
    · simp [hjson, hform, SameBody, hne]
  · have hchop : chopReturn text = text := if_neg hlast
    rw [hchop]
    exact iff_of_true (sameBody_self _ _) (.inl hlast)

variable {method : Option CStr} {url : CStr} {headers : η}

theorem curlBody_sends_iff (har : HarRequest) {mimeType : CStr} (hlib : lib.Documented)
    (hdata : har.postData = some ⟨mimeType, text, false⟩) :
    (∃ body sent, PhpCurl.body js har = some body ∧
        (body.value lib).bind (lib.request method url headers) = some sent ∧
        SameBody (.ofMime (js.toLowerCase mimeType)) sent text) ↔
      CurlKeeps (lib.request method url headers) (js.toLowerCase mimeType) text := by
  rw [PhpCurl.body, hdata, CurlKeeps]
  simp only [Bool.false_eq_true, if_false]
  by_cases hform : isFormMime (js.toLowerCase mimeType) = true
  · have hsame : SameBody (.ofMime (js.toLowerCase mimeType)) text text := sameBody_self _ _
    simp only [hform, if_true, Option.some.injEq, exists_and_left, exists_eq_left', text_value_php,
      Option.bind_some]
    rw [bytes_sent_iff hlib, and_iff_left hsame]
  · have hsent := @bytes_sent_iff η lib method url headers (chopReturn text) hlib
      (SameBody (.ofMime (js.toLowerCase mimeType)) · text)
    rw [if_neg hform, ← sameBody_chopReturn hform, ← hsent]
    simp [hform, Option.bind_eq_some_iff, verbatim_value, and_assoc]

theorem guzzleBody_sends_iff (har : HarRequest) {mimeType : CStr} (hlib : lib.Documented)
    (hdata : har.postData = some ⟨mimeType, text, false⟩) :
    (∃ body sent, PhpGuzzle.body js har = some body ∧
        (body.value lib).bind (lib.request method url headers) = some sent ∧
        SameBody (.ofMime (js.toLowerCase mimeType)) sent text) ↔
      GuzzleKeeps js (lib.request method url headers) har.queryString text
        (.ofMime (js.toLowerCase mimeType)) := by
  rw [PhpGuzzle.body, hdata, Kind.ofMime]
  simp only [Bool.false_eq_true, if_false]
  by_cases hjson : isJsonMime (js.toLowerCase mimeType) = true
  · simp only [hjson, if_true, GuzzleKeeps, SameBody, KeepsValue]
    cases hparsed : js.jsonReprint text with
    | none => simp [text_value_php]
    | some written => simp [json_value_php]
  · simp only [hjson]
    by_cases hform : isFormMime (js.toLowerCase mimeType) = true
    · simp only [hform, if_true, GuzzleKeeps, SameBody, ← form_sent_iff hlib]
      simp [form_value_php]
    · have hsent := @bytes_sent_iff η lib method url headers text hlib (· = text)
      simp only [and_true] at hsent
      simp only [hform, GuzzleKeeps, SameBody, ← hsent]
      simp [text_value_php]

end Php

/-! ## Every target -/

variable {js libs entry}
variable {text : CStr}

theorem postDataOf_text (hbody : entry.body = some text) (hne : text ≠ [])
    (htext : isBinaryBody text = false) :
    postDataOf js entry = some ⟨mimeTypeOf js entry, text, false⟩ := by
  cases text with
  | nil => exact absurd rfl hne
  | cons b s => simp [postDataOf, hbody, htext]

variable {query : List HarQuery}

/-- A program around a body sends what will do exactly when the rest of it is read and the body's
statements make what will do. -/
theorem program_sends_iff {β : Type} {body : Option β} {program parts : β → Option CStr}
    {reads : Prop} {good : CStr → Prop}
    (h : ∀ b sent, program b = some sent ↔ reads ∧ parts b = some sent) :
    (∃ sent, body.bind program = some sent ∧ good sent) ↔
      reads ∧ ∃ b sent, body = some b ∧ parts b = some sent ∧ good sent := by
  simp only [Option.bind_eq_some_iff, h]
  constructor
  · rintro ⟨sent, ⟨b, hb, hreads, hsent⟩, hgood⟩
    exact ⟨hreads, b, sent, hb, hsent, hgood⟩
  · rintro ⟨hreads, b, sent, hb, hsent, hgood⟩
    exact ⟨sent, ⟨b, hb, hreads, hsent⟩, hgood⟩

theorem python_sends_iff {lib : Library (List (CStr × CStr))} {ofText : CStr → BodyValue}
    (hlib : lib.Documented) (hof : ofText = .text ∨ ofText = .bytes)
    (hquery : parseQuery (searchOf entry) = some query)
    (hdata : postDataOf js entry = some ⟨mimeTypeOf js entry, text, false⟩) :
    (∃ sent, (pySnippet js entry).bind (PySnippet.sends lib ofText) = some sent ∧
        SameBody (kindOf js entry) sent text) ↔
      PythonReads js entry ∧
        PythonKeeps js (pyRequest js entry lib) ofText query text (kindOf js entry) := by
  have hsnippet : (pySnippet js entry).bind (PySnippet.sends lib ofText) =
      (pyBody js (harOf js entry query)).bind fun body =>
        (PySnippet.mk (js.toLowerCase (methodOf js entry)) (pyStr (urlOf entry))
          (pyRows (stripHeaders js entry.headers)) body).sends lib ofText := by
    rw [pySnippet, toHar, hquery]
    simp only [Option.map_some, Option.bind_eq_bind, Option.bind_some, Option.bind_assoc,
      Option.pure_def, harOf]
  rw [hsnippet, program_sends_iff fun body sent => pySnippet_sends]
  have hkeeps : _ ↔ PythonKeeps js (pyRequest js entry lib) ofText query text (kindOf js entry) :=
    pyBody_sends_iff (harOf js entry query) hlib hof hdata
  exact and_congr_right fun _ => hkeeps

theorem curl_sends_iff (hlib : libs.curl.Documented)
    (hquery : parseQuery (searchOf entry) = some query)
    (hdata : postDataOf js entry = some ⟨mimeTypeOf js entry, text, false⟩) :
    (∃ sent, (PhpCurl.snippet js entry).bind (CurlSnippet.sends libs.curl) = some sent ∧
        SameBody (kindOf js entry) sent text) ↔
      CurlKeeps (curlRequest js libs entry) (mimeOf js entry) text := by
  have hmethod : (if methodOf js entry = lit "GET" then none else some (phpStr (methodOf js entry)))
      = (if methodOf js entry = lit "GET" then none else some (methodOf js entry)).map phpStr := by
    split <;> rfl
  have hsnippet : (PhpCurl.snippet js entry).bind (CurlSnippet.sends libs.curl) =
      (PhpCurl.body js (harOf js entry query)).bind fun body =>
        (body.value libs.curl).bind (curlRequest js libs entry) := by
    simp only [curlRequest, ← curlSnippet_sends]
    rw [PhpCurl.snippet, toHar, hquery, ← hmethod, List.map_map]
    simp only [Option.map_some, Option.bind_eq_bind, Option.bind_some, Option.bind_assoc,
      Option.pure_def, harOf, Function.comp_def]
  rw [hsnippet, program_sends_iff fun body sent => (iff_of_eq (true_and _)).symm, true_and]
  exact curlBody_sends_iff (harOf js entry query) hlib hdata

theorem guzzle_sends_iff (hlib : libs.guzzle.Documented)
    (hquery : parseQuery (searchOf entry) = some query)
    (hdata : postDataOf js entry = some ⟨mimeTypeOf js entry, text, false⟩) :
    (∃ sent, (PhpGuzzle.snippet js entry).bind (GuzzleSnippet.sends libs.guzzle) = some sent ∧
        SameBody (kindOf js entry) sent text) ↔
      GuzzleKeeps js (guzzleRequest js libs entry) query text (kindOf js entry) := by
  have hsnippet : (PhpGuzzle.snippet js entry).bind (GuzzleSnippet.sends libs.guzzle) =
      (PhpGuzzle.body js (harOf js entry query)).bind fun body =>
        (body.value libs.guzzle).bind (guzzleRequest js libs entry) := by
    simp only [guzzleRequest, ← guzzleSnippet_sends]
    rw [PhpGuzzle.snippet, toHar, hquery]
    simp only [Option.map_some, Option.bind_eq_bind, Option.bind_some, Option.bind_assoc,
      Option.pure_def, harOf]
  rw [hsnippet, program_sends_iff fun body sent => (iff_of_eq (true_and _)).symm, true_and]
  exact guzzleBody_sends_iff (harOf js entry query) hlib hdata

/-- Every target and every captured body that is not taken for binary: the snippet sends the
body exactly when its URL and its way of writing the body let it through. -/
theorem captured_body_is_sent_iff (js : Js) (libs : Libraries) (hlibs : libs.Documented)
    (target : Target) (entry : InspectEntry) (text : CStr) (hbody : entry.body = some text)
    (hne : text ≠ []) (htext : isBinaryBody text = false) :
    SendsBody js libs entry target text ↔ Passes js libs entry target text := by
  have hdata : postDataOf js entry = some ⟨mimeTypeOf js entry, text, false⟩ :=
    postDataOf_text hbody hne htext
  rw [SendsBody, Passes]
  cases hquery : parseQuery (searchOf entry) with
  | none =>
    have hnone : toHar js entry = none := by rw [toHar, hquery]; rfl
    cases target <;> simp [sends, pySnippet, PhpCurl.snippet, PhpGuzzle.snippet, hnone]
  | some query =>
    simp only [Option.some.injEq, exists_eq_left']
    cases target with
    | pythonRequests => exact python_sends_iff hlibs.requests (.inl rfl) hquery hdata
    | pythonHttpx => exact python_sends_iff hlibs.httpx (.inr rfl) hquery hdata
    | phpCurl => exact curl_sends_iff hlibs.curl hquery hdata
    | phpGuzzle => exact guzzle_sends_iff hlibs.guzzle hquery hdata

/-- A form with pairs is not sent as an empty body. -/
theorem not_sendsBody {target : Target} (hkind : kindOf js entry = .form)
    (hpairs : formPairs text ≠ []) (hsends : sends js libs entry target = some []) :
    ¬ SendsBody js libs entry target text := by
  rintro ⟨sent, hsent, hsame⟩
  obtain rfl : [] = sent := Option.some.inj (hsends.symm.trans hsent)
  rw [hkind, SameBody] at hsame
  exact hpairs hsame.symm

/-! ## Instances -/

/-- JavaScript on ASCII texts that are no JSON. -/
def asciiJs : Js where
  toLowerCase := fun s => s.map tolower
  toUpperCase := fun s => s.map fun c => if 97 ≤ c && c ≤ 122 then c - 32 else c
  trim := id
  jsonReprint := fun _ => none

/-- What `urllib.parse.quote_plus` leaves as it is. -/
def pyPlain : Plain where
  mem := fun c => isDigit c || (65 ≤ c && c ≤ 90) || (97 ≤ c && c ≤ 122) || c == 95 || c == 46
    || c == 45 || c == 126
  clear := by decide

/-- What PHP's `urlencode` leaves as it is. -/
def phpPlain : Plain where
  mem := fun c => isDigit c || (65 ≤ c && c ≤ 90) || (97 ≤ c && c ≤ 122) || c == 95 || c == 46
    || c == 45
  clear := by decide

/-- A library that sends every request and encodes texts in UTF-8; no instance below has a JSON or
a binary body. -/
def willing {η : Type} (plain : Plain) : Library η where
  request := fun _ _ _ value =>
    match value with
    | .absent => some []
    | .text s => some s
    | .bytes s => some s
    | .json s => some s
    | .form pairs => some (plain.urlencode pairs)
  b64decode := some

theorem willing_documented {η : Type} (plain : Plain) : (willing plain : Library η).Documented where
  bytes_sent h := (Option.some.inj h).symm
  ascii_sent _ h := (Option.some.inj h).symm
  form_sent _ h := Option.some.inj h ▸ plain.formPairs_urlencode _

def willingLibraries : Libraries :=
  ⟨willing pyPlain, willing pyPlain, willing phpPlain, willing phpPlain⟩

theorem willingLibraries_documented : willingLibraries.Documented :=
  ⟨willing_documented _, willing_documented _, willing_documented _, willing_documented _⟩

def post (contentType body : String) : InspectEntry where
  domain := lit "example.com"
  dst_port := 443
  tls := true
  method := some (lit "POST")
  url := some (lit "/login")
  version := none
  headers := [(lit "Content-Type", lit contentType)]
  body := some (lit body)
  contentType := none

/-- `requests` sends an ASCII text, and cURL a verbatim one. -/
theorem greeting_is_sent :
    SendsBody asciiJs willingLibraries (post "text/plain" "hello") .pythonRequests (lit "hello") ∧
      SendsBody asciiJs willingLibraries (post "text/plain" "hello") .phpCurl (lit "hello") := by
  have hquery : parseQuery (searchOf (post "text/plain" "hello")) = some [] := by decide +kernel
  have hpython : Passes asciiJs willingLibraries (post "text/plain" "hello") .pythonRequests
      (lit "hello") := by
    refine ⟨[], hquery, ?_⟩
    have hkind : kindOf asciiJs (post "text/plain" "hello") = .other := by decide +kernel
    rw [hkind]
    exact ⟨⟨by decide +kernel, by decide +kernel⟩, by decide, .inl ⟨rfl, by decide⟩⟩
  have hcurl : Passes asciiJs willingLibraries (post "text/plain" "hello") .phpCurl
      (lit "hello") := by
    refine ⟨[], hquery, ?_⟩
    have hform : ¬ isFormMime (mimeOf asciiJs (post "text/plain" "hello")) = true := by
      decide +kernel
    show CurlKeeps _ _ _
    rw [CurlKeeps, if_neg hform]
    exact ⟨by decide +kernel, rfl, .inl (by decide)⟩
  exact ⟨(captured_body_is_sent_iff asciiJs willingLibraries willingLibraries_documented
      .pythonRequests (post "text/plain" "hello") (lit "hello") rfl (by decide)
      (by decide +kernel)).mpr hpython,
    (captured_body_is_sent_iff asciiJs willingLibraries willingLibraries_documented
      .phpCurl (post "text/plain" "hello") (lit "hello") rfl (by decide)
      (by decide +kernel)).mpr hcurl⟩

def loginForm : InspectEntry := post "application/x-www-form-urlencoded" "user=a"

/-- Without a query string the form goes out empty. -/
theorem form_is_dropped :
    loginForm.body = some (lit "user=a") ∧ isBinaryBody (lit "user=a") = false ∧
      kindOf asciiJs loginForm = .form ∧
      ∀ target ∈ [Target.pythonRequests, .pythonHttpx, .phpGuzzle],
        sends asciiJs willingLibraries loginForm target = some [] ∧
          ¬ SendsBody asciiJs willingLibraries loginForm target (lit "user=a") := by
  have hkind : kindOf asciiJs loginForm = .form := by decide +kernel
  have hpairs : formPairs (lit "user=a") ≠ [] := by decide +kernel
  have hsends : ∀ target ∈ [Target.pythonRequests, .pythonHttpx, .phpGuzzle],
      sends asciiJs willingLibraries loginForm target = some [] := by decide +kernel
  exact ⟨rfl, by decide +kernel, hkind, fun target h =>
    ⟨hsends target h, not_sendsBody hkind hpairs (hsends target h)⟩⟩

end Proxiflare.Guarantees.SnippetBodies
