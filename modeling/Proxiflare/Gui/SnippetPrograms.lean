import Proxiflare.Gui.Snippets

/-!
# What the snippets send

The meaning of a snippet as a program of its target language: its literals are read by
the rules of that language, and what a client library does with them is a parameter, of which
`Library.Documented` says what its documentation promises.
-/

namespace Proxiflare.Gui

open Lib.CString
open Lib.UrlForm
open Lib.StringLiteral

/-! ## Dictionaries -/

/-- A later entry replaces the value of an earlier one of its name, in its place. -/
def dictInsert (dict : List (CStr × CStr)) (p : CStr × CStr) : List (CStr × CStr) :=
  if dict.any (·.1 == p.1) then dict.map fun q => if q.1 = p.1 then p else q else dict ++ [p]

/-- The dictionary or array that rows of names and values make. -/
def dictOf (pairs : List (CStr × CStr)) : List (CStr × CStr) := pairs.foldl dictInsert []

def readRow (q : Quoting) (row : CStr × CStr) : Option (CStr × CStr) := do
  let name ← q.read row.1
  let value ← q.read row.2
  return (name, value)

def readRows (q : Quoting) (rows : List (CStr × CStr)) : Option (List (CStr × CStr)) :=
  rows.mapM (readRow q)

/-- A dictionary has each name once. -/
theorem dictOf_nodup (pairs : List (CStr × CStr)) : ((dictOf pairs).map Prod.fst).Nodup := by
  have hinsert : ∀ dict p, (dict.map Prod.fst).Nodup → ((dictInsert dict p).map Prod.fst).Nodup := by
    intro dict p hdict
    rw [dictInsert]
    split
    · -- the names stay as they were
      have hnames : (dict.map fun q => if q.1 = p.1 then p else q).map Prod.fst = dict.map Prod.fst := by
        rw [List.map_map]
        refine List.map_congr_left fun q _ => ?_
        rw [Function.comp_apply]
        split
        · next heq => exact heq.symm
        · rfl
      rwa [hnames]
    · next hnew =>
      rw [List.map_append, List.map_singleton, List.nodup_append]
      refine ⟨hdict, List.nodup_singleton _, fun a ha b hb hab => hnew ?_⟩
      obtain ⟨q, hq, rfl⟩ := List.mem_map.mp ha
      rw [List.any_eq_true]
      exact ⟨q, hq, beq_iff_eq.mpr (hab.trans (List.mem_singleton.mp hb))⟩
  have hfold : ∀ dict, (dict.map Prod.fst).Nodup →
      ((pairs.foldl dictInsert dict).map Prod.fst).Nodup := by
    induction pairs with
    | nil => exact fun _ h => h
    | cons p pairs ih => exact fun dict h => ih _ (hinsert dict p h)
  exact hfold [] List.nodup_nil

/-! ## Client libraries -/

/-- What a program passes to its client library as the body of a request: nothing, a text, bytes,
the value that the language reads from a JSON text, or names and values. A string of PHP is bytes. -/
inductive BodyValue where
  | absent
  | text (s : CStr)
  | bytes (s : CStr)
  | json (s : CStr)
  | form (pairs : List (CStr × CStr))

/-- A client library with its language's: the body of the request that it sends for a method, URL,
headers and value, `none` where it sends no request; and the language's base64. -/
structure Library (η : Type) where
  request : Option CStr → CStr → η → BodyValue → Option CStr
  b64decode : CStr → Option CStr

/-- What the documentation of a client library says of the bodies of its requests. How a text that
is not ASCII is encoded, and how the value of a JSON text is written, is left open. -/
structure Library.Documented {η : Type} (lib : Library η) : Prop where
  bytes_sent : ∀ {method url headers s sent},
    lib.request method url headers (.bytes s) = some sent → sent = s
  ascii_sent : ∀ {method url headers s sent}, s.all (· < 128) = true →
    lib.request method url headers (.text s) = some sent → sent = s
  form_sent : ∀ {method url headers pairs sent}, (pairs.map Prod.fst).Nodup →
    lib.request method url headers (.form pairs) = some sent → formPairs sent = pairs

/-- The client libraries of the four targets. -/
structure Libraries where
  requests : Library (List (CStr × CStr))
  httpx : Library (List (CStr × CStr))
  curl : Library (List CStr)
  guzzle : Library (List (CStr × CStr))

structure Libraries.Documented (libs : Libraries) : Prop where
  requests : libs.requests.Documented
  httpx : libs.httpx.Documented
  curl : libs.curl.Documented
  guzzle : libs.guzzle.Documented

/-! ## Programs -/

section Programs

variable {η : Type}

/-- The value that is passed, `none` when the program gives up before it; `ofText` is what is done
with a text. -/
def PyBody.value (lib : Library η) (ofText : CStr → BodyValue) : PyBody → Option BodyValue
  | .absent => some .absent
  | .base64 l => ((python.read l).bind lib.b64decode).map .bytes
  | .json l => (python.read l).map .json
  | .form rows => (readRows python rows).map fun pairs => .form (dictOf pairs)
  | .text l => (python.read l).map ofText

def PySnippet.sends (lib : Library (List (CStr × CStr))) (ofText : CStr → BodyValue)
    (p : PySnippet) : Option CStr := do
  let url ← python.read p.url
  let headers ← readRows python p.headers
  let value ← p.body.value lib ofText
  lib.request (some p.method) url (dictOf headers) value

/-- A verbatim text that a line of its own closes too early leaves a program that the
generator did not write; it counts as sending nothing. -/
def PhpBody.value (lib : Library η) : PhpBody → Option BodyValue
  | .absent => some .absent
  | .base64 l => ((php.read l).bind lib.b64decode).map .bytes
  | .json l => (php.read l).map .json
  | .form rows => (readRows php rows).map fun pairs => .form (dictOf pairs)
  | .text l => (php.read l).map .bytes
  | .verbatim t =>
    match nowdoc PhpCurl.label (t ++ 10 :: (PhpCurl.label ++ PhpCurl.afterLabel)) with
    | some (body, rest) => if rest = PhpCurl.afterLabel then some (.bytes body) else none
    | none => none

def CurlSnippet.sends (lib : Library (List CStr)) (p : CurlSnippet) : Option CStr := do
  let url ← php.read p.url
  let headers ← p.headers.mapM php.read
  let value ← p.body.value lib
  lib.request (p.method.bind php.read) url headers value

def GuzzleSnippet.sends (lib : Library (List (CStr × CStr))) (p : GuzzleSnippet) :
    Option CStr := do
  let method ← php.read p.method
  let url ← php.read p.url
  let headers ← readRows php p.headers
  let value ← p.body.value lib
  lib.request (some method) url (dictOf headers) value

end Programs

inductive Target where
  | pythonRequests
  | pythonHttpx
  | phpCurl
  | phpGuzzle

/-- The body of the request that the snippet for an entry sends, `none` when there is no
snippet or it sends no request. To `requests` a text is passed as it is (`data=data`), to `httpx`
as its UTF-8 (`content=data.encode()`). -/
def sends (js : Js) (libs : Libraries) (entry : InspectEntry) : Target → Option CStr
  | .pythonRequests => (pySnippet js entry).bind (PySnippet.sends libs.requests .text)
  | .pythonHttpx => (pySnippet js entry).bind (PySnippet.sends libs.httpx .bytes)
  | .phpCurl => (PhpCurl.snippet js entry).bind (CurlSnippet.sends libs.curl)
  | .phpGuzzle => (PhpGuzzle.snippet js entry).bind (GuzzleSnippet.sends libs.guzzle)

/-! ## Lines -/

theorem joinLines_singleton (l : CStr) : joinLines [l] = l := by
  simp [joinLines]

theorem joinLines_cons {l : CStr} {ls : List CStr} (hne : ls ≠ []) :
    joinLines (l :: ls) = l ++ 10 :: joinLines ls := by
  obtain ⟨l', ls, rfl⟩ := List.exists_cons_of_ne_nil hne
  simp [joinLines, List.intercalate]

theorem joinLines_append {ls ls' : List CStr} (hne : ls ≠ []) (hne' : ls' ≠ []) :
    joinLines (ls ++ ls') = joinLines ls ++ 10 :: joinLines ls' := by
  induction ls with
  | nil => exact absurd rfl hne
  | cons l ls ih =>
    rw [List.cons_append, joinLines_cons (List.append_ne_nil_of_right_ne_nil ls hne')]
    by_cases hls : ls = []
    · rw [hls, List.nil_append, joinLines_singleton]
    · rw [ih hls, joinLines_cons hls, List.append_assoc, List.cons_append]

theorem head?_joinLines {l : CStr} {ls : List CStr} (hne : l ≠ []) :
    (joinLines (l :: ls)).head? = l.head? := by
  by_cases hls : ls = []
  · rw [hls, joinLines_singleton]
  · rw [joinLines_cons hls, List.head?_append_of_ne_nil l hne]

/-! ## Literals are read back -/

/-- Replacing in a text is replacing in each of its bytes. -/
theorem replaceAll_flatMap (c : UInt8) (r s : CStr) (f : UInt8 → CStr) :
    replaceAll c r (s.flatMap f) = s.flatMap fun b => replaceAll c r (f b) := by
  rw [replaceAll, List.flatMap_assoc]
  rfl

theorem pyStr_eq (s : CStr) : pyStr s = python.write s := by
  have hbyte : (fun b => replaceAll 9 (lit "\\t") (replaceAll 13 (lit "\\r")
      (replaceAll 10 (lit "\\n") (replaceAll 34 (lit "\\\"")
        (if b = 92 then lit "\\\\" else [b]))))) = python.escapeByte :=
    ext_bytes (by decide +kernel)
  rw [pyStr, Quoting.write, replaceAll.eq_def 92, replaceAll_flatMap, replaceAll_flatMap,
    replaceAll_flatMap, replaceAll_flatMap, hbyte]
  rfl

theorem phpStr_eq (s : CStr) : phpStr s = php.write s := by
  have hbyte : (fun b => replaceAll 39 (lit "\\'") (if b = 92 then lit "\\\\" else [b]))
      = php.escapeByte := ext_bytes (by decide +kernel)
  rw [phpStr, Quoting.write, replaceAll.eq_def 92, replaceAll_flatMap, hbyte]
  rfl

theorem read_pyStr (s : CStr) : python.read (pyStr s) = if 0 ∈ s then none else some s := by
  have hholds : python.holds = fun b => b != 0 := ext_bytes (by decide +kernel)
  rw [pyStr_eq, Quoting.read_write, hholds]
  by_cases h0 : 0 ∈ s
  · have hall : s.all (· != 0) = false := by simpa using h0
    rw [if_pos h0, hall]
    rfl
  · have hall : s.all (· != 0) = true := by
      simpa using fun b hb => ne_of_mem_of_not_mem hb h0
    rw [if_neg h0, hall]
    rfl

theorem read_phpStr (s : CStr) : php.read (phpStr s) = some s := by
  have hholds : ∀ b, php.holds b = true := by
    intro b
    simp [Quoting.holds, php]
  rw [phpStr_eq, Quoting.read_write, if_pos (List.all_eq_true.mpr fun b _ => hholds b)]

example : php.read (phpStr (lit "a\\b")) = some (lit "a\\b") := by decide +kernel

/-- None of the pairs holds a NUL. -/
def NulFree (pairs : List (CStr × CStr)) : Prop := ∀ p ∈ pairs, 0 ∉ p.1 ∧ 0 ∉ p.2

instance (pairs : List (CStr × CStr)) : Decidable (NulFree pairs) :=
  inferInstanceAs (Decidable (∀ p ∈ pairs, 0 ∉ p.1 ∧ 0 ∉ p.2))

theorem readRow_php (p : CStr × CStr) : readRow php (phpStr p.1, phpStr p.2) = some p := by
  simp [readRow, read_phpStr]

theorem readRow_python (p : CStr × CStr) :
    readRow python (pyStr p.1, pyStr p.2) = if 0 ∉ p.1 ∧ 0 ∉ p.2 then some p else none := by
  by_cases h1 : 0 ∈ p.1 <;> by_cases h2 : 0 ∈ p.2 <;> simp [readRow, read_pyStr, h1, h2]

theorem readRows_phpRows (pairs : List (CStr × CStr)) :
    readRows php (phpRows pairs) = some pairs := by
  induction pairs with
  | nil => rfl
  | cons p pairs ih =>
    rw [readRows, phpRows] at ih ⊢
    rw [List.map_cons, List.mapM_cons, readRow_php, ih]
    rfl

theorem readRows_pyRows {pairs rows : List (CStr × CStr)} :
    readRows python (pyRows pairs) = some rows ↔ NulFree pairs ∧ rows = pairs := by
  induction pairs generalizing rows with
  | nil => simp [readRows, pyRows, NulFree, eq_comm]
  | cons p pairs ih =>
    rw [readRows, pyRows] at ih
    rw [readRows, pyRows, List.map_cons, List.mapM_cons, readRow_python, NulFree,
      List.forall_mem_cons, ← NulFree]
    by_cases h : 0 ∉ p.1 ∧ 0 ∉ p.2
    · rw [if_pos h]
      simp only [Option.bind_eq_bind, Option.bind_some, Option.bind_eq_some_iff, ih, pure,
        Option.some.injEq]
      constructor
      · rintro ⟨rest, ⟨hfree, rfl⟩, rfl⟩
        exact ⟨⟨h, hfree⟩, rfl⟩
      · rintro ⟨⟨-, hfree⟩, rfl⟩
        exact ⟨pairs, ⟨hfree, rfl⟩, rfl⟩
    · rw [if_neg h]
      simp [h]

end Proxiflare.Gui
