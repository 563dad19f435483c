import Proxiflare.Lib.UrlForm

/-!
# Captured requests for the snippet generators

`gui/src/lib/snippet-gen/har.ts`. Strings are their UTF-8 bytes, records their entries in
order.
-/

namespace Proxiflare.Gui

open Lib.CString
open Lib.UrlForm

/-- The parts of the JavaScript library that rest on Unicode tables or on doubles.
`jsonReprint` is `JSON.stringify(JSON.parse(s))`, and `none` where `JSON.parse` throws. -/
structure Js where
  toLowerCase : CStr → CStr
  toUpperCase : CStr → CStr
  trim : CStr → CStr
  jsonReprint : CStr → Option CStr

/-! ## `decodeURIComponent` -/

/-- Every `%` must start an escape. -/
def percentUnescape : CStr → Option CStr
  | [] => some []
  | c :: s =>
    if c = 37 then
      match s with
      | a :: b :: t => do
        let x ← hexByte a b
        let rest ← percentUnescape t
        return x :: rest
      | _ => none
    else (percentUnescape s).map (c :: ·)

/-- `none` for a `URIError`: the bytes must be UTF-8 as well. -/
def decodeURIComponent (s : CStr) : Option CStr :=
  (percentUnescape s).filter fun t => (ByteArray.mk t.toArray).validateUTF8

/-! ## `toHar` -/

abbrev HarHeader := CStr × CStr
abbrev HarQuery := CStr × CStr
abbrev HarCookie := CStr × CStr

structure HarPostData where
  mimeType : CStr
  text : CStr
  isBinary : Bool

structure HarRequest where
  method : CStr
  url : CStr
  httpVersion : CStr
  headers : List HarHeader
  queryString : List HarQuery
  postData : Option HarPostData
  cookies : List HarCookie

structure InspectEntry where
  domain : CStr
  dst_port : Nat
  tls : Bool
  method : Option CStr
  url : Option CStr
  version : Option CStr
  headers : List (CStr × CStr)
  body : Option CStr
  contentType : Option CStr

def stripHeaderNames : List CStr :=
  [lit "content-length", lit "content-encoding", lit "transfer-encoding", lit "host",
    lit "connection"]

variable (js : Js)

def stripHeaders (raw : List (CStr × CStr)) : List HarHeader :=
  raw.filter fun h =>
    !stripHeaderNames.contains (js.toLowerCase h.1) && (js.toLowerCase h.1).head? != some 58

/-- `Object.entries(raw).find(([k]) => k.toLowerCase() === name)`. -/
def findHeader (raw : List (CStr × CStr)) (name : CStr) : Option CStr :=
  (raw.find? fun h => js.toLowerCase h.1 == name).map (·.2)

def parseCookie (part : CStr) : Option HarCookie :=
  if part.contains 61 then
    some (js.trim (part.takeWhile (· ≠ 61)), js.trim ((part.dropWhile (· ≠ 61)).drop 1))
  else none

def parseCookies (raw : List (CStr × CStr)) : List HarCookie :=
  match findHeader js raw (lit "cookie") with
  | none => []
  | some value => (value.splitOn 59).filterMap (parseCookie js)

def parseQueryPart (part : CStr) : Option HarQuery :=
  if part.contains 61 then do
    let name ← decodeURIComponent (part.takeWhile (· ≠ 61))
    let value ← decodeURIComponent ((part.dropWhile (· ≠ 61)).drop 1)
    return (name, value)
  else do
    let name ← decodeURIComponent part
    return (name, [])

def parseQuery (search : CStr) : Option (List HarQuery) :=
  let qs := if search.head? = some 63 then search.tail else search
  ((qs.splitOn 38).filter (· ≠ [])).mapM parseQueryPart

/-- The UTF-16 code units that start with a byte of UTF-8. -/
def unitsAt (b : UInt8) : Nat :=
  if b < 128 then 1 else if b < 192 then 0 else if b < 240 then 1 else 2

/-- A NUL among the first `n` code units. -/
def nulWithin : Nat → CStr → Bool
  | _, [] => false
  | n, b :: s => decide (0 < n) && (b == 0 || nulWithin (n - unitsAt b) s)

def isBinaryBody (body : CStr) : Bool := nulWithin 512 body

/-- `value || fallback`. -/
def orDefault (value : Option CStr) (fallback : CStr) : CStr :=
  match value with
  | some (b :: s) => b :: s
  | _ => fallback

def methodOf (entry : InspectEntry) : CStr := js.toUpperCase (orDefault entry.method (lit "GET"))

def pathFull (entry : InspectEntry) : CStr := orDefault entry.url (lit "/")

/-- From the first `?` on. -/
def searchOf (entry : InspectEntry) : CStr := (pathFull entry).dropWhile (· ≠ 63)

def urlOf (entry : InspectEntry) : CStr :=
  (if entry.tls then lit "https" else lit "http") ++ lit "://" ++ entry.domain
    ++ (pathFull entry).takeWhile (· ≠ 63) ++ searchOf entry

def mimeTypeOf (entry : InspectEntry) : CStr :=
  ((findHeader js entry.headers (lit "content-type")).or entry.contentType).getD
    (lit "application/octet-stream")

def postDataOf (entry : InspectEntry) : Option HarPostData :=
  match entry.body with
  | some (b :: s) => some ⟨mimeTypeOf js entry, b :: s, isBinaryBody (b :: s)⟩
  | _ => none

def harOf (entry : InspectEntry) (queryString : List HarQuery) : HarRequest where
  method := methodOf js entry
  url := urlOf entry
  httpVersion := orDefault entry.version (lit "HTTP/1.1")
  headers := stripHeaders js entry.headers
  queryString := queryString
  postData := postDataOf js entry
  cookies := parseCookies js entry.headers

/-- `none` when `decodeURIComponent` throws. -/
def toHar (entry : InspectEntry) : Option HarRequest :=
  (parseQuery (searchOf entry)).map (harOf js entry)

end Proxiflare.Gui
