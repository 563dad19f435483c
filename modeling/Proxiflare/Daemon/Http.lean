import Proxiflare.Daemon.Types
import Proxiflare.Daemon.Ipc
import Proxiflare.Lib.HttpText

/-!
# Parsing captured HTTP messages

`daemon/src/http_parser.c` and `body_decode.c`. A buffer is the list of its bytes; a
`char` array of the parsed message is the C string it holds. The decompressors are
parameters: input and capacity to the bytes produced, or failure.
-/

namespace Proxiflare.Daemon

open Lib.CString

def pfHttpMaxHeaders : Nat := 64
def pfHttpMaxHeaderLen : Nat := 4096
def pfHttpMaxUrlLen : Nat := 2048
def pfHttpMaxBodyLen : Nat := 256 * 1024

structure HttpHeader where
  key : CStr
  value : CStr
  deriving DecidableEq

/-- `pf_http_msg_t`. `body` is the captured part, empty for a null pointer. -/
structure HttpMsg where
  method : CStr
  url : CStr
  version : CStr
  headers : List HttpHeader
  body : CStr
  contentLength : Int
  statusCode : Int
  statusText : CStr
  deriving DecidableEq

/-- Up to `size - 1` bytes copied into a zeroed `char buf[size]`. -/
def copyField (size : Nat) (bytes : CStr) : CStr := cstr (bytes.take (size - 1))

/-! ## Headers -/

/-- The offset past `\r\n\r\n`, or 0. -/
def findHeaderEnd : CStr → Nat
  | [] => 0
  | b :: rest =>
    if (b :: rest).take 4 = [13, 10, 13, 10] then 4
    else match findHeaderEnd rest with
      | 0 => 0
      | n + 1 => n + 2

theorem findHeaderEnd_eq (buf : CStr) : findHeaderEnd buf = Lib.HttpText.headEnd buf := by
  induction buf with
  | nil => rfl
  | cons b rest ih =>
    cases hend : Lib.HttpText.headEnd rest with
    | zero => simp only [findHeaderEnd, Lib.HttpText.headEnd, ih, hend]
    | succ n => simp only [findHeaderEnd, Lib.HttpText.headEnd, ih, hend]

def isBlank (b : UInt8) : Bool := b = 32 || b = 9

/-- `while (p < end)`, at most `n` turns. A line without a colon is skipped. -/
def parseHeaderLines : Nat → CStr → List HttpHeader → List HttpHeader
  | 0, _, headers => headers
  | n + 1, p, headers =>
    if p = [] ∨ pfHttpMaxHeaders ≤ headers.length then headers
    else if p.take 2 = [13, 10] then headers
    else match memchr p 13 with
      | none => headers
      | some eol =>
        match memchr (p.take eol) 58 with
        | none => parseHeaderLines n (p.drop (eol + 2)) headers
        | some colon =>
          let value := ((p.take eol).drop (colon + 1)).dropWhile isBlank
          parseHeaderLines n (p.drop (eol + 2)) (headers ++
            [⟨copyField 256 (p.take colon), copyField pfHttpMaxHeaderLen value⟩])

def parseHeaders (start : CStr) : List HttpHeader := parseHeaderLines start.length start []

/-- The first header of that name, in any case. -/
def pfHttpGetHeader (msg : HttpMsg) (key : String) : Option CStr :=
  (msg.headers.find? fun h => strcaseeq h.key (lit key)).map HttpHeader.value

/-- `msg->content_length = (size_t)atol(cl)`. -/
def HttpMsg.withLength (msg : HttpMsg) : HttpMsg :=
  match pfHttpGetHeader msg "Content-Length" with
  | some cl => { msg with contentLength := strtol cl % 2 ^ 64 }
  | none => msg

/-! ## The two parsers -/

def pfHttpParseRequest (buf : CStr) : Option HttpMsg :=
  if buf.length < 10 then none
  else
    let hend := findHeaderEnd buf
    if hend = 0 then none
    else do
      let eol ← memchr buf 13
      let sp1 ← memchr (buf.take eol) 32
      let p := (buf.take eol).drop (sp1 + 1)
      let sp2 ← memchr p 32
      let msg : HttpMsg := {
        method := copyField 16 (buf.take sp1)
        url := copyField pfHttpMaxUrlLen (p.take sp2)
        version := copyField 16 (p.drop (sp2 + 1))
        headers := parseHeaders ((buf.take hend).drop (eol + 2))
        body := (buf.drop hend).take pfHttpMaxBodyLen
        contentLength := 0
        statusCode := 0
        statusText := [] }
      pure msg.withLength

def pfHttpParseResponse (buf : CStr) : Option HttpMsg :=
  if buf.length < 10 then none
  else
    let hend := findHeaderEnd buf
    if hend = 0 then none
    else do
      let eol ← memchr buf 13
      let sp1 ← memchr (buf.take eol) 32
      let p := (buf.take eol).drop (sp1 + 1)
      let msg : HttpMsg := {
        method := []
        url := []
        version := copyField 16 (buf.take sp1)
        headers := parseHeaders ((buf.take hend).drop (eol + 2))
        body := (buf.drop hend).take pfHttpMaxBodyLen
        contentLength := 0
        statusCode := atoi (buf.drop (sp1 + 1))
        statusText := match memchr p 32 with
          | some sp2 => copyField 64 (p.drop (sp2 + 1))
          | none => [] }
      pure msg.withLength

/-- `pf_http_msg_t` with its parse state, once a parser has returned 0. -/
structure HttpParsed extends HttpMsg where
  isRequest : Bool
  complete : Bool
  headerEnd : Nat
  deriving DecidableEq

def HttpMsg.parsed (isRequest : Bool) (buf : CStr) (msg : HttpMsg) : HttpParsed :=
  { msg with isRequest := isRequest, complete := true, headerEnd := findHeaderEnd buf }

/-- The message `pf_http_parse_request` fills in, `none` for -1. -/
def pfHttpParsedRequest (buf : CStr) : Option HttpParsed :=
  (pfHttpParseRequest buf).map (HttpMsg.parsed true buf)

def pfHttpParsedResponse (buf : CStr) : Option HttpParsed :=
  (pfHttpParseResponse buf).map (HttpMsg.parsed false buf)

/-! ## Bodies -/

/-- zlib, brotli and zstd as `decode_gzip`, `decode_brotli` and `decode_zstd` use them. -/
structure Codecs where
  gzip : CStr → Nat → Option CStr
  brotli : CStr → Nat → Option CStr
  zstd : CStr → Nat → Option CStr

/-- An unknown encoding is copied, as none is. -/
def pfBodyDecode (codecs : Codecs) (encoding : Option CStr) (input : CStr) (cap : Nat) :
    Option CStr :=
  if cap = 0 then none
  else if input = [] then some []
  else
    let enc := encoding.getD []
    if enc = [] ∨ strcaseeq enc (lit "identity") then some (input.take cap)
    else if strncaseeq enc (lit "gzip") 4 ∨ strncaseeq enc (lit "x-gzip") 6 ∨
        strncaseeq enc (lit "deflate") 7 then codecs.gzip input cap
    else if strncaseeq enc (lit "br") 2 then codecs.brotli input cap
    else if strncaseeq enc (lit "zstd") 4 then codecs.zstd input cap
    else some (input.take cap)

end Proxiflare.Daemon
