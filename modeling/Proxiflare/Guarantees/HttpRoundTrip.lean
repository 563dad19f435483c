import Proxiflare.Daemon.Http
import Proxiflare.Lib.HttpText

/-!
# Parsing a head inverts writing it

Both parsers of `http_parser.c` on messages put together from their fields. The start
line is cut at its blanks, the header loop takes one field a turn, and the search for
the blank line stops where the head was closed.
-/

namespace Proxiflare.Guarantees.HttpRoundTrip

open Lib.CString Lib.HttpText
open Proxiflare.Daemon

/-- A header that fits its record. -/
structure HeaderFits (f : HeaderField) : Prop where
  name_ne_nil : f.name ≠ []
  name_length : f.name.length ≤ 255
  name_bytes : 58 ∉ f.name ∧ 13 ∉ f.name ∧ 0 ∉ f.name
  blanks : ∀ b ∈ f.blanks, Daemon.isBlank b = true
  value_length : f.value.length ≤ 4095
  value_bytes : 13 ∉ f.value ∧ 0 ∉ f.value
  value_head : ∀ b ∈ f.value.head?, Daemon.isBlank b = false

structure RequestText where
  method : CStr
  url : CStr
  version : CStr
  headers : List HeaderField
  body : CStr

/-- The fields fit the record, and none holds a separator of the request line. -/
structure RequestText.Fits (r : RequestText) : Prop where
  method : r.method.length ≤ 15 ∧ 32 ∉ r.method ∧ 13 ∉ r.method ∧ 0 ∉ r.method
  url : r.url.length ≤ 2047 ∧ 32 ∉ r.url ∧ 13 ∉ r.url ∧ 0 ∉ r.url
  version : r.version.length ≤ 15 ∧ 32 ∉ r.version ∧ 13 ∉ r.version ∧ 0 ∉ r.version
  count : r.headers.length ≤ 64
  headers : ∀ f ∈ r.headers, HeaderFits f

def RequestText.startLine (r : RequestText) : CStr :=
  r.method ++ 32 :: (r.url ++ 32 :: r.version)

structure ResponseText where
  version : CStr
  status : Nat
  statusText : CStr
  headers : List HeaderField
  body : CStr

structure ResponseText.Fits (r : ResponseText) : Prop where
  version : r.version.length ≤ 15 ∧ 32 ∉ r.version ∧ 13 ∉ r.version
  status : r.status < 2 ^ 31
  statusText : r.statusText.length ≤ 63 ∧ 13 ∉ r.statusText
  count : r.headers.length ≤ 64
  headers : ∀ f ∈ r.headers, HeaderFits f

def ResponseText.startLine (r : ResponseText) : CStr :=
  r.version ++ 32 :: (decimal r.status ++ 32 :: r.statusText)

/-- Start line, headers, blank line, body. -/
def written (startLine : CStr) (headers : List HeaderField) (body : CStr) : CStr :=
  headText (startLine :: headers.map HeaderField.line) ++ body

variable {c : UInt8} {s rest startLine body : CStr} {fields : List HeaderField}

/-! ## Cutting -/

theorem copyField_fits (size : Nat) (hlen : s.length ≤ size - 1) (hnul : 0 ∉ s) :
    copyField size s = s := by
  rw [copyField, List.take_of_length_le hlen, cstr_of_noNul hnul]

theorem copyField_short (size : Nat) (hlen : s.length ≤ size - 1) : copyField size s = cstr s := by
  rw [copyField, List.take_of_length_le hlen]

/-! ## The header loop -/

theorem isLine_line {f : HeaderField} (hf : HeaderFits f) : IsLine f.line := by
  refine ⟨List.append_ne_nil_of_left_ne_nil hf.name_ne_nil _, ?_⟩
  have hblanks : (13 : UInt8) ∉ f.blanks := fun hmem => absurd (hf.blanks 13 hmem) (by decide)
  simp [HeaderField.line, hf.name_bytes.2.1, hblanks, hf.value_bytes.1]

theorem dropWhile_blanks {f : HeaderField} (hf : HeaderFits f) :
    (f.blanks ++ f.value).dropWhile Daemon.isBlank = f.value := by
  have hall : f.blanks.dropWhile Daemon.isBlank = [] := by
    rw [List.dropWhile_eq_nil_iff]
    exact hf.blanks
  rw [List.dropWhile_append, hall, List.isEmpty_nil, if_pos rfl]
  cases hvalue : f.value with
  | nil => rfl
  | cons b value =>
    have hb := hf.value_head b (by rw [hvalue]; rfl)
    rw [List.dropWhile_cons_of_neg (by rw [hb]; decide)]

/-- One turn of the loop takes one field. -/
theorem parseHeaderLines_field {f : HeaderField} (hf : HeaderFits f) (n : Nat) (headers : List HttpHeader)
    (hcount : headers.length < pfHttpMaxHeaders) :
    parseHeaderLines (n + 1) (f.line ++ 13 :: 10 :: rest) headers =
      parseHeaderLines n rest (headers ++ [⟨f.name, f.value⟩]) := by
  have hline := isLine_line hf
  have heol : memchr (f.line ++ 13 :: 10 :: rest) 13 = some f.line.length :=
    memchr_append hline.noCr _
  have hcolon : memchr f.line 58 = some f.name.length := memchr_append hf.name_bytes.1 _
  obtain ⟨b, name, hname⟩ := List.exists_cons_of_ne_nil hf.name_ne_nil
  have hb : b ≠ 13 := fun heq => hf.name_bytes.2.1 (by rw [hname, heq]; exact List.mem_cons_self)
  have hfirst : ¬ (f.line ++ 13 :: 10 :: rest).take 2 = [13, 10] := by
    intro heq
    rw [HeaderField.line, hname, List.cons_append, List.cons_append] at heq
    exact hb (List.cons.inj heq).1
  have hne : ¬ (f.line ++ 13 :: 10 :: rest = [] ∨ pfHttpMaxHeaders ≤ headers.length) := by
    rintro (hnil | hfull)
    · exact hline.ne_nil (List.append_eq_nil_iff.mp hnil).1
    · omega
  have hkey : (f.line ++ 13 :: 10 :: rest).take f.name.length = f.name := by
    rw [HeaderField.line, List.append_assoc, List.take_left]
  have hvalue : f.line.drop (f.name.length + 1) = f.blanks ++ f.value := by
    rw [HeaderField.line, List.drop_append]
    simp
  have hnext : (f.line ++ 13 :: 10 :: rest).drop (f.line.length + 2) = rest := by
    rw [List.drop_append]
    simp
  rw [parseHeaderLines, if_neg hne, if_neg hfirst, heol]
  simp only [List.take_left, hcolon, hkey, hvalue, dropWhile_blanks hf, hnext,
    copyField_fits 256 hf.name_length hf.name_bytes.2.2,
    copyField_fits pfHttpMaxHeaderLen hf.value_length hf.value_bytes.2]

/-- All fields in their order, when there is room for them. -/
theorem parseHeaderLines_fields (hfields : ∀ f ∈ fields, HeaderFits f) (n : Nat)
    (headers : List HttpHeader) (hcount : headers.length + fields.length ≤ pfHttpMaxHeaders) :
    parseHeaderLines (n + 1 + fields.length) (headText (fields.map HeaderField.line)) headers =
      headers ++ fields.map fun f => ⟨f.name, f.value⟩ := by
  induction fields generalizing headers with
  | nil =>
    rw [List.map_nil, List.map_nil, List.append_nil, List.length_nil, Nat.add_zero,
      parseHeaderLines]
    have hblank : (headText []).take 2 = [13, 10] := rfl
    rw [if_pos hblank, ite_self]
  | cons f fields ih =>
    obtain ⟨hf, hfields⟩ := List.forall_mem_cons.mp hfields
    rw [List.length_cons] at hcount
    rw [List.map_cons, headText_cons, List.length_cons, ← Nat.add_assoc, parseHeaderLines_field hf _ _ (by omega),
      ih hfields _ (by rw [List.length_append, List.length_singleton]; omega), List.map_cons,
      List.append_assoc]
    rfl

theorem parseHeaders_fields (hfields : ∀ f ∈ fields, HeaderFits f)
    (hcount : fields.length ≤ pfHttpMaxHeaders) :
    parseHeaders (headText (fields.map HeaderField.line)) = fields.map fun f => ⟨f.name, f.value⟩ := by
  have hlen := length_lt_headText (fields.map HeaderField.line)
  rw [List.length_map] at hlen
  obtain ⟨n, hn⟩ : ∃ n, (headText (fields.map HeaderField.line)).length = n + 1 + fields.length :=
    ⟨(headText (fields.map HeaderField.line)).length - 1 - fields.length, by omega⟩
  have hloop := parseHeaderLines_fields hfields n [] (by rw [List.length_nil]; omega)
  rw [parseHeaders, hn, hloop, List.nil_append]

/-! ## The message around the headers -/

theorem isLine_startLine (hline : 13 ∉ startLine) (hne : startLine ≠ [])
    (hfields : ∀ f ∈ fields, HeaderFits f) :
    ∀ line ∈ startLine :: fields.map HeaderField.line, IsLine line := by
  intro line hmem
  rcases List.mem_cons.mp hmem with rfl | hmem
  · exact ⟨hne, hline⟩
  · obtain ⟨f, hf, rfl⟩ := List.mem_map.mp hmem
    exact isLine_line (hfields f hf)

/-- The offset both parsers find, and the parts they cut there. -/
theorem written_parts (hline : 13 ∉ startLine) (hne : startLine ≠ [])
    (hfields : ∀ f ∈ fields, HeaderFits f) (body : CStr) :
    findHeaderEnd (written startLine fields body) =
        (headText (startLine :: fields.map HeaderField.line)).length ∧
      memchr (written startLine fields body) 13 = some startLine.length ∧
      (written startLine fields body).take startLine.length = startLine ∧
      ((written startLine fields body).take
          (headText (startLine :: fields.map HeaderField.line)).length).drop (startLine.length + 2) =
        headText (fields.map HeaderField.line) ∧
      (written startLine fields body).drop
        (headText (startLine :: fields.map HeaderField.line)).length = body := by
  have hsplit : written startLine fields body =
      startLine ++ 13 :: 10 :: (headText (fields.map HeaderField.line) ++ body) := by
    rw [written, headText_cons, List.append_assoc, List.cons_append, List.cons_append]
  refine ⟨?_, ?_, ?_, ?_, ?_⟩
  · rw [findHeaderEnd_eq]
    exact headEnd_head (List.cons_ne_nil _ _) (isLine_startLine hline hne hfields) body
  · rw [hsplit]
    exact memchr_append hline _
  · rw [hsplit, List.take_left]
  · rw [written, List.take_left, headText_cons, List.drop_append]
    simp
  · rw [written, List.drop_left]

def stored (fields : List HeaderField) : List HttpHeader := fields.map fun f => ⟨f.name, f.value⟩

/-- The first `Content-Length` header, in any case. -/
def contentLengthField (fields : List HeaderField) : Option HeaderField :=
  fields.find? fun f => strcaseeq f.name (lit "Content-Length")

/-- A decimal number below 2^63 in that header is the content length. -/
def TellsLength (fields : List HeaderField) (contentLength : Int) : Prop :=
  ∀ f ∈ contentLengthField fields, IsDecimal f.value → decimalValue f.value < 2 ^ 63 →
    contentLength = decimalValue f.value

theorem withLength_tells (msg : HttpMsg) (hheaders : msg.headers = stored fields) :
    ∃ len, msg.withLength = { msg with contentLength := len } ∧ TellsLength fields len := by
  have hget : pfHttpGetHeader msg "Content-Length" =
      (contentLengthField fields).map HeaderField.value := by
    rw [pfHttpGetHeader, hheaders, stored, List.find?_map, Option.map_map]
    rfl
  unfold HttpMsg.withLength
  rw [hget]
  cases hfield : contentLengthField fields with
  | none =>
    refine ⟨msg.contentLength, rfl, fun f hf => ?_⟩
    rw [hfield] at hf
    cases hf
  | some f =>
    refine ⟨strtol f.value % 2 ^ 64, rfl, fun g hg hdec hlt => ?_⟩
    rw [hfield] at hg
    obtain rfl := Option.some.inj hg
    rw [strtol_of_isDecimal hdec hlt]
    omega

/-! ## The two parsers -/

/-- What is read back of a request, and of a response. The body is cut at 256 KiB. -/
def RequestText.parsed (r : RequestText) (len : Int) : HttpParsed where
  method := r.method
  url := r.url
  version := r.version
  headers := stored r.headers
  body := r.body.take pfHttpMaxBodyLen
  contentLength := len
  statusCode := 0
  statusText := []
  isRequest := true
  complete := true
  headerEnd := (headText (r.startLine :: r.headers.map HeaderField.line)).length

/-- Version and status text as C strings: whole unless they hold a NUL. -/
def ResponseText.parsed (r : ResponseText) (len : Int) : HttpParsed where
  method := []
  url := []
  version := cstr r.version
  headers := stored r.headers
  body := r.body.take pfHttpMaxBodyLen
  contentLength := len
  statusCode := r.status
  statusText := cstr r.statusText
  isRequest := false
  complete := true
  headerEnd := (headText (r.startLine :: r.headers.map HeaderField.line)).length

theorem request_round_trip (r : RequestText) (hr : r.Fits)
    (hten : 10 ≤ (written r.startLine r.headers r.body).length) :
    ∃ len, pfHttpParsedRequest (written r.startLine r.headers r.body) = some (r.parsed len) ∧
      TellsLength r.headers len := by
  have hline : (13 : UInt8) ∉ r.startLine := by
    simp [RequestText.startLine, hr.method.2.2.1, hr.url.2.2.1, hr.version.2.2.1]
  have hne : r.startLine ≠ [] := by simp [RequestText.startLine]
  obtain ⟨hend, heol, htake, hheaders, hbody⟩ := written_parts hline hne hr.headers r.body
  have hpos : ¬ (headText (r.startLine :: r.headers.map HeaderField.line)).length = 0 := by
    have hlt := length_lt_headText (r.startLine :: r.headers.map HeaderField.line)
    omega
  have hsp1 : memchr r.startLine 32 = some r.method.length := memchr_append hr.method.2.1 _
  have hrest : r.startLine.drop (r.method.length + 1) = r.url ++ 32 :: r.version := by
    rw [RequestText.startLine, List.drop_append]
    simp
  have hsp2 : memchr (r.url ++ 32 :: r.version) 32 = some r.url.length := memchr_append hr.url.2.1 _
  have hmethod : (written r.startLine r.headers r.body).take r.method.length = r.method := by
    rw [written, headText_cons, RequestText.startLine]
    simp only [List.append_assoc, List.take_left]
  have hversion : (r.url ++ 32 :: r.version).drop (r.url.length + 1) = r.version := by
    rw [List.drop_append]
    simp
  have hparsed := parseHeaders_fields hr.headers hr.count
  let msg : HttpMsg := ⟨r.method, r.url, r.version, stored r.headers,
    r.body.take pfHttpMaxBodyLen, 0, 0, []⟩
  obtain ⟨len, hlen, htells⟩ := withLength_tells msg (show msg.headers = stored r.headers from rfl)
  refine ⟨len, ?_, htells⟩
  have hparse : pfHttpParseRequest (written r.startLine r.headers r.body) = some msg.withLength := by
    rw [pfHttpParseRequest, if_neg (by omega), hend]
    simp only [if_neg hpos, heol, htake, hsp1, hrest, hsp2, hmethod, hversion, hheaders, hparsed,
      hbody, List.take_left, copyField_fits 16 hr.method.1 hr.method.2.2.2,
      copyField_fits pfHttpMaxUrlLen hr.url.1 hr.url.2.2.2,
      copyField_fits 16 hr.version.1 hr.version.2.2.2, Option.bind_eq_bind, Option.bind_some,
      Option.pure_def]
    rfl
  rw [pfHttpParsedRequest, hparse, hlen, Option.map_some, HttpMsg.parsed, hend]
  rfl

theorem response_round_trip (r : ResponseText) (hr : r.Fits)
    (hten : 10 ≤ (written r.startLine r.headers r.body).length) :
    ∃ len, pfHttpParsedResponse (written r.startLine r.headers r.body) = some (r.parsed len) ∧
      TellsLength r.headers len := by
  have hdigits : ∀ {b : UInt8}, isDigit b = false → b ∉ decimal r.status := by
    intro b hb hmem
    rw [isDigit_of_mem_decimal hmem] at hb
    cases hb
  have hline : (13 : UInt8) ∉ r.startLine := by
    simp [ResponseText.startLine, hr.version.2.2, hr.statusText.2, hdigits (show isDigit 13 = false by decide)]
  have hne : r.startLine ≠ [] := by simp [ResponseText.startLine]
  obtain ⟨hend, heol, htake, hheaders, hbody⟩ := written_parts hline hne hr.headers r.body
  have hpos : ¬ (headText (r.startLine :: r.headers.map HeaderField.line)).length = 0 := by
    have hlt := length_lt_headText (r.startLine :: r.headers.map HeaderField.line)
    omega
  have hsp1 : memchr r.startLine 32 = some r.version.length := memchr_append hr.version.2.1 _
  have hrest : r.startLine.drop (r.version.length + 1) = decimal r.status ++ 32 :: r.statusText := by
    rw [ResponseText.startLine, List.drop_append]
    simp
  have hsp2 : memchr (decimal r.status ++ 32 :: r.statusText) 32 = some (decimal r.status).length :=
    memchr_append (hdigits (by decide)) _
  have hversion : (written r.startLine r.headers r.body).take r.version.length = r.version := by
    rw [written, headText_cons, ResponseText.startLine]
    simp only [List.append_assoc, List.take_left]
  have hstatus : atoi ((written r.startLine r.headers r.body).drop (r.version.length + 1)) =
      r.status := by
    have hdrop : (written r.startLine r.headers r.body).drop (r.version.length + 1) =
        decimal r.status ++ 32 :: (r.statusText ++ 13 :: 10 ::
          (headText (r.headers.map HeaderField.line) ++ r.body)) := by
      rw [written, headText_cons, ResponseText.startLine]
      simp [List.drop_append]
    rw [hdrop]
    exact atoi_decimal hr.status (by decide) _
  have htext : (decimal r.status ++ 32 :: r.statusText).drop ((decimal r.status).length + 1) =
      r.statusText := by
    rw [List.drop_append]
    simp
  have hparsed := parseHeaders_fields hr.headers hr.count
  let msg : HttpMsg := ⟨[], [], cstr r.version, stored r.headers, r.body.take pfHttpMaxBodyLen, 0,
    r.status, cstr r.statusText⟩
  obtain ⟨len, hlen, htells⟩ := withLength_tells msg (show msg.headers = stored r.headers from rfl)
  refine ⟨len, ?_, htells⟩
  have hparse : pfHttpParseResponse (written r.startLine r.headers r.body) =
      some msg.withLength := by
    rw [pfHttpParseResponse, if_neg (by omega), hend]
    simp only [if_neg hpos, heol, htake, hsp1, hrest, hsp2, hversion, hstatus, htext, hheaders,
      hparsed, hbody, copyField_short 16 hr.version.1, copyField_short 64 hr.statusText.1,
      Option.bind_eq_bind, Option.bind_some, Option.pure_def]
    rfl
  rw [pfHttpParsedResponse, hparse, hlen, Option.map_some, HttpMsg.parsed, hend]
  rfl

/-- For every request and every response whose fields fit, of at least ten bytes. -/
theorem http_round_trip :
    (∀ r : RequestText, r.Fits → 10 ≤ (written r.startLine r.headers r.body).length →
      ∃ len, pfHttpParsedRequest (written r.startLine r.headers r.body) = some (r.parsed len) ∧
        TellsLength r.headers len) ∧
    (∀ r : ResponseText, r.Fits → 10 ≤ (written r.startLine r.headers r.body).length →
      ∃ len, pfHttpParsedResponse (written r.startLine r.headers r.body) = some (r.parsed len) ∧
        TellsLength r.headers len) :=
  ⟨request_round_trip, response_round_trip⟩

/-- A header with blanks before its value, and a length in another case. -/
def sampleRequest : RequestText where
  method := lit "PUT"
  url := lit "/a"
  version := lit "HTTP/1.1"
  headers := [⟨lit "Host", [32], lit "a.b"⟩, ⟨lit "content-length", [32, 9], lit "2"⟩]
  body := lit "ok"

theorem sampleRequest_fits : sampleRequest.Fits where
  method := by decide
  url := by decide
  version := by decide
  count := by decide
  headers := by
    intro f hf
    simp only [sampleRequest, List.mem_cons, List.not_mem_nil, or_false] at hf
    rcases hf with rfl | rfl
    · exact ⟨by decide, by decide, by decide, by simp [Daemon.isBlank], by decide, by decide,
        fun b hb => by cases hb; rfl⟩
    · exact ⟨by decide, by decide, by decide, by simp [Daemon.isBlank], by decide, by decide,
        fun b hb => by cases hb; rfl⟩

def sampleResponse : ResponseText := ⟨lit "HTTP/1.1", 204, lit "No Content", [], []⟩

theorem sampleResponse_fits : sampleResponse.Fits :=
  ⟨by decide, by decide, by decide, by decide, List.forall_mem_nil _⟩

theorem samples_round_trip :
    (∃ len, pfHttpParsedRequest (written sampleRequest.startLine sampleRequest.headers
        sampleRequest.body) = some (sampleRequest.parsed len) ∧
      TellsLength sampleRequest.headers len) ∧
    ∃ len, pfHttpParsedResponse (written sampleResponse.startLine sampleResponse.headers
        sampleResponse.body) = some (sampleResponse.parsed len) ∧
      TellsLength sampleResponse.headers len :=
  ⟨http_round_trip.1 sampleRequest sampleRequest_fits (by decide),
    http_round_trip.2 sampleResponse sampleResponse_fits (by decide)⟩

end Proxiflare.Guarantees.HttpRoundTrip
