import Proxiflare.Daemon.CaptureEntry
import Proxiflare.Daemon.CaptureRing
import Proxiflare.Gui.ReadJson
import Proxiflare.Guarantees.HttpRoundTrip
import Proxiflare.Guarantees.ReadableReplies

/-!
# The headers the GUI receives

`capture_process_msg` adds one member for each header, and the client reads the object into a map:
of a repeated name the last value is left. A text that is not UTF-8 costs the whole reply.
-/

namespace Proxiflare.Guarantees.CapturedHeaders

open Lib.CString Lib.HttpText Lib.LastWins Lib.Utf8
open Proxiflare.Daemon Proxiflare.Gui
open HttpRoundTrip (RequestText ResponseText written stored)
open ReadableReplies

variable {ν : Type} {d : Doubles ν} {codecs : Codecs} {m : CaptureMsg} {msg : HttpMsg}
  {seq : UInt64} {w : Wire ν} {r : Serde ν} {req : Cjson ν}

/-- A call that gets this line returns an entry with exactly these headers, in some order. -/
def GuiReceives (w : Wire ν) (line : CStr) (fields : List (CStr × CStr)) : Prop :=
  ∃ entry members, readResponse w line = .ok entry ∧
    get entry (lit "headers") = some (.obj members) ∧
    members.Perm (fields.map fun f => (f.1, .str f.2))

/-! ## The entry in a reply -/

/-- A stored entry, as `inspect.get` answers with it. -/
def entryReply (d : Doubles ν) (codecs : Codecs) (req : Cjson ν) (m : CaptureMsg) (msg : HttpMsg)
    (seq : UInt64) : Cjson ν :=
  wrapped (replyId req) (captureEntry d codecs m msg seq)

theorem respond_entry {parse : CStr → Option (Cjson ν)}
    {other : Captures ν → CStr → Option (Cjson ν) → Option (Cjson ν) × Captures ν}
    {s : Captures ν} {c : IpcClient}
    (hget : (req.getItem (lit "method")).bind Cjson.stringValue = some (lit "inspect.get"))
    (hfound : inspectGet d s (req.getItem (lit "params")) =
      .obj [(lit "result", captureEntry d codecs m msg seq)]) :
    (respond (captureEnv d parse other) s c req).1 = entryReply d codecs req m msg seq := by
  have hrequest : captureRequest d s (lit "inspect.get") (req.getItem (lit "params")) =
      some (.obj [(lit "result", captureEntry d codecs m msg seq)]) := by
    rw [← hfound]
    rfl
  rw [respond, hget]
  dsimp only
  rw [builtin_capture (.inr (.inr rfl)), captureEnv]
  dsimp only
  rw [hrequest]
  rfl

theorem entryReply_allValid_iff :
    (entryReply d codecs req m msg seq).AllValid ↔ CleanEntry codecs m msg := by
  have hname : Valid (cstr (lit "result")) := valid_of_asciiText (by decide)
  have hreply : (entryReply d codecs req m msg seq).AllValid ↔
      (Cjson.obj [(lit "result", captureEntry d codecs m msg seq)]).AllValid :=
    allValid_reply (by decide) _
  rw [hreply, Cjson.allValid_obj, List.forall_mem_singleton, captureEntry_allValid_iff]
  exact and_iff_right hname

/-! ## It is not nested deeply -/

/-- A member without parts, under another name than the headers. -/
structure Plain (member : CStr × Cjson ν) : Prop where
  name : cstr member.1 ≠ lit "headers"
  depth : member.2.depth = 0

theorem plain {name : String} {v : Cjson ν} (hname : cstr (lit name) ≠ lit "headers")
    (hv : v.depth = 0) : Plain (lit name, v) :=
  ⟨hname, hv⟩

theorem plain_leading : ∀ member ∈ leadingMembers d m msg seq, Plain member := by
  have hrequest : ∀ member ∈ (requestMembers msg : List (CStr × Cjson ν)), Plain member := by
    simp only [requestMembers, List.forall_mem_cons]
    exact ⟨plain (by decide) rfl, plain (by decide) rfl, plain (by decide) rfl, List.forall_mem_nil _⟩
  have hresponse : ∀ member ∈ responseMembers d msg, Plain member := by
    rw [responseMembers, List.forall_mem_append]
    constructor
    · simp only [List.forall_mem_cons]
      exact ⟨plain (by decide) rfl, plain (by decide) rfl, plain (by decide) rfl,
        List.forall_mem_nil _⟩
    · split
      · exact List.forall_mem_singleton.mpr (plain (by decide) rfl)
      · exact List.forall_mem_nil _
  rw [leadingMembers, List.forall_mem_append]
  constructor
  · simp only [List.forall_mem_cons]
    exact ⟨plain (by decide) rfl, plain (by decide) rfl, plain (by decide) rfl,
      plain (by decide) rfl, plain (by decide) rfl, plain (by decide) rfl, plain (by decide) rfl,
      List.forall_mem_nil _⟩
  · split
    · exact hrequest
    · exact hresponse

theorem plain_bodyAndLength : ∀ member ∈ bodyAndLength d codecs msg, Plain member := by
  have hlength : ∀ member ∈ ([(lit "content_length", .num (d.ofInt msg.contentLength))] :
      List (CStr × Cjson ν)), Plain member := List.forall_mem_singleton.mpr (plain (by decide) rfl)
  rw [bodyAndLength, List.forall_mem_append, and_iff_left hlength]
  unfold bodyMembers
  split
  · exact List.forall_mem_nil _
  · dsimp only
    split
    · simp only [List.forall_mem_append, List.forall_mem_cons]
      refine ⟨⟨⟨plain (by decide) rfl, plain (by decide) rfl, List.forall_mem_nil _⟩, ?_⟩,
        plain (by decide) rfl, List.forall_mem_nil _⟩
      split
      · split
        · exact List.forall_mem_singleton.mpr (plain (by decide) rfl)
        · exact List.forall_mem_nil _
      · exact List.forall_mem_nil _
    · simp only [List.forall_mem_append, List.forall_mem_cons]
      refine ⟨⟨plain (by decide) rfl, plain (by decide) rfl, plain (by decide) rfl,
        List.forall_mem_nil _⟩, ?_⟩
      split
      · exact List.forall_mem_singleton.mpr (plain (by decide) rfl)
      · exact List.forall_mem_nil _

theorem depth_headersOf : (headersOf msg : Cjson ν).depth ≤ 1 := by
  apply Cjson.depth_obj_le
  intro member hmember
  obtain ⟨h, -, rfl⟩ := List.mem_map.mp hmember
  exact Nat.le_refl 0

theorem depth_entryReply : (entryReply d codecs req m msg seq).depth ≤ 4 := by
  have hentry : (captureEntry d codecs m msg seq).depth ≤ 2 := by
    rw [captureEntry_eq]
    apply Cjson.depth_obj_le
    intro member hmember
    rcases List.mem_append.mp hmember with h | h
    · rw [(plain_leading member h).depth]
      omega
    · rcases List.mem_cons.mp h with rfl | h
      · exact depth_headersOf
      · rw [(plain_bodyAndLength member h).depth]
        omega
  have hid : (replyId req).depth ≤ 3 := by
    unfold replyId
    split
    · exact Nat.zero_le 3
    · exact Nat.zero_le 3
  have hresult : (Cjson.obj [(lit "result", captureEntry d codecs m msg seq)]).depth ≤ 3 :=
    Cjson.depth_obj_le (List.forall_mem_singleton.mpr hentry)
  exact Cjson.depth_obj_le (List.forall_mem_cons.mpr ⟨hid, List.forall_mem_singleton.mpr hresult⟩)

/-! ## What the client makes of it -/

/-- The headers of a message, as the C strings they are printed from. -/
def headerPairs (msg : HttpMsg) : List (CStr × CStr) :=
  msg.headers.map fun h => (cstr h.key, cstr h.value)

theorem get_headers (hmap : ∀ ms, MapOf ms (r.map ms)) :
    get (r.value (captureEntry d codecs m msg seq)) (lit "headers") =
      some (.obj (r.map ((headerPairs msg).map fun f => (f.1, .str f.2)))) := by
  have hlater : ∀ member ∈ r.members (bodyAndLength d codecs msg), member.1 ≠ lit "headers" := by
    rw [Serde.members_eq, List.forall_mem_map]
    exact fun member h => (plain_bodyAndLength member h).name
  have hheaders : r.members (msg.headers.map fun h => (h.key, (.str h.value : Cjson ν))) =
      (headerPairs msg).map fun f => (f.1, .str f.2) := by
    rw [Serde.members_eq, headerPairs, List.map_map, List.map_map]
    rfl
  have hmembers : r.members (leadingMembers d m msg seq ++
      (lit "headers", headersOf msg) :: bodyAndLength d codecs msg) =
      r.members (leadingMembers d m msg seq) ++ [(lit "headers", r.value (headersOf msg))] ++
        r.members (bodyAndLength d codecs msg) := by
    simp only [Serde.members_eq, List.map_append, List.map_cons, List.append_assoc,
      List.singleton_append]
    rfl
  rw [captureEntry_eq, get_value hmap, hmembers, lastOf_append_of_ne hlater, lastOf_concat_self,
    headersOf, Serde.value, hheaders]

theorem nodup_members_iff {fields : List (CStr × CStr)} :
    ((fields.map fun f => (f.1, (.str f.2 : Cjson ν))).map Prod.fst).Nodup ↔
      (fields.map Prod.fst).Nodup := by
  rw [List.map_map]
  rfl

/-- For every stored message: its headers arrive where no name is repeated and all texts of the
entry are UTF-8. -/
theorem guiReceives_iff (hnum : Cjson.PrintsNumbers w.printNumber)
    (hreads : w.Reads r (entryReply d codecs req m msg seq)) :
    GuiReceives w ((entryReply d codecs req m msg seq).print w.printNumber) (headerPairs msg) ↔
      ((headerPairs msg).map Prod.fst).Nodup ∧ CleanEntry codecs m msg := by
  by_cases hclean : CleanEntry codecs m msg
  · have hread := readResponse_wrapped (replyId req) hreads hnum
      (entryReply_allValid_iff.mpr hclean) (Nat.lt_of_le_of_lt depth_entryReply (by decide))
    have hperm := (hreads.map ((headerPairs msg).map fun f => (f.1, (.str f.2 : Cjson ν)))).perm_iff
    rw [nodup_members_iff] at hperm
    rw [and_iff_left hclean, ← hperm]
    constructor
    · rintro ⟨entry, members, hok, hmembers, hfields⟩
      obtain rfl := Except.ok.inj (hread.symm.trans hok)
      rw [get_headers hreads.map] at hmembers
      obtain rfl := Cjson.obj.inj (Option.some.inj hmembers)
      exact hfields
    · exact fun hfields => ⟨_, _, hread, get_headers hreads.map, hfields⟩
  · refine iff_of_false ?_ fun h => hclean h.2
    rintro ⟨entry, members, hok, -⟩
    have herror := readResponse_not_utf8 hreads hnum (mt entryReply_allValid_iff.mp hclean)
    cases herror.symm.trans hok

/-! ## Messages within the limits -/

/-- A message, as the fields it is written from. -/
inductive Message where
  | request (r : RequestText)
  | response (r : ResponseText)

namespace Message

def Fits : Message → Prop
  | request r => r.Fits
  | response r => r.Fits

def isRequest : Message → Bool
  | request _ => true
  | response _ => false

def bytes : Message → CStr
  | request r => written r.startLine r.headers r.body
  | response r => written r.startLine r.headers r.body

def headers : Message → List HeaderField
  | request r => r.headers
  | response r => r.headers

/-- Its header list, as names and values. -/
def fields (message : Message) : List (CStr × CStr) := message.headers.map fun f => (f.name, f.value)

/-- Its record, all but the content length. -/
def record : Message → HttpMsg
  | request r => ⟨r.method, r.url, r.version, stored r.headers, r.body.take pfHttpMaxBodyLen, 0, 0, []⟩
  | response r => ⟨[], [], cstr r.version, stored r.headers, r.body.take pfHttpMaxBodyLen, 0,
    r.status, cstr r.statusText⟩

end Message

variable {message : Message}

/-- What the parser makes of a message that fits. -/
theorem keptMessage_record (hfits : message.Fits) (hdata : m.data = message.bytes)
    (hdir : m.isRequest = message.isRequest) (hkept : keptMessage m = some msg) :
    ∃ len, msg = { message.record with contentLength := len } := by
  rw [keptMessage, hdata, hdir] at hkept
  cases message with
  | request text =>
    have hparse : pfHttpParseRequest (written text.startLine text.headers text.body) = some msg := by
      rw [Message.isRequest, if_pos rfl] at hkept
      split at hkept
      · cases hkept
      · exact hkept
    have hten : 10 ≤ (written text.startLine text.headers text.body).length := by
      by_contra hshort
      rw [pfHttpParseRequest, if_pos (by omega)] at hparse
      cases hparse
    obtain ⟨len, hparsed, -⟩ := HttpRoundTrip.request_round_trip text hfits hten
    rw [pfHttpParsedRequest, hparse] at hparsed
    exact ⟨len, congrArg HttpParsed.toHttpMsg (Option.some.inj hparsed)⟩
  | response text =>
    have hparse : pfHttpParseResponse (written text.startLine text.headers text.body) = some msg := by
      rw [Message.isRequest, if_neg (by decide)] at hkept
      exact (Option.filter_eq_some_iff.mp hkept).1
    have hten : 10 ≤ (written text.startLine text.headers text.body).length := by
      by_contra hshort
      rw [pfHttpParseResponse, if_pos (by omega)] at hparse
      cases hparse
    obtain ⟨len, hparsed, -⟩ := HttpRoundTrip.response_round_trip text hfits hten
    rw [pfHttpParsedResponse, hparse] at hparsed
    exact ⟨len, congrArg HttpParsed.toHttpMsg (Option.some.inj hparsed)⟩

theorem Message.headers_fit (hfits : message.Fits) :
    ∀ f ∈ message.headers, HttpRoundTrip.HeaderFits f := by
  cases message with
  | request text => exact RequestText.Fits.headers hfits
  | response text => exact ResponseText.Fits.headers hfits

theorem headerPairs_record (hfits : message.Fits) (len : Int) :
    headerPairs { message.record with contentLength := len } = message.fields := by
  have hstored : message.record.headers = stored message.headers := by
    cases message with
    | request text => rfl
    | response text => rfl
  rw [headerPairs, hstored, stored, List.map_map, Message.fields]
  apply List.map_congr_left
  intro f hf
  have hfield := Message.headers_fit hfits f hf
  show (cstr f.name, cstr f.value) = (f.name, f.value)
  rw [cstr_of_noNul hfield.name_bytes.2.2, cstr_of_noNul hfield.value_bytes.2]

theorem cleanEntry_withLength (len : Int) :
    CleanEntry codecs m { msg with contentLength := len } ↔ CleanEntry codecs m msg :=
  ⟨fun h => ⟨h.domain, h.dstIp, h.startLine, h.headers, h.body⟩,
    fun h => ⟨h.domain, h.dstIp, h.startLine, h.headers, h.body⟩⟩

/-- For every message that is kept, and every reply of `inspect.get` with its entry. -/
theorem headers_received_iff {parse : CStr → Option (Cjson ν)}
    {other : Captures ν → CStr → Option (Cjson ν) → Option (Cjson ν) × Captures ν}
    {s : Captures ν} {c : IpcClient} (hnum : Cjson.PrintsNumbers w.printNumber)
    (hfits : message.Fits) (hdata : m.data = message.bytes) (hdir : m.isRequest = message.isRequest)
    (hkept : keptMessage m = some msg)
    (hget : (req.getItem (lit "method")).bind Cjson.stringValue = some (lit "inspect.get"))
    (hfound : inspectGet d s (req.getItem (lit "params")) =
      .obj [(lit "result", captureEntry d codecs m msg seq)])
    (hreads : w.Reads r (respond (captureEnv d parse other) s c req).1) :
    GuiReceives w ((respond (captureEnv d parse other) s c req).1.print w.printNumber)
        message.fields ↔
      (message.fields.map Prod.fst).Nodup ∧ CleanEntry codecs m message.record := by
  obtain ⟨len, rfl⟩ := keptMessage_record hfits hdata hdir hkept
  rw [respond_entry hget hfound] at hreads ⊢
  rw [← headerPairs_record hfits len, ← cleanEntry_withLength len]
  exact guiReceives_iff hnum hreads

/-! ## A response with two cookies -/

/-- The second header has this name. -/
def twoCookies (second : CStr) : Message :=
  .response ⟨lit "HTTP/1.1", 200, lit "OK",
    [⟨lit "Set-Cookie", [32], lit "a=1"⟩, ⟨second, [32], lit "b=2"⟩], []⟩

theorem cookie_fits {f : HeaderField} (hname : f.name = lit "Set-Cookie" ∨ f.name = lit "set-cookie")
    (hblanks : f.blanks = [32]) (hvalue : f.value = lit "a=1" ∨ f.value = lit "b=2") :
    HttpRoundTrip.HeaderFits f := by
  obtain ⟨name, blanks, value⟩ := f
  obtain rfl : blanks = [32] := hblanks
  have hnames : name ≠ [] ∧ name.length ≤ 255 ∧ 58 ∉ name ∧ 13 ∉ name ∧ 0 ∉ name := by
    rcases hname with rfl | rfl <;> decide +kernel
  have hvalues : value.length ≤ 4095 ∧ (13 ∉ value ∧ 0 ∉ value) ∧
      ∀ b ∈ value.head?, Daemon.isBlank b = false := by
    rcases hvalue with rfl | rfl <;> decide +kernel
  exact ⟨hnames.1, hnames.2.1, hnames.2.2, List.forall_mem_singleton.mpr rfl, hvalues.1,
    hvalues.2.1, hvalues.2.2⟩

theorem twoCookies_fits {second : CStr}
    (h : second = lit "Set-Cookie" ∨ second = lit "set-cookie") : (twoCookies second).Fits := by
  have hversion : (lit "HTTP/1.1").length ≤ 15 ∧ 32 ∉ lit "HTTP/1.1" ∧ 13 ∉ lit "HTTP/1.1" := by
    decide
  have hstatusText : (lit "OK").length ≤ 63 ∧ 13 ∉ lit "OK" := by decide
  have hstatus : 200 < 2 ^ 31 := by decide
  refine ⟨hversion, hstatus, hstatusText, by simp, ?_⟩
  intro f hf
  rcases List.mem_cons.mp hf with rfl | hf
  · exact cookie_fits (.inl rfl) rfl (.inl rfl)
  · obtain rfl := List.mem_singleton.mp hf
    exact cookie_fits h rfl (.inr rfl)

def captured (message : Message) : CaptureMsg where
  data := message.bytes
  isRequest := message.isRequest
  isTls := true
  dstPort := 443
  tsSec := 0
  domain := .snprintf (lit "a")
  dstIp := .snprintf (lit "192.0.2.1")

def getFirst : Cjson Nat :=
  .obj [(lit "id", .num 1), (lit "method", .str (lit "inspect.get")),
    (lit "params", .obj [(lit "seq", .num 1)])]

/-- The state after one message. -/
def afterOne (message : Message) : Captures Nat :=
  captureProcessMsg natDoubles noCodecs .start (captured message)

theorem afterOne_found {message : Message} {msg : HttpMsg}
    (hkept : keptMessage (captured message) = some msg) :
    inspectGet natDoubles (afterOne message) (getFirst.getItem (lit "params")) =
      .obj [(lit "result", captureEntry natDoubles noCodecs (captured message) msg 1)] := by
  have hring : (afterOne message).inspectRing.oldestFirst pfInspectRingSize =
      [captureEntry natDoubles noCodecs (captured message) msg 1] := by
    rw [afterOne, captureProcessMsg, hkept]
    exact ((EntryRing.Holds.empty (by decide)).push _).oldestFirst
  have hseq : (captureEntry natDoubles noCodecs (captured message) msg 1).getItemAnyCase
      (lit "seq") = some (.num 1) := by rfl
  rw [inspectGet, hring, List.find?_cons_of_pos (by rw [hseq]; rfl)]

def serde : Serde Nat := ⟨.num, dedupLast⟩

/-- It reads the text of this value. -/
def readsLine (v : Cjson Nat) : Wire Nat where
  printNumber := decimal
  toText := Cjson.print decimal
  fromUtf8 bytes := (ByteArray.mk bytes.toArray).validateUTF8
  fromText bytes := if bytes = v.print decimal then some (serde.value v) else none
  ofId := id

theorem readsLine_reads (v : Cjson Nat) : (readsLine v).Reads serde v :=
  ⟨validateUTF8_iff, mapOf_dedupLast, fun _ _ => if_pos rfl⟩

def firstReply (message : Message) : Cjson Nat :=
  (respond logEnv (afterOne message) .free getFirst).1

/-- Names that differ in case stay apart. -/
theorem cookies_in_two_cases :
    GuiReceives (readsLine (firstReply (twoCookies (lit "set-cookie"))))
        ((firstReply (twoCookies (lit "set-cookie"))).print decimal)
        (twoCookies (lit "set-cookie")).fields ↔
      ((twoCookies (lit "set-cookie")).fields.map Prod.fst).Nodup ∧
        CleanEntry noCodecs (captured (twoCookies (lit "set-cookie")))
          (twoCookies (lit "set-cookie")).record :=
  have hkept : keptMessage (captured (twoCookies (lit "set-cookie"))) =
      some (twoCookies (lit "set-cookie")).record := by decide +kernel
  headers_received_iff (w := readsLine (firstReply (twoCookies (lit "set-cookie"))))
    natDoubles_prints (twoCookies_fits (.inr rfl)) rfl rfl hkept rfl (afterOne_found hkept)
    (readsLine_reads _)

/-- Of two `Set-Cookie` lines the first is lost. -/
theorem first_cookie_lost :
    (twoCookies (lit "Set-Cookie")).Fits ∧
      keptMessage (captured (twoCookies (lit "Set-Cookie"))) =
        some (twoCookies (lit "Set-Cookie")).record ∧
      (readsLine (firstReply (twoCookies (lit "Set-Cookie")))).Reads serde
        (firstReply (twoCookies (lit "Set-Cookie"))) ∧
      ¬ GuiReceives (readsLine (firstReply (twoCookies (lit "Set-Cookie"))))
        ((firstReply (twoCookies (lit "Set-Cookie"))).print decimal)
        (twoCookies (lit "Set-Cookie")).fields := by
  have hkept : keptMessage (captured (twoCookies (lit "Set-Cookie"))) =
      some (twoCookies (lit "Set-Cookie")).record := by decide +kernel
  have hreply : firstReply (twoCookies (lit "Set-Cookie")) = entryReply natDoubles noCodecs getFirst
      (captured (twoCookies (lit "Set-Cookie"))) (twoCookies (lit "Set-Cookie")).record 1 :=
    respond_entry rfl (afterOne_found hkept)
  have hpairs : headerPairs (twoCookies (lit "Set-Cookie")).record =
      (twoCookies (lit "Set-Cookie")).fields := by decide +kernel
  refine ⟨twoCookies_fits (.inl rfl), hkept, readsLine_reads _, ?_⟩
  rw [hreply, ← hpairs]
  intro h
  have hnodup := ((guiReceives_iff natDoubles_prints (readsLine_reads _)).mp h).1
  exact absurd hnodup (by decide +kernel)

end Proxiflare.Guarantees.CapturedHeaders
