import Proxiflare.Daemon.Captures
import Proxiflare.Daemon.PrintedJson

/-!
# Replies stay decodable

cJSON copies the bytes from 128 on, so a reply line is UTF-8 exactly when every text
it carries is, and always JSON. Names from the wire, URLs, headers and bodies are
stored as they come; where all of them are UTF-8, so is every reply.
-/

namespace Proxiflare.Guarantees.ReadableReplies

open Lib.CString Lib.Utf8
open Proxiflare.Daemon Proxiflare.Daemon.Cjson

variable {ν α : Type} {d : Doubles ν} {codecs : Codecs}

/-! ## One reply -/

/-- What `String::from_utf8` and `serde_json::from_str` take. -/
def Accepted (line : CStr) : Prop := Valid line ∧ Lib.JsonText.Value line

theorem accepted_print (h : PrintsNumbers d.printNumber) (v : Cjson ν) :
    Accepted (v.print d.printNumber) ↔ v.AllValid := by
  have hjson := value_print h v
  have hutf8 := valid_print h v
  constructor
  · exact fun haccepted => hutf8.mp haccepted.1
  · exact fun hall => ⟨hutf8.mpr hall, hjson⟩

def IsCaptureMethod (method : CStr) : Prop :=
  method = lit "log.recent" ∨ method = lit "inspect.list" ∨ method = lit "inspect.get"

variable {parse : CStr → Option (Cjson ν)}
  {other : Captures ν → CStr → Option (Cjson ν) → Option (Cjson ν) × Captures ν}

/-- A test for texts that are UTF-8 because they are ASCII. -/
def asciiText (s : CStr) : Bool := (cstr s).all (· < 128)

theorem valid_of_asciiText {s : CStr} (h : asciiText s = true) : Valid (cstr s) := valid_of_all h

theorem allValid_reply {req : Cjson ν} {key : String} (hkey : asciiText (lit key) = true)
    (v : Cjson ν) : (reply req key v).AllValid ↔ v.AllValid := by
  have hid : Valid (cstr (lit "id")) := valid_of_asciiText (by decide)
  have hreplyId : (replyId req).AllValid := by
    unfold replyId
    split
    · exact allValid_num _
    · exact allValid_null
  rw [reply, allValid_obj]
  simp [hid, hreplyId, valid_of_asciiText hkey]

theorem captureRequest_isSome {method : CStr} (h : IsCaptureMethod method) (s : Captures ν)
    (params : Option (Cjson ν)) : ∃ v, captureRequest d s method params = some v := by
  unfold captureRequest
  rcases h with rfl | rfl | rfl
  · exact ⟨_, rfl⟩
  · exact ⟨_, rfl⟩
  · exact ⟨_, rfl⟩

theorem builtin_capture {c : IpcClient} {method : CStr} (h : IsCaptureMethod method) :
    builtin c method = none := by
  rcases h with rfl | rfl | rfl
  · rfl
  · rfl
  · rfl

/-- A reply is accepted exactly when every text in the value it carries is UTF-8. -/
theorem reply_accepted_iff (h : PrintsNumbers d.printNumber) {s : Captures ν} {c : IpcClient}
    {req v : Cjson ν} {method : CStr}
    (hmethod : (req.getItem (lit "method")).bind Cjson.stringValue = some method)
    (hcapture : IsCaptureMethod method)
    (hv : captureRequest d s method (req.getItem (lit "params")) = some v) :
    Accepted ((respond (captureEnv d parse other) s c req).1.print d.printNumber) ↔ v.AllValid := by
  have hresponse : (respond (captureEnv d parse other) s c req).1 = reply req "result" v := by
    simp [respond, hmethod, builtin_capture hcapture, captureEnv, hv]
  rw [hresponse, accepted_print h]
  exact allValid_reply (by decide) v

/-! ## What is stored -/

/-- The body as the entry has it. -/
def storedBody (codecs : Codecs) (msg : HttpMsg) : CStr :=
  match pfBodyDecode codecs (pfHttpGetHeader msg "Content-Encoding") msg.body pfInspectBodyCap with
  | some decoded => decoded
  | none => msg.body.take pfInspectBodyCap

/-- Every text of the message is UTF-8, as cut to its buffer. -/
structure CleanMessage (codecs : Codecs) (msg : HttpMsg) : Prop where
  method : Valid (cstr msg.method)
  url : Valid (cstr msg.url)
  version : Valid (cstr msg.version)
  statusText : Valid (cstr msg.statusText)
  headers : ∀ h ∈ msg.headers, Valid (cstr h.key) ∧ Valid (cstr h.value)
  body : Valid (cstr (storedBody codecs msg))

/-- The rule, its application, the proxy and the domain of the log event. -/
structure CleanEvent (e : LogEvent) : Prop where
  app : Valid (cstr e.app)
  rule : Valid (cstr e.rule)
  proxy : Valid (cstr e.proxy)
  domain : Valid (cstr e.domain)
  action : Valid (cstr e.action)

/-- Nothing that is not UTF-8 is stored for this piece of traffic. -/
def Clean (codecs : Codecs) : Traffic → Prop
  | .connection ctx dst peek fd _ => ∀ e,
    connectEvent ctx dst.1 dst.2.toNat (peekDomain peek) fd = some e →
      CleanEvent e ∧ Valid (cstr dst.1.chars)
  | .chunk conn data isRequest now => ∀ m msg, onInspectData data isRequest conn now = some m →
    keptMessage m = some msg →
      Valid (cstr m.domain.chars) ∧ Valid (cstr m.dstIp.chars) ∧ CleanMessage codecs msg

/-! ## Stored entries -/

/-- The names are ASCII: only the values matter. -/
theorem allValid_members_iff {ms : List (CStr × Cjson ν)}
    (hkeys : (ms.map Prod.fst).all asciiText = true) :
    (∀ m ∈ ms, Valid (cstr m.1) ∧ AllValid m.2) ↔ ∀ v ∈ ms.map Prod.snd, AllValid v := by
  constructor
  · intro h v hv
    obtain ⟨m, hm, rfl⟩ := List.mem_map.mp hv
    exact (h m hm).2
  · intro hvalues m hm
    exact ⟨valid_of_asciiText (List.all_eq_true.mp hkeys m.1 (List.mem_map_of_mem hm)),
      hvalues m.2 (List.mem_map_of_mem hm)⟩

theorem member_valid {name : String} (hname : asciiText (lit name) = true) {v : Cjson ν}
    (hv : v.AllValid) : ∀ m ∈ [(lit name, v)], Valid (cstr m.1) ∧ AllValid m.2 :=
  List.forall_mem_singleton.mpr ⟨valid_of_asciiText hname, hv⟩

theorem logEvent_members_valid {e : LogEvent} {ts : Int} {dstIp : CBuf 16} {dstPort : Int}
    (he : CleanEvent e) (hip : Valid (cstr dstIp.chars)) (seq : Int) :
    (Cjson.obj (e.members d ts dstIp dstPort ++ [(lit "seq", .num (d.ofInt seq))])).AllValid := by
  rw [allValid_obj, allValid_members_iff]
  · simp [LogEvent.members, he.app, he.rule, he.proxy, he.domain, he.action, hip]
  · show List.all [lit "ts", lit "app", lit "rule", lit "proxy", lit "proxy_id", lit "domain",
      lit "dst_ip", lit "dst_port", lit "action", lit "success", lit "bytes_tx", lit "bytes_rx",
      lit "latency_ms", lit "seq"] asciiText = true
    decide +kernel

/-- The texts stored of a message: those of its start line, its headers, and its body if it has
one. -/
structure CleanEntry (codecs : Codecs) (m : CaptureMsg) (msg : HttpMsg) : Prop where
  domain : Valid (cstr m.domain.chars)
  dstIp : Valid (cstr m.dstIp.chars)
  startLine : if m.isRequest then Valid (cstr msg.method) ∧ Valid (cstr msg.url) ∧
    Valid (cstr msg.version) else Valid (cstr msg.statusText) ∧ Valid (cstr msg.version)
  headers : ∀ h ∈ msg.headers, Valid (cstr h.key) ∧ Valid (cstr h.value)
  body : msg.body ≠ [] → Valid (cstr (storedBody codecs msg))

theorem CleanMessage.cleanEntry {m : CaptureMsg} {msg : HttpMsg} (hm : CleanMessage codecs msg)
    (hdomain : Valid (cstr m.domain.chars)) (hip : Valid (cstr m.dstIp.chars)) :
    CleanEntry codecs m msg := by
  refine ⟨hdomain, hip, ?_, hm.headers, fun _ => hm.body⟩
  split
  · exact ⟨hm.method, hm.url, hm.version⟩
  · exact ⟨hm.statusText, hm.version⟩

section Members

variable {m : CaptureMsg} {msg : HttpMsg}

theorem pfHttpGetHeader_valid {key : String} {value : CStr}
    (hheaders : ∀ h ∈ msg.headers, Valid (cstr h.key) ∧ Valid (cstr h.value))
    (h : pfHttpGetHeader msg key = some value) : Valid (cstr value) := by
  obtain ⟨header, hfind, rfl⟩ := Option.map_eq_some_iff.mp h
  exact (hheaders header (List.mem_of_find?_eq_some hfind)).2

theorem requestMembers_valid_iff (msg : HttpMsg) :
    (∀ member ∈ (requestMembers msg : List (CStr × Cjson ν)),
      Valid (cstr member.1) ∧ AllValid member.2) ↔
      Valid (cstr msg.method) ∧ Valid (cstr msg.url) ∧ Valid (cstr msg.version) := by
  rw [allValid_members_iff]
  · simp [requestMembers]
  · show List.all [lit "method", lit "url", lit "version"] asciiText = true
    decide +kernel

/-- A header whose value is a member of its own. -/
theorem headerMember_valid {name : String} {key : String} {value : CStr}
    (hname : asciiText (lit name) = true)
    (hheaders : ∀ h ∈ msg.headers, Valid (cstr h.key) ∧ Valid (cstr h.value))
    (h : pfHttpGetHeader msg key = some value) :
    ∀ member ∈ ([(lit name, .str value)] : List (CStr × Cjson ν)),
      Valid (cstr member.1) ∧ AllValid member.2 :=
  member_valid hname ((allValid_str value).mpr (pfHttpGetHeader_valid hheaders h))

theorem responseMembers_valid_iff
    (hheaders : ∀ h ∈ msg.headers, Valid (cstr h.key) ∧ Valid (cstr h.value)) :
    (∀ member ∈ responseMembers d msg, Valid (cstr member.1) ∧ AllValid member.2) ↔
      Valid (cstr msg.statusText) ∧ Valid (cstr msg.version) := by
  have hfixed : (∀ member ∈ ([(lit "status", .num (d.ofInt msg.statusCode)),
      (lit "status_text", .str msg.statusText), (lit "version", .str msg.version)] :
      List (CStr × Cjson ν)), Valid (cstr member.1) ∧ AllValid member.2) ↔
      Valid (cstr msg.statusText) ∧ Valid (cstr msg.version) := by
    rw [allValid_members_iff]
    · simp
    · show List.all [lit "status", lit "status_text", lit "version"] asciiText = true
      decide +kernel
  rw [responseMembers, List.forall_mem_append, hfixed]
  cases hct : pfHttpGetHeader msg "Content-Type" with
  | none => exact and_iff_left (List.forall_mem_nil _)
  | some ct => exact and_iff_left (headerMember_valid (by decide) hheaders hct)

theorem bodyMembers_valid_iff
    (hheaders : ∀ h ∈ msg.headers, Valid (cstr h.key) ∧ Valid (cstr h.value)) :
    (∀ member ∈ bodyMembers d codecs msg, Valid (cstr member.1) ∧ AllValid member.2) ↔
      (msg.body ≠ [] → Valid (cstr (storedBody codecs msg))) := by
  have hflag : ∀ member ∈ ([(lit "body_decoded", .bool true)] : List (CStr × Cjson ν)),
      Valid (cstr member.1) ∧ AllValid member.2 := member_valid (by decide) (allValid_bool true)
  unfold bodyMembers storedBody
  by_cases hbody : msg.body = []
  · rw [if_pos hbody]
    exact iff_of_true (List.forall_mem_nil _) fun hne => absurd hbody hne
  · rw [if_neg hbody, imp_iff_right hbody]
    dsimp only
    cases pfBodyDecode codecs (pfHttpGetHeader msg "Content-Encoding") msg.body
      pfInspectBodyCap with
    | some decoded =>
      have htext : (∀ member ∈ ([(lit "body", .str decoded),
          (lit "body_len", .num (d.ofInt decoded.length))] : List (CStr × Cjson ν)),
          Valid (cstr member.1) ∧ AllValid member.2) ↔ Valid (cstr decoded) := by
        rw [allValid_members_iff]
        · simp
        · show List.all [lit "body", lit "body_len"] asciiText = true
          decide +kernel
      rw [List.forall_mem_append, and_iff_left hflag, List.forall_mem_append, htext]
      cases henc : pfHttpGetHeader msg "Content-Encoding" with
      | none => exact and_iff_left (List.forall_mem_nil _)
      | some enc =>
        dsimp only
        split
        · exact and_iff_left (headerMember_valid (by decide) hheaders henc)
        · exact and_iff_left (List.forall_mem_nil _)
    | none =>
      have htext : (∀ member ∈ ([(lit "body", .str (msg.body.take pfInspectBodyCap)),
          (lit "body_len", .num (d.ofInt (msg.body.take pfInspectBodyCap).length)),
          (lit "body_decoded", .bool false)] : List (CStr × Cjson ν)),
          Valid (cstr member.1) ∧ AllValid member.2) ↔
          Valid (cstr (msg.body.take pfInspectBodyCap)) := by
        rw [allValid_members_iff]
        · simp
        · show List.all [lit "body", lit "body_len", lit "body_decoded"] asciiText = true
          decide +kernel
      rw [List.forall_mem_append, htext]
      cases henc : pfHttpGetHeader msg "Content-Encoding" with
      | none => exact and_iff_left (List.forall_mem_nil _)
      | some enc => exact and_iff_left (headerMember_valid (by decide) hheaders henc)

theorem headersMember_valid_iff (msg : HttpMsg) :
    (Cjson.obj (msg.headers.map fun h => (h.key, (.str h.value : Cjson ν)))).AllValid ↔
      ∀ h ∈ msg.headers, Valid (cstr h.key) ∧ Valid (cstr h.value) := by
  rw [allValid_obj, List.forall_mem_map]
  simp only [allValid_str]

/-- An entry is UTF-8 exactly when the texts stored in it are. -/
theorem captureEntry_allValid_iff (d : Doubles ν) (codecs : Codecs) (m : CaptureMsg)
    (msg : HttpMsg) (seq : UInt64) :
    (captureEntry d codecs m msg seq).AllValid ↔ CleanEntry codecs m msg := by
  have hfixed : (∀ member ∈ ([(lit "seq", .num (d.ofInt seq.toNat)),
      (lit "ts", .num (d.ofInt m.tsSec)), (lit "domain", .str m.domain.chars),
      (lit "dst_ip", .str m.dstIp.chars), (lit "dst_port", .num (d.ofInt m.dstPort)),
      (lit "is_request", .bool m.isRequest), (lit "tls", .bool m.isTls)] : List (CStr × Cjson ν)),
      Valid (cstr member.1) ∧ AllValid member.2) ↔
      Valid (cstr m.domain.chars) ∧ Valid (cstr m.dstIp.chars) := by
    rw [allValid_members_iff]
    · simp
    · show List.all [lit "seq", lit "ts", lit "domain", lit "dst_ip", lit "dst_port",
        lit "is_request", lit "tls"] asciiText = true
      decide +kernel
  have hheadersName : Valid (cstr (lit "headers")) := valid_of_asciiText (by decide)
  have hlength : ∀ member ∈ ([(lit "content_length", .num (d.ofInt msg.contentLength))] :
      List (CStr × Cjson ν)), Valid (cstr member.1) ∧ AllValid member.2 :=
    member_valid (by decide) (allValid_num _)
  rw [captureEntry, allValid_obj, List.forall_mem_append, and_iff_left hlength]
  simp only [List.forall_mem_append, List.forall_mem_singleton, hfixed, hheadersName, true_and,
    headersMember_valid_iff]
  have hstart (hheaders : ∀ h ∈ msg.headers, Valid (cstr h.key) ∧ Valid (cstr h.value)) :
      (∀ member ∈ (if m.isRequest then requestMembers msg else responseMembers d msg),
        Valid (cstr member.1) ∧ AllValid member.2) ↔
      if m.isRequest then Valid (cstr msg.method) ∧ Valid (cstr msg.url) ∧ Valid (cstr msg.version)
        else Valid (cstr msg.statusText) ∧ Valid (cstr msg.version) := by
    cases m.isRequest with
    | true => exact requestMembers_valid_iff msg
    | false => exact responseMembers_valid_iff hheaders
  constructor
  · rintro ⟨⟨⟨⟨hdomain, hip⟩, hline⟩, hheaders⟩, hbody⟩
    exact ⟨hdomain, hip, (hstart hheaders).mp hline, hheaders,
      (bodyMembers_valid_iff hheaders).mp hbody⟩
  · intro h
    exact ⟨⟨⟨⟨h.domain, h.dstIp⟩, (hstart h.headers).mpr h.startLine⟩, h.headers⟩,
      (bodyMembers_valid_iff h.headers).mpr h.body⟩

end Members

/-! ## The rings -/

def AllEntries (P : α → Prop) (r : EntryRing α) : Prop := ∀ i e, r.slots i = some e → P e

theorem AllEntries.push {P : α → Prop} {r : EntryRing α} {size : Nat} {e : α} (h : AllEntries P r)
    (he : P e) : AllEntries P (r.push size e) := by
  intro i e' hslot
  by_cases hi : i = r.head
  · subst hi
    have hnew : some e = some e' := by simpa [EntryRing.push] using hslot
    obtain rfl := Option.some.inj hnew
    exact he
  · have hold : r.slots i = some e' := by simpa [EntryRing.push, Function.update_of_ne hi] using hslot
    exact h i e' hold

theorem AllEntries.oldestFirst {P : α → Prop} {r : EntryRing α} {size : Nat} (h : AllEntries P r) :
    ∀ e ∈ r.oldestFirst size, P e := by
  intro e he
  obtain ⟨i, -, hi⟩ := List.mem_filterMap.mp he
  exact h _ e hi

structure CleanRings (s : Captures ν) : Prop where
  log : AllEntries AllValid s.logRing
  inspect : AllEntries AllValid s.inspectRing

theorem cleanRings_start : CleanRings (.start : Captures ν) := ⟨nofun, nofun⟩

theorem cleanRings_skip {s : Captures ν} (h : CleanRings s) (m : CaptureMsg) :
    CleanRings (s.skip m) := by
  unfold Captures.skip
  split
  · exact ⟨h.log, h.inspect⟩
  · split
    · exact ⟨h.log, h.inspect⟩
    · exact h

/-- Clean traffic leaves clean entries. -/
theorem cleanRings_step {s : Captures ν} {t : Traffic} (h : CleanRings s) (ht : Clean codecs t) :
    CleanRings (s.step d codecs t) := by
  cases t with
  | connection ctx dst peek fd ts =>
    simp only [Captures.step]
    split
    · exact h
    · next e he =>
      obtain ⟨hevent, hip⟩ := ht e he
      exact ⟨h.log.push (logEvent_members_valid hevent hip _), h.inspect⟩
  | chunk conn data isRequest now =>
    simp only [Captures.step]
    split
    · exact h
    · next m hm =>
      unfold captureProcessMsg
      split
      · exact cleanRings_skip h m
      · next msg hmsg =>
        obtain ⟨hdomain, hip, hclean⟩ := ht m msg hm hmsg
        exact ⟨h.log, h.inspect.push
          ((captureEntry_allValid_iff ..).mpr (hclean.cleanEntry hdomain hip))⟩

theorem cleanRings_run {traffic : List Traffic} (h : ∀ t ∈ traffic, Clean codecs t) :
    CleanRings (captureRun d codecs traffic) := by
  unfold captureRun
  generalize hstart : (Captures.start : Captures ν) = s
  have hs : CleanRings s := hstart ▸ cleanRings_start
  clear hstart
  induction traffic generalizing s with
  | nil => exact hs
  | cons t traffic ih =>
    obtain ⟨ht, hrest⟩ := List.forall_mem_cons.mp h
    exact ih hrest _ (cleanRings_step hs ht)

/-! ## The three requests -/

theorem allValid_result {key : String} (hkey : asciiText (lit key) = true) {v : Cjson ν}
    (hv : v.AllValid) : (Cjson.obj [(lit key, v)]).AllValid := by
  rw [allValid_obj]
  simp [valid_of_asciiText hkey, hv]

theorem slim_valid {entry : Cjson ν} (h : entry.AllValid) : (slim entry).AllValid := by
  have hkeys : slimKeys.all (fun key => asciiText (lit key)) = true := by decide +kernel
  rw [slim, allValid_obj]
  intro m hm
  obtain ⟨key, hkey, hsome⟩ := List.mem_filterMap.mp hm
  obtain ⟨v, hget, rfl⟩ := Option.map_eq_some_iff.mp hsome
  refine ⟨valid_of_asciiText (List.all_eq_true.mp hkeys key hkey), ?_⟩
  cases entry with
  | obj members =>
    obtain ⟨member, hfind, rfl⟩ := Option.map_eq_some_iff.mp hget
    exact ((allValid_obj members).mp h member (List.mem_of_find?_eq_some hfind)).2
  | _ => cases hget

theorem logRecent_valid {s : Captures ν} (h : CleanRings s) (params : Option (Cjson ν)) :
    (logRecent d s params).AllValid := by
  apply allValid_result (by decide)
  rw [allValid_arr]
  intro e he
  exact h.log.oldestFirst e (List.mem_of_mem_filter he)

theorem inspectList_valid {s : Captures ν} (h : CleanRings s) (params : Option (Cjson ν)) :
    (inspectList d s params).AllValid := by
  apply allValid_result (by decide)
  rw [allValid_arr]
  intro summary hsummary
  obtain ⟨e, he, rfl⟩ := List.mem_map.mp (List.mem_reverse.mp hsummary)
  have hring := List.mem_reverse.mp (List.mem_of_mem_filter (List.mem_of_mem_take he))
  exact slim_valid (h.inspect.oldestFirst e hring)

theorem inspectGet_valid {s : Captures ν} (h : CleanRings s) (params : Option (Cjson ν)) :
    (inspectGet d s params).AllValid := by
  unfold inspectGet
  extract_lets want hit
  cases hhit : hit with
  | none =>
    apply allValid_result (by decide)
    exact (allValid_str _).mpr (valid_of_asciiText (by decide))
  | some e =>
    have hmem : e ∈ s.inspectRing.oldestFirst pfInspectRingSize := List.mem_of_find?_eq_some hhit
    exact allValid_result (by decide) (h.inspect.oldestFirst e hmem)

theorem captureRequest_valid {s : Captures ν} (h : CleanRings s) {method : CStr}
    {params : Option (Cjson ν)} {v : Cjson ν} (hv : captureRequest d s method params = some v) :
    v.AllValid := by
  unfold captureRequest at hv
  split at hv
  · obtain rfl := Option.some.inj hv
    exact logRecent_valid h params
  · split at hv
    · obtain rfl := Option.some.inj hv
      exact inspectList_valid h params
    · split at hv
      · obtain rfl := Option.some.inj hv
        exact inspectGet_valid h params
      · cases hv

/-- After any clean traffic, every reply to the three requests is accepted. -/
theorem replies_readable (hnum : PrintsNumbers d.printNumber) (traffic : List Traffic)
    (hclean : ∀ t ∈ traffic, Clean codecs t) (c : IpcClient) (req : Cjson ν) (method : CStr)
    (hmethod : (req.getItem (lit "method")).bind Cjson.stringValue = some method)
    (hcapture : IsCaptureMethod method) :
    Accepted ((respond (captureEnv d parse other) (captureRun d codecs traffic) c req).1.print
      d.printNumber) := by
  obtain ⟨v, hv⟩ : ∃ v, captureRequest d (captureRun d codecs traffic) method
      (req.getItem (lit "params")) = some v := captureRequest_isSome hcapture _ _
  rw [reply_accepted_iff hnum hmethod hcapture hv]
  exact captureRequest_valid (cleanRings_run hclean) hv

/-! ## Traffic of ASCII texts -/

def asciiEvent (e : LogEvent) : Bool := [e.app, e.rule, e.proxy, e.domain, e.action].all asciiText

theorem cleanEvent_of_ascii {e : LogEvent} (h : asciiEvent e = true) : CleanEvent e := by
  have htext : ∀ s ∈ [e.app, e.rule, e.proxy, e.domain, e.action], Valid (cstr s) :=
    fun s hs => valid_of_asciiText (List.all_eq_true.mp h s hs)
  exact ⟨htext _ (by simp), htext _ (by simp), htext _ (by simp), htext _ (by simp),
    htext _ (by simp)⟩

/-- Numbers are natural here: no other occurs on the inputs below. -/
def natDoubles : Doubles Nat := ⟨Int.toNat, Int.ofNat, fun a b => a < b, fun a b => a = b, decimal⟩

theorem natDoubles_prints : PrintsNumbers natDoubles.printNumber :=
  fun n => .inl (Lib.JsonText.number_decimal n)

def noCodecs : Codecs := ⟨fun _ _ => none, fun _ _ => none, fun _ _ => none⟩

/-- A ClientHello with this server name. -/
def clientHello (host : CStr) : CStr :=
  let n := UInt8.ofNat host.length
  [0x16, 3, 1, 0, 56 + n, 1, 0, 0, 52 + n, 3, 3] ++ List.replicate 32 7 ++
    [0, 0, 2, 0x13, 1, 1, 0, 0, 9 + n, 0, 0, 0, 5 + n, 0, 3 + n, 0, 0, n] ++ host

/-- No rule applies: the connection is logged as direct. -/
def direct (host : CStr) : Traffic :=
  .connection ⟨some [], .empty, [], 0⟩ (.snprintf (lit "10.0.0.1"), 443) (clientHello host) (-1) 0

def recentRequest : Cjson Nat := .obj [(lit "id", .num 7), (lit "method", .str (lit "log.recent"))]

def logEnv : IpcEnv Nat (Captures Nat) := captureEnv natDoubles (fun _ => none) fun s _ _ => (none, s)

/-- After one connection to `a.b`. -/
theorem ascii_log_readable :
    (captureRun natDoubles noCodecs [direct (lit "a.b")]).logSeq = 1 ∧
      Accepted ((respond logEnv (captureRun natDoubles noCodecs [direct (lit "a.b")]) .free
        recentRequest).1.print natDoubles.printNumber) := by
  refine ⟨by decide +kernel, ?_⟩
  apply replies_readable natDoubles_prints _ _ .free recentRequest (lit "log.recent") rfl (.inl rfl)
  intro t ht
  obtain rfl := List.mem_singleton.mp ht
  intro e he
  have hall : (connectEvent ⟨some [], .empty, [], 0⟩ (.snprintf (lit "10.0.0.1")) 443
      (peekDomain (clientHello (lit "a.b"))) (-1)).all asciiEvent = true := by
    decide +kernel
  have hevent : asciiEvent e = true := (Option.all_eq_true _ _).mp hall e he
  exact ⟨cleanEvent_of_ascii hevent, valid_of_asciiText (by decide +kernel)⟩

/-- One connection whose server name holds the byte 255, and the log is no longer UTF-8. -/
theorem hostile_name_poisons_log :
    ¬ ∀ traffic, Accepted ((respond logEnv (captureRun natDoubles noCodecs traffic) .free
      recentRequest).1.print natDoubles.printNumber) := by
  intro hall
  have hpoison : 255 ∈ (respond logEnv (captureRun natDoubles noCodecs
      [direct (lit "a.b"), direct [255, 46, 98]]) .free recentRequest).1.print
        natDoubles.printNumber := by
    decide +kernel
  exact not_valid_of_mem (by decide) hpoison (hall _).1

end Proxiflare.Guarantees.ReadableReplies
