import Mathlib.Logic.Function.Basic
import Proxiflare.Daemon.Http
import Proxiflare.Daemon.Routing
import Proxiflare.Daemon.Sni

/-!
# The log ring and the capture ring

What `main.c` stores of intercepted connections and of captured HTTP messages, and
the requests that read it back: `log.recent`, `inspect.list` and `inspect.get`. `ν`
stands for the doubles of cJSON. The capture queue between the relay threads and the
worker is left out: it hands messages on unchanged.
-/

namespace Proxiflare.Daemon

open Lib.CString

/-- Conversions and comparisons of doubles, and `print_number`. -/
structure Doubles (ν : Type) where
  ofInt : Int → ν
  toInt : ν → Int
  lt : ν → ν → Bool
  eq : ν → ν → Bool
  printNumber : ν → CStr

variable {ν : Type}

/-- `cJSON_GetObjectItem`: the first member of that name, in any case. -/
def Cjson.getItemAnyCase : Cjson ν → CStr → Option (Cjson ν)
  | .obj members, key => (members.find? fun m => strcaseeq (cstr m.1) key).map Prod.snd
  | _, _ => none

/-- `item->valuedouble`. -/
def Cjson.valuedouble (d : Doubles ν) : Cjson ν → ν
  | .num n => n
  | _ => d.ofInt 0

/-! ## Rings -/

/-- An array of `size` pointers, the next position to write and the number of entries. -/
structure EntryRing (α : Type) where
  slots : Nat → Option α
  head : Nat
  count : Nat

variable {α : Type}

def EntryRing.empty : EntryRing α := ⟨fun _ => none, 0, 0⟩

def EntryRing.push (size : Nat) (r : EntryRing α) (entry : α) : EntryRing α where
  slots := Function.update r.slots r.head (some entry)
  head := (r.head + 1) % size
  count := if r.count < size then r.count + 1 else r.count

/-- Position `i` of the walk, oldest first. -/
def EntryRing.entry (size : Nat) (r : EntryRing α) (i : Nat) : Option α :=
  r.slots ((r.head + size - r.count + i) % size)

def EntryRing.oldestFirst (size : Nat) (r : EntryRing α) : List α :=
  (List.range r.count).filterMap (r.entry size)

def pfLogRingSize : Nat := 2000
def pfInspectRingSize : Nat := 5000
def pfInspectBodyCap : Nat := 8192

/-- `g_log_ring`, `g_inspect_ring` and their counters. -/
structure Captures (ν : Type) where
  logRing : EntryRing (Cjson ν)
  logSeq : UInt64
  inspectRing : EntryRing (Cjson ν)
  inspectSeq : UInt64
  skippedH2 : UInt64
  parseFail : UInt64

def Captures.start : Captures ν := ⟨.empty, 0, .empty, 0, 0, 0⟩

/-! ## The log -/

/-- What differs between the events of `proxy_connect_for_tproxy`. -/
structure LogEvent where
  app : CStr
  rule : CStr
  proxy : CStr
  proxyId : Int
  domain : CStr
  action : CStr
  success : Int

/-- The name of the proxy or chain that was tried. -/
def viaName (db : Db) (rule : Rule) : Option CStr :=
  if rule.action = .proxy ∧ 0 < rule.proxyId then
    match pfConfigProxyGet db rule.proxyId with
    | none => none
    | some proxy => if proxy.enabled = 0 then none else some proxy.name.chars
  else if rule.action = .chain ∧ 0 < rule.chainId then
    match pfConfigChainGet db rule.chainId with
    | none => none
    | some chain => if chain.enabled = 0 then none else some chain.name.chars
  else none

/-- The application the log guesses when no rule applies. -/
def guessedApp (rs : Ruleset) : CStr :=
  match rs.find? fun r => r.enabled ≠ 0 && r.appPath.nonempty with
  | some r => r.appPath.chars
  | none => []

/-- The event of one call, if it makes one. `fd` is what the connector returned. -/
def connectEvent (ctx : Ctx) (dstIp : CBuf 16) (dstPort : Int) (domain : CBuf pfDomainMax)
    (fd : Int) : Option LogEvent :=
  match ctx.ruleset with
  | none => none
  | some rs =>
    let md := (matchDomain ctx dstIp.chars domain).map CBuf.chars
    match appliedRule rs md (some dstIp.chars) dstPort with
    | none => some ⟨guessedApp rs, [], lit "direct", 0, md.getD [], lit "DIRECT", 1⟩
    | some rule =>
      if rule.action = .direct then
        some ⟨rule.appPath.chars, rule.name.chars, lit "direct", 0, md.getD [], lit "DIRECT", 1⟩
      else if rule.action = .block ∨ rule.action = .reject then none
      else (viaName ctx.db rule).map fun via =>
        ⟨if rule.appPath.nonempty then rule.appPath.chars else rule.name.chars, rule.name.chars, via,
          rule.proxyId, md.getD [], pfActionStr rule.action, if 0 ≤ fd then 1 else 0⟩

/-- The object broadcast, and stored with its number. -/
def LogEvent.members (d : Doubles ν) (e : LogEvent) (ts : Int) (dstIp : CBuf 16) (dstPort : Int) :
    List (CStr × Cjson ν) :=
  [(lit "ts", .num (d.ofInt ts)), (lit "app", .str e.app), (lit "rule", .str e.rule),
    (lit "proxy", .str e.proxy), (lit "proxy_id", .num (d.ofInt e.proxyId)),
    (lit "domain", .str e.domain), (lit "dst_ip", .str dstIp.chars),
    (lit "dst_port", .num (d.ofInt dstPort)), (lit "action", .str e.action),
    (lit "success", .num (d.ofInt e.success)), (lit "bytes_tx", .num (d.ofInt 0)),
    (lit "bytes_rx", .num (d.ofInt 0)), (lit "latency_ms", .num (d.ofInt 0))]

def Captures.log (d : Doubles ν) (s : Captures ν) (event : List (CStr × Cjson ν)) : Captures ν :=
  let seq := s.logSeq + 1
  { s with
    logSeq := seq
    logRing := s.logRing.push pfLogRingSize
      (.obj (event ++ [(lit "seq", .num (d.ofInt seq.toNat))])) }

/-! ## Captured messages -/

def trackerDomains : List String :=
  ["doubleclick.net", "googlesyndication.com", "googleadservices.com", "googletagmanager.com",
    "googletagservices.com", "google-analytics.com", "amazon-adsystem.com", "adsrvr.org",
    "teads.tv", "scorecardresearch.com", "quantserve.com", "omtrdc.net", "demdex.net", "2mdn.net",
    "adnxs.com", "criteo.com", "criteo.net", "pubmatic.com", "rubiconproject.com", "openx.net",
    "taboola.com", "outbrain.com", "chartbeat.net", "hotjar.com", "clarity.ms", "fullstory.com",
    "segment.io", "mixpanel.com", "amplitude.com", "facebook.net", "fbcdn.net",
    "connect.facebook.net", "pagead2.googlesyndication.com", "bam.nr-data.net", "newrelic.com",
    "nr-data.net", "bam-cell.nr-data.net", "static.ads-twitter.com", "snap.licdn.com"]

/-- A suffix match anchored on a dot. -/
def domainIsTracker (domain : CStr) : Bool :=
  domain ≠ [] && trackerDomains.any fun t =>
    let tl := t.length
    let dl := domain.length
    tl ≤ dl && strcaseeq (domain.drop (dl - tl)) (lit t) &&
      (dl = tl || domain[dl - tl - 1]? = some 46)

/-- `pf_capture_msg_t`. -/
structure CaptureMsg where
  data : CStr
  isRequest : Bool
  isTls : Bool
  dstPort : Int
  tsSec : Int
  domain : CBuf 256
  dstIp : CBuf 46

def onInspectData (data : CStr) (isRequest : Bool) (conn : Connection) (now : Int) :
    Option CaptureMsg :=
  if data.length < 4 then none
  else if conn.domain.nonempty && domainIsTracker conn.domain.chars then none
  else some {
    data := data
    isRequest := isRequest
    isTls := conn.isTls
    dstPort := conn.dstPort
    tsSec := now
    domain := .snprintf (if conn.domain.nonempty then conn.domain.chars else conn.dstIp.chars)
    dstIp := .snprintf conn.dstIp.chars }

def h2Preface : CStr := lit "PRI * HTTP/2.0\r\n\r\nSM\r\n\r\n"

def contentTypeIsAsset (ct : Option CStr) : Bool :=
  match ct with
  | none => false
  | some ct =>
    strncaseeq ct (lit "image/") 6 || strncaseeq ct (lit "font/") 5 ||
      strncaseeq ct (lit "audio/") 6 || strncaseeq ct (lit "video/") 6 ||
      strncaseeq ct (lit "application/font") 16 || strncaseeq ct (lit "application/octet-stream") 24

def requestMembers (msg : HttpMsg) : List (CStr × Cjson ν) :=
  [(lit "method", .str msg.method), (lit "url", .str msg.url), (lit "version", .str msg.version)]

def responseMembers (d : Doubles ν) (msg : HttpMsg) : List (CStr × Cjson ν) :=
  [(lit "status", .num (d.ofInt msg.statusCode)), (lit "status_text", .str msg.statusText),
    (lit "version", .str msg.version)] ++
    match pfHttpGetHeader msg "Content-Type" with
    | some ct => [(lit "content_type", .str ct)]
    | none => []

/-- The body decoded, or as it came when that fails. -/
def bodyMembers (d : Doubles ν) (codecs : Codecs) (msg : HttpMsg) : List (CStr × Cjson ν) :=
  if msg.body = [] then []
  else
    let enc := pfHttpGetHeader msg "Content-Encoding"
    match pfBodyDecode codecs enc msg.body pfInspectBodyCap with
    | some decoded =>
      [(lit "body", .str decoded), (lit "body_len", .num (d.ofInt decoded.length))] ++
        (match enc with
          | some enc =>
            if enc ≠ [] ∧ !strcaseeq enc (lit "identity") then
              [(lit "body_encoding_orig", .str enc)] else []
          | none => []) ++
        [(lit "body_decoded", .bool true)]
    | none =>
      let raw := msg.body.take pfInspectBodyCap
      [(lit "body", .str raw), (lit "body_len", .num (d.ofInt raw.length)),
        (lit "body_decoded", .bool false)] ++
        match enc with
        | some enc => [(lit "body_encoding_orig", .str enc)]
        | none => []

/-- The object stored for a message. -/
def captureEntry (d : Doubles ν) (codecs : Codecs) (m : CaptureMsg) (msg : HttpMsg) (seq : UInt64) :
    Cjson ν :=
  .obj ([(lit "seq", .num (d.ofInt seq.toNat)), (lit "ts", .num (d.ofInt m.tsSec)),
    (lit "domain", .str m.domain.chars), (lit "dst_ip", .str m.dstIp.chars),
    (lit "dst_port", .num (d.ofInt m.dstPort)), (lit "is_request", .bool m.isRequest),
    (lit "tls", .bool m.isTls)] ++
    (if m.isRequest then requestMembers msg else responseMembers d msg) ++
    [(lit "headers", .obj (msg.headers.map fun h => (h.key, .str h.value)))] ++
    bodyMembers d codecs msg ++
    [(lit "content_length", .num (d.ofInt msg.contentLength))])

/-- The message of a chunk that is kept. -/
def keptMessage (m : CaptureMsg) : Option HttpMsg :=
  if m.isRequest then
    if h2Preface.isPrefixOf m.data then none else pfHttpParseRequest m.data
  else (pfHttpParseResponse m.data).filter fun msg =>
    !contentTypeIsAsset (pfHttpGetHeader msg "Content-Type")

/-- The counters of a chunk that is not. -/
def Captures.skip (s : Captures ν) (m : CaptureMsg) : Captures ν :=
  if m.isRequest && h2Preface.isPrefixOf m.data then { s with skippedH2 := s.skippedH2 + 1 }
  else if m.isRequest || (pfHttpParseResponse m.data).isNone then
    { s with parseFail := s.parseFail + 1 }
  else s

def captureProcessMsg (d : Doubles ν) (codecs : Codecs) (s : Captures ν) (m : CaptureMsg) :
    Captures ν :=
  match keptMessage m with
  | none => s.skip m
  | some msg =>
    let seq := s.inspectSeq + 1
    { s with
      inspectSeq := seq
      inspectRing := s.inspectRing.push pfInspectRingSize (captureEntry d codecs m msg seq) }

/-! ## Traffic -/

/-- `connection` is an accepted connection: its destination, the bytes peeked and the descriptor
dialled. `chunk` is a piece of decrypted traffic. -/
inductive Traffic where
  | connection (ctx : Ctx) (dst : CBuf 16 × UInt16) (peek : CStr) (fd : Int) (ts : Int)
  | chunk (conn : Connection) (data : CStr) (isRequest : Bool) (now : Int)

def Captures.step (d : Doubles ν) (codecs : Codecs) (s : Captures ν) : Traffic → Captures ν
  | .connection ctx dst peek fd ts =>
    match connectEvent ctx dst.1 dst.2.toNat (peekDomain peek) fd with
    | none => s
    | some e => s.log d (e.members d ts dst.1 dst.2.toNat)
  | .chunk conn data isRequest now =>
    match onInspectData data isRequest conn now with
    | none => s
    | some m => captureProcessMsg d codecs s m

def captureRun (d : Doubles ν) (codecs : Codecs) (traffic : List Traffic) : Captures ν :=
  traffic.foldl (Captures.step d codecs) .start

/-! ## Reading it back -/

/-- An integer parameter, or its default. -/
def paramInt (d : Doubles ν) (params : Option (Cjson ν)) (key : String) (default : Int) : Int :=
  match params.bind fun p => p.getItemAnyCase (lit key) with
  | some v => d.toInt (v.valuedouble d)
  | none => default

/-- `seq > since_seq`. The numbers stored are never NaN. -/
def newer (d : Doubles ν) (sinceSeq : Int) (entry : Cjson ν) : Bool :=
  match entry.getItemAnyCase (lit "seq") with
  | some seq => d.lt (d.ofInt sinceSeq) (seq.valuedouble d)
  | none => false

def logRecent (d : Doubles ν) (s : Captures ν) (params : Option (Cjson ν)) : Cjson ν :=
  let sinceSeq := paramInt d params "since_seq" 0
  .obj [(lit "result", .arr ((s.logRing.oldestFirst pfLogRingSize).filter (newer d sinceSeq)))]

def slimKeys : List String :=
  ["seq", "ts", "domain", "dst_ip", "dst_port", "is_request", "tls", "method", "url", "version",
    "status", "status_text", "content_type", "body_len", "content_length"]

/-- The summary of an entry, without headers and body. -/
def slim (entry : Cjson ν) : Cjson ν :=
  .obj (slimKeys.filterMap fun key => (entry.getItemAnyCase (lit key)).map fun v => (lit key, v))

/-- The newest entries up to the limit, oldest first. -/
def inspectList (d : Doubles ν) (s : Captures ν) (params : Option (Cjson ν)) : Cjson ν :=
  let sinceSeq := paramInt d params "since_seq" 0
  let limit := paramInt d params "limit" 500
  let limit := if limit ≤ 0 ∨ 1000 < limit then 500 else limit
  let newestFirst := (s.inspectRing.oldestFirst pfInspectRingSize).reverse
  .obj [(lit "result",
    .arr (((newestFirst.filter (newer d sinceSeq)).take limit.toNat).map slim).reverse)]

def inspectGet (d : Doubles ν) (s : Captures ν) (params : Option (Cjson ν)) : Cjson ν :=
  let want := match params.bind fun p => p.getItemAnyCase (lit "seq") with
    | some v => v.valuedouble d
    | none => d.ofInt 0
  let hit := (s.inspectRing.oldestFirst pfInspectRingSize).find? fun entry =>
    (entry.getItemAnyCase (lit "seq")).any fun seq => d.eq (seq.valuedouble d) want
  match hit with
  | some entry => .obj [(lit "result", entry)]
  | none => .obj [(lit "error", .str (lit "not found"))]

/-- These branches of `pf_handle_request`. -/
def captureRequest (d : Doubles ν) (s : Captures ν) (method : CStr) (params : Option (Cjson ν)) :
    Option (Cjson ν) :=
  if method = lit "log.recent" then some (logRecent d s params)
  else if method = lit "inspect.list" then some (inspectList d s params)
  else if method = lit "inspect.get" then some (inspectGet d s params)
  else none

/-- The server with its other requests as a parameter. -/
def captureEnv (d : Doubles ν) (parse : CStr → Option (Cjson ν))
    (other : Captures ν → CStr → Option (Cjson ν) → Option (Cjson ν) × Captures ν) :
    IpcEnv ν (Captures ν) where
  ofInt := d.ofInt
  parse := parse
  handler s method params :=
    match captureRequest d s method params with
    | some v => (some v, s)
    | none => other s method params

end Proxiflare.Daemon
