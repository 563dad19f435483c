import Proxiflare.Daemon.Captures
import Proxiflare.Daemon.Credentials
import Proxiflare.Daemon.DnsLeak
import Proxiflare.Daemon.Mitm
import Proxiflare.Daemon.Mutations

/-!
# The request handler

`pf_handle_request` of `daemon/src/main.c` with all its methods, over the branches that
have modules of their own. Of a parameter that is a number the handlers below see the
integral part. `Outside` says how the calls of one request end that leave the daemon;
which commands `systemctl` and `nft` are given for `boot_enabled` and for QUIC is left out.
-/

namespace Proxiflare.Daemon

open Lib.CString Lib.Aead

def pfMaxChains : Nat := 64

def pfVersion : CStr := lit "0.4.1-alpha"

def pfMitmCaCertPath : CStr := lit "/var/lib/proxiflare/ca.crt"

instance : BufSize pfBufSize := ⟨by decide⟩

variable {ν κ χ π : Type}

/-- `pf_ctx_t`, with the rings of `main.c`. `dnsUp` and `tproxyUp` say that the descriptors are
open. -/
structure PfCtx (ν κ χ π : Type) where
  host : Host
  crypto : Crypto κ
  outputNat : List NatRule
  resolverUp : Bool
  captures : Captures ν
  mitm : Mitm χ π
  tproxy : ConnTable
  tproxyUp : Bool
  dnsUp : Bool
  running : Bool

/-- The arithmetic of cJSON, the cryptography, and how `nft` prints the expression of a rule. -/
structure Platform (ν κ : Type) where
  doubles : Doubles ν
  crypto : Primitives κ
  printed : Nat → CStr

/-- `hopQuery i` is the query for the hops of the `i`-th chain; `loaded` is what `pf_mitm_init`
leaves. The tests give a latency, negative on failure. -/
structure Outside (χ π : Type) where
  fails : List Bool
  ruleQuery : Option QueryFault
  proxyQuery : Option QueryFault
  chainQuery : Option QueryFault
  hopQuery : Nat → Option QueryFault
  callocOk : Bool
  salt : Random pfSaltLen
  kdfOk : Bool
  dns : DnsFaults
  blockQuicOk : Bool
  generateCaOk : Bool
  initOk : Bool
  loaded : Mitm χ π
  socksTest : Proxy → Int
  httpTest : Proxy → Int
  sshTest : Proxy → Int
  chainTest : Chain → List Proxy → Int

/-! ## Parameters and replies -/

mutual

/-- What the readers of numbers by their integral part see. -/
def Cjson.toJson (d : Doubles ν) : Cjson ν → Json
  | .null => .null
  | .bool b => .bool b
  | .num n => .num (d.toInt n)
  | .str s => .str s
  | .arr items => .arr (Cjson.toJsonItems d items)
  | .obj members => .obj (Cjson.toJsonMembers d members)

def Cjson.toJsonItems (d : Doubles ν) : List (Cjson ν) → List Json
  | [] => []
  | v :: rest => Cjson.toJson d v :: Cjson.toJsonItems d rest

def Cjson.toJsonMembers (d : Doubles ν) : List (CStr × Cjson ν) → List (CStr × Json)
  | [] => []
  | (k, v) :: rest => (k, Cjson.toJson d v) :: Cjson.toJsonMembers d rest

end

def resultOf (v : Cjson ν) : Cjson ν := .obj [(lit "result", v)]

def errorOf (message : CStr) : Cjson ν := .obj [(lit "error", .str message)]

def Reply.json : Reply → Cjson ν
  | .ok => resultOf (.str (lit "ok"))
  | .error message => errorOf message

/-- `cJSON_GetObjectItem(params, key)`, or NULL without params. -/
def itemOf (params : Option Json) (key : String) : Option Json :=
  params.bind (·.getObjectItem (lit key))

def textOf (params : Option Json) (key : String) : Option CStr :=
  (itemOf params key).bind Json.valuestring

/-! ## Records as JSON -/

/-- `pf_health_str` on the values of `pf_health_t`. -/
def pfHealthStr (health : Int) : CStr :=
  if health = 1 then lit "online"
  else if health = 2 then lit "offline"
  else if health = 3 then lit "slow"
  else if health = 4 then lit "error"
  else lit "unknown"

def proxyToJson (d : Doubles ν) (p : Proxy) : Cjson ν :=
  .obj [(lit "id", .num (d.ofInt p.id)), (lit "name", .str p.name.chars),
    (lit "type", .str (pfProxyTypeStr p.type)), (lit "host", .str p.host.chars),
    (lit "port", .num (d.ofInt p.port.toNat)), (lit "username", .str p.username.chars),
    (lit "password", .str p.password.chars), (lit "health", .str (pfHealthStr p.health)),
    (lit "latency_ms", .num (d.ofInt p.latencyMs.toNat)), (lit "enabled", .bool (p.enabled ≠ 0))]

def ruleToJson (d : Doubles ν) (r : Rule) : Cjson ν :=
  .obj [(lit "id", .num (d.ofInt r.id)), (lit "name", .str r.name.chars),
    (lit "priority", .num (d.ofInt r.priority)), (lit "match_app", .str r.appPath.chars),
    (lit "match_domain", .str r.domain.chars), (lit "match_ip", .str r.ipCidr.chars),
    (lit "match_port", .str (if 0 < r.dstPort then decimal r.dstPort.toNat else [])),
    (lit "action", .str (pfActionStr r.action)), (lit "proxy_id", .num (d.ofInt r.proxyId)),
    (lit "chain_id", .num (d.ofInt r.chainId)), (lit "enabled", .bool (r.enabled ≠ 0))]

def chainToJson (d : Doubles ν) (c : Chain) : Cjson ν :=
  .obj [(lit "id", .num (d.ofInt c.id)), (lit "name", .str c.name.chars),
    (lit "enabled", .bool (c.enabled ≠ 0)),
    (lit "hop_proxy_ids", .arr (c.hops.map fun hop => .num (d.ofInt hop)))]

def proxyFromJson (params : Json) : Proxy where
  id := overlay (params.getObjectItem (lit "id")) (fun v => toUInt32 v.valuedouble) 0
  name := overlay (params.getObjectItem (lit "name"))
    (fun v => .snprintf (v.valuestring.getD (lit "(null)"))) .empty
  type := overlay (params.getObjectItem (lit "type"))
    (fun v => pfProxyTypeFromStr v.valuestring) .socks4
  host := overlay (params.getObjectItem (lit "host"))
    (fun v => .snprintf (v.valuestring.getD (lit "(null)"))) .empty
  port := overlay (params.getObjectItem (lit "port")) (fun v => portOfDouble v.valuedouble) 0
  username := overlay (params.getObjectItem (lit "username"))
    (fun v => .snprintf (v.valuestring.getD (lit "(null)"))) .empty
  password := overlay (params.getObjectItem (lit "password"))
    (fun v => .snprintf (v.valuestring.getD (lit "(null)"))) .empty
  sshKeyPath := overlay (params.getObjectItem (lit "ssh_key_path"))
    (fun v => .snprintf (v.valuestring.getD (lit "(null)"))) .empty
  health := 0
  latencyMs := 0
  enabled := overlay (params.getObjectItem (lit "enabled")) flag 1

/-! ## Queries for lists -/

/-- The rows a prepared query delivers before its end. -/
def rowsDelivered {α : Type} (fault : Option QueryFault) (rows : List α) : List α :=
  match fault with
  | some (.step n) => rows.take n
  | _ => rows

/-- A query that fails half-way is taken for complete. -/
def delivered {α : Type} (fault : Option QueryFault) (rows : List α) : Option (List α) :=
  if fault = some .prepare then none else some (rowsDelivered fault rows)

theorem length_rowsDelivered_le {α : Type} (fault : Option QueryFault) (rows : List α) :
    (rowsDelivered fault rows).length ≤ rows.length := by
  unfold rowsDelivered
  split
  · exact List.length_take_le' _ _
  · exact Nat.le_refl _

/-- The rows of the proxy list. -/
def listedProxies (db : Db) : List ProxyRow :=
  (db.proxies.insertionSort fun a b => a.name ≤ b.name).take pfMaxProxies

/-- `load_chain_hops` on a row of the chains table. -/
def chainOf (fault : Option QueryFault) (db : Db) (st : ChainRow) : Option Chain :=
  if fault = some .prepare then none
  else some {
    id := st.id
    name := .snprintf st.name
    hops := rowsDelivered fault (loadChainHops db st.id)
    hopsFit := (length_rowsDelivered_le fault _).trans (List.length_take_le _ _)
    enabled := st.enabled }

/-- The hops are loaded once all chains are read. -/
def pfConfigChainList (fault : Option QueryFault) (hopFault : Nat → Option QueryFault) (db : Db) :
    Option (List Chain) :=
  (delivered fault ((db.chains.insertionSort fun a b => a.name ≤ b.name).take pfMaxChains)).bind
    fun rows => rows.zipIdx.mapM fun st => chainOf (hopFault st.2) db st.1

namespace Host

/-! ## Proxies -/

def proxyAdd (h : Host) : Option Json → Answer
  | none => h.refuse "missing params"
  | some params =>
    match h.config (Session.pfConfigProxyAdd (proxyFromJson params)) with
    | (none, h) => h.refuse "db error"
    | (some _, h) => (.ok, h)

/-- `SELECT COUNT(*)`; a failure counts as zero. -/
def countRows (count : Db → Nat) (h : Host) : Nat × Host :=
  let (n, h) := h.config (Session.select fun db => some (count db))
  (n.getD 0, h)

def proxyRefCount (id : Int) (h : Host) : Nat × Host :=
  let (rules, h) := h.countRows fun db =>
    db.rules.countP fun r => r.proxyId.any fun n : Nat => (n : Int) = id
  let (hops, h) := h.countRows fun db => db.chainHops.countP fun hop => (hop.proxyId : Int) = id
  (rules + hops, h)

/-- `snprintf` into `char msg[128]`. -/
def refuseUsed (h : Host) (before : String) (refs : Nat) (after : String) : Answer :=
  (.error (CBuf.snprintf (lit before ++ decimal refs ++ lit after) : CBuf 128).chars, h)

def proxyDelete (h : Host) (params : Option Json) : Answer :=
  match itemOf params "id" with
  | none => h.refuse "missing id"
  | some v =>
    let id := toInt32 v.valuedouble
    match h.proxyRefCount id with
    | (refs, h) =>
      if 0 < refs then
        h.refuseUsed "Proxy is still used by " refs " rule(s)/chain(s). Remove references first."
      else match h.config (Session.statement (.deleteProxy id)) with
        | (none, h) => h.refuse "db error"
        | (some _, h) => (.ok, h)

/-! ## Chains -/

def chainAdd (h : Host) : Option Json → Answer
  | none => h.refuse "missing params"
  | some params =>
    match h.config (Session.pfConfigChainAdd (chainFromJson params)) with
    | (none, h) => h.refuse "db error"
    | (some _, h) => (.ok, h)

def chainRefCount (id : Int) (h : Host) : Nat × Host :=
  h.countRows fun db => db.rules.countP fun r => r.chainId.any fun n : Nat => (n : Int) = id

def chainDelete (h : Host) (params : Option Json) : Answer :=
  match itemOf params "id" with
  | none => h.refuse "missing id"
  | some v =>
    let id := toInt32 v.valuedouble
    match h.chainRefCount id with
    | (refs, h) =>
      if 0 < refs then
        h.refuseUsed "Chain is still used by " refs " rule(s). Remove references first."
      else match h.config (Session.statement (.deleteChain id)) with
        | (none, h) => h.refuse "db error"
        | (some _, h) => (.ok, h)

/-! ## Settings -/

/-- A configuration value into a `char buf[cap]` that holds a default. -/
def setting (cap : Nat) [BufSize cap] (key default : String) (h : Host) : CStr × Host :=
  let (value, h) := h.config (Session.pfConfigGet cap (lit key))
  (value.getD (lit default), h)

/-- The result is not looked at. -/
def store (key : String) (value : CStr) (h : Host) : Host :=
  (h.config (Session.pfConfigSet (lit key) value)).2

def configGet (h : Host) (params : Option Json) : Cjson ν × Host :=
  match textOf params "key" with
  | none => (errorOf (lit "missing key"), h)
  | some key =>
    match h.config (Session.pfConfigGet pfBufSize key) with
    | (none, h) => (errorOf (lit "key not found"), h)
    | (some value, h) => (resultOf (.str value), h)

def configSet (h : Host) (params : Option Json) : Answer :=
  match textOf params "key", textOf params "value" with
  | some key, some value =>
    match h.config (Session.pfConfigSet key value) with
    | (none, h) => h.refuse "db error"
    | (some _, h) => (.ok, h)
  | _, _ => h.refuse "missing key or value"

end Host

namespace PfCtx

variable (e : Platform ν κ) (w : Outside χ π)

/-- The daemon as the request finds it. -/
def facing (s : PfCtx ν κ χ π) : PfCtx ν κ χ π :=
  { s with host := { s.host with
      session := { s.host.session with fails := w.fails }, queryFault := w.ruleQuery } }

def onHost (f : Host → Cjson ν × Host) (s : PfCtx ν κ χ π) : Cjson ν × PfCtx ν κ χ π :=
  ((f s.host).1, { s with host := (f s.host).2 })

def answering (f : Host → Answer) (s : PfCtx ν κ χ π) : Cjson ν × PfCtx ν κ χ π :=
  s.onHost fun h => ((f h).1.json, (f h).2)

/-! ## Lists -/

def proxyList (s : PfCtx ν κ χ π) : Cjson ν :=
  match delivered w.proxyQuery (listedProxies s.host.session.db) with
  | none => errorOf (lit "db error")
  | some rows => resultOf (.arr (rows.map fun st => proxyToJson e.doubles (rowToProxy st)))

def ruleList (s : PfCtx ν κ χ π) : Cjson ν :=
  if !w.callocOk then errorOf (lit "out of memory")
  else
    let (rules, rc) := pfConfigRuleListOf (queryRules s.host.session.db w.ruleQuery) pfMaxRules
    if rc = pfOk then resultOf (.arr (rules.map (ruleToJson e.doubles)))
    else errorOf (lit "db error")

def chainList (s : PfCtx ν κ χ π) : Cjson ν :=
  match pfConfigChainList w.chainQuery w.hopQuery s.host.session.db with
  | none => errorOf (lit "db error")
  | some chains => resultOf (.arr (chains.map (chainToJson e.doubles)))

/-! ## Tests over the network -/

def testResult (slowOver latency : Int) : Cjson ν :=
  resultOf (.obj [(lit "latency_ms", .num (e.doubles.ofInt latency)),
    (lit "health", .str (if 0 ≤ latency then
      (if slowOver < latency then lit "slow" else lit "online") else lit "offline"))])

/-- The proxy `proxy.test` is to test. -/
def testedProxy (params : Option Json) (s : PfCtx ν κ χ π) : Option Proxy × Host :=
  match itemOf params "id" with
  | none => (none, s.host)
  | some v => s.host.config (Session.pfConfigProxyGet (toInt32 v.valuedouble))

def latencyOf (p : Proxy) : Int :=
  match p.type with
  | .socks4 | .socks5 => w.socksTest p
  | .http => w.httpTest p
  | .ssh => w.sshTest p

/-- The health column takes `PF_HEALTH_OFFLINE`, `PF_HEALTH_SLOW` or `PF_HEALTH_ONLINE`. -/
def proxyTest (params : Option Json) (s : PfCtx ν κ χ π) : Cjson ν × PfCtx ν κ χ π :=
  match itemOf params "id" with
  | none => (errorOf (lit "missing id"), s)
  | some v =>
    match s.testedProxy params with
    | (none, h) => (errorOf (lit "proxy not found"), { s with host := h })
    | (some p, h) =>
      let latency := latencyOf w p
      let health := if latency < 0 then 2 else if 1000 < latency then 3 else 1
      let update := Session.statement (.updateHealth (toInt32 v.valuedouble) health latency)
      (testResult e 1000 latency, { s with host := (h.config update).2 })

/-- The chain `chain.test` is to test. -/
def testedChain (params : Option Json) (s : PfCtx ν κ χ π) : Option Chain × Host :=
  match itemOf params "id" with
  | none => (none, s.host)
  | some v => s.host.config (Session.select fun db =>
      (db.chains.find? fun r => (r.id : Int) = toInt32 v.valuedouble).bind
        (chainOf (w.hopQuery 0) db))

/-- The proxies a chain is tested with: none when the list cannot be read. -/
def chainProxies (db : Db) : List Proxy :=
  ((delivered w.proxyQuery (listedProxies db)).getD []).map rowToProxy

/-- The checks of `pf_chain_connect` before it opens a socket. -/
def chainDials (c : Chain) (proxies : List Proxy) : Bool :=
  match c.hops.mapM (findProxy proxies) with
  | some (first :: _) => first.type ≠ .ssh
  | _ => false

def chainTest (params : Option Json) (s : PfCtx ν κ χ π) : Cjson ν × PfCtx ν κ χ π :=
  match itemOf params "id" with
  | none => (errorOf (lit "missing id"), s)
  | some _ =>
    match s.testedChain w params with
    | (none, h) => (errorOf (lit "chain not found"), { s with host := h })
    | (some c, h) =>
      let proxies := chainProxies w s.host.session.db
      let latency := if chainDials c proxies then w.chainTest c proxies else -1
      (testResult e 2000 latency, { s with host := h })

/-! ## Credentials -/

def unlock (params : Option Json) (s : PfCtx ν κ χ π) : Cjson ν × PfCtx ν κ χ π :=
  let (r, v) := credentialsUnlock e.crypto w.salt w.kdfOk params ⟨s.host.session, s.crypto⟩
  (r.json, { s with host := { s.host with session := v.session }, crypto := v.crypto })

def lock (s : PfCtx ν κ χ π) : Cjson ν × PfCtx ν κ χ π :=
  let (r, v) := credentialsLock e.crypto ⟨s.host.session, s.crypto⟩
  (r.json, { s with crypto := v.crypto })

/-! ## The system -/

def proxiesOnline (db : Db) : Nat :=
  ((delivered w.proxyQuery (listedProxies db)).getD []).countP fun st =>
    st.enabled ≠ 0 && st.health = 1

def systemStatus (s : PfCtx ν κ χ π) : Cjson ν × PfCtx ν κ χ π :=
  let (leakEnabled, h) := s.host.setting 8 "dns_leak_enabled" "false"
  let (server, h) := h.setting 64 "dns_server" "1.1.1.1"
  (resultOf (.obj [(lit "running", .bool s.running), (lit "version", .str pfVersion),
    (lit "connections", .num (e.doubles.ofInt s.tproxy.connCount)),
    (lit "proxies_online", .num (e.doubles.ofInt (proxiesOnline w s.host.session.db))),
    (lit "rules_active", .num (e.doubles.ofInt (s.host.ruleset.countP (·.enabled ≠ 0)))),
    (lit "crypto_unlocked", .bool s.crypto.unlocked), (lit "dns_active", .bool s.dnsUp),
    (lit "tproxy_active", .bool s.tproxyUp),
    (lit "dns_leak_enabled", .bool (leakEnabled = lit "true")), (lit "dns_server", .str server)]),
    { s with host := h })

def systemShutdown (s : PfCtx ν κ χ π) : Cjson ν × PfCtx ν κ χ π :=
  (resultOf (.str (lit "shutting down")), { s with running := false })

/-! ## DNS leak protection -/

def dnsLeak (s : PfCtx ν κ χ π) : DnsLeak := ⟨s.host.session.db, s.outputNat, s.resolverUp⟩

def dnsLeakEnable (params : Option Json) (s : PfCtx ν κ χ π) : Cjson ν × PfCtx ν κ χ π :=
  let mode := DnsLeak.enableModeOf params
  let dns := DnsLeak.enableServerOf params
  let (done, t) := DnsLeak.enableMode w.dns mode dns s.dnsLeak
  let s := { s with outputNat := t.outputNat, resolverUp := t.resolverUp }
  if done.isSome then
    let h := (s.host.store "dns_leak_enabled" (lit "true")).store "dns_mode" mode
    let h := if mode = lit "force-server" then h.store "dns_server" dns else h
    (Reply.ok.json, { s with host := h })
  else (errorOf (lit "failed to set DNS rules"), s)

def dnsLeakDisable (s : PfCtx ν κ χ π) : Cjson ν × PfCtx ν κ χ π :=
  (Reply.ok.json, { s with
    host := s.host.store "dns_leak_enabled" (lit "false"), outputNat := [], resolverUp := false })

def dnsLeakStatus (h : Host) : Cjson ν × Host :=
  let (enabled, h) := h.setting 8 "dns_leak_enabled" "false"
  let (mode, h) := h.setting 32 "dns_mode" "force-server"
  let (server, h) := h.setting 64 "dns_server" "1.1.1.1"
  (resultOf (.obj [(lit "enabled", .bool (enabled = lit "true")), (lit "mode", .str mode),
    (lit "dns_server", .str server)]), h)

/-! ## Inspection -/

def inspectEnable (s : PfCtx ν κ χ π) : Cjson ν × PfCtx ν κ χ π :=
  if !s.mitm.caKey then
    (errorOf (lit "CA not generated. Run: sudo proxiflare-daemon --generate-ca"), s)
  else (Reply.ok.json, { s with
    mitm := { s.mitm with enabled := true }, host := s.host.store "inspect_enabled" (lit "true") })

def inspectDisable (s : PfCtx ν κ χ π) : Cjson ν × PfCtx ν κ χ π :=
  (Reply.ok.json, { s with
    mitm := { s.mitm with enabled := false }, host := s.host.store "inspect_enabled" (lit "false") })

def inspectStatus (s : PfCtx ν κ χ π) : Cjson ν :=
  resultOf (.obj [(lit "enabled", .bool s.mitm.enabled), (lit "ca_installed", .bool s.mitm.caKey),
    (lit "ca_cert_path", .str pfMitmCaCertPath),
    (lit "cached_certs", .num (e.doubles.ofInt s.mitm.certs.cacheCount)),
    (lit "ring_count", .num (e.doubles.ofInt s.captures.inspectRing.count)),
    (lit "skipped_h2", .num (e.doubles.ofInt s.captures.skippedH2.toNat)),
    (lit "parse_failures", .num (e.doubles.ofInt s.captures.parseFail.toNat))])

/-- The running engine is closed before the new authority is known to load. -/
def inspectGenerateCa (s : PfCtx ν κ χ π) : Cjson ν × PfCtx ν κ χ π :=
  if !w.generateCaOk then (errorOf (lit "CA generation failed"), s)
  else
    (if w.initOk then Reply.ok.json else errorOf (lit "CA generated but init failed"),
      { s with mitm := w.loaded })

/-! ## QUIC -/

def quicBlockEnable (h : Host) : Answer :=
  if w.blockQuicOk then (.ok, h.store "quic_block_enabled" (lit "true"))
  else h.refuse "nft rule failed"

def quicBlockDisable (h : Host) : Answer := (.ok, h.store "quic_block_enabled" (lit "false"))

def quicBlockStatus (h : Host) : Cjson ν × Host :=
  let (value, h) := h.setting 8 "quic_block_enabled" "true"
  (resultOf (.obj [(lit "enabled", .bool (value ≠ lit "false"))]), h)

end PfCtx

/-! ## Dispatch -/

inductive Method where
  | proxyList | proxyAdd | proxyEdit | proxyDelete | proxyTest
  | ruleList | ruleAdd | ruleEdit | ruleDelete
  | chainList | chainAdd | chainEdit | chainDelete | chainTest
  | ruleReorder
  | configGet | configSet
  | credentialsUnlock | credentialsLock
  | systemStatus | systemVersion | systemShutdown
  | dnsLeakEnable | dnsLeakDisable | dnsLeakStatus
  | logRecent
  | inspectList | inspectGet | inspectEnable | inspectDisable
  | quicBlockEnable | quicBlockDisable | quicBlockStatus
  | inspectStatus | inspectGenerateCa
  deriving DecidableEq

/-- The comparisons of `pf_handle_request`, in their order. -/
def methodNames : List (String × Method) :=
  [("proxy.list", .proxyList), ("proxy.add", .proxyAdd), ("proxy.edit", .proxyEdit),
    ("proxy.delete", .proxyDelete), ("proxy.test", .proxyTest), ("rule.list", .ruleList),
    ("rule.add", .ruleAdd), ("rule.edit", .ruleEdit), ("rule.delete", .ruleDelete),
    ("chain.list", .chainList), ("chain.add", .chainAdd), ("chain.edit", .chainEdit),
    ("chain.delete", .chainDelete), ("chain.test", .chainTest), ("rule.reorder", .ruleReorder),
    ("config.get", .configGet), ("config.set", .configSet),
    ("credentials.unlock", .credentialsUnlock), ("credentials.lock", .credentialsLock),
    ("system.status", .systemStatus), ("system.version", .systemVersion),
    ("system.shutdown", .systemShutdown), ("dns_leak.enable", .dnsLeakEnable),
    ("dns_leak.disable", .dnsLeakDisable), ("dns_leak.status", .dnsLeakStatus),
    ("log.recent", .logRecent), ("inspect.list", .inspectList), ("inspect.get", .inspectGet),
    ("inspect.enable", .inspectEnable), ("inspect.disable", .inspectDisable),
    ("quic_block.enable", .quicBlockEnable), ("quic_block.disable", .quicBlockDisable),
    ("quic_block.status", .quicBlockStatus), ("inspect.status", .inspectStatus),
    ("inspect.generate_ca", .inspectGenerateCa)]

def Method.ofName (name : CStr) : Option Method :=
  (methodNames.find? fun m => name = lit m.1).map Prod.snd

/-- No name stands for two methods. -/
theorem Method.ofName_of_mem :
    ∀ entry ∈ methodNames, Method.ofName (lit entry.1) = some entry.2 := by
  decide +kernel

/-- A method, by its branch. -/
def PfCtx.handle (e : Platform ν κ) (w : Outside χ π) (params : Option (Cjson ν))
    (s : PfCtx ν κ χ π) (m : Method) : Cjson ν × PfCtx ν κ χ π :=
  let json := params.map (Cjson.toJson e.doubles)
  match m with
  | .proxyList => (s.proxyList e w, s)
  | .proxyAdd => s.answering (·.proxyAdd json)
  | .proxyEdit => s.answering (·.proxyEdit e.printed json)
  | .proxyDelete => s.answering (·.proxyDelete json)
  | .proxyTest => s.proxyTest e w json
  | .ruleList => (s.ruleList e w, s)
  | .ruleAdd => s.answering (·.ruleAdd e.printed json)
  | .ruleEdit => s.answering (·.ruleEdit e.printed json)
  | .ruleDelete => s.answering (·.ruleDelete e.printed json)
  | .chainList => (s.chainList e w, s)
  | .chainAdd => s.answering (·.chainAdd json)
  | .chainEdit => s.answering (·.chainEdit json)
  | .chainDelete => s.answering (·.chainDelete json)
  | .chainTest => s.chainTest e w json
  | .ruleReorder => s.answering (·.ruleReorder json)
  | .configGet => s.onHost (·.configGet json)
  | .configSet => s.answering (·.configSet json)
  | .credentialsUnlock => s.unlock e w json
  | .credentialsLock => s.lock e
  | .systemStatus => s.systemStatus e w
  | .systemVersion => (resultOf (.str pfVersion), s)
  | .systemShutdown => s.systemShutdown
  | .dnsLeakEnable => s.dnsLeakEnable w json
  | .dnsLeakDisable => s.dnsLeakDisable
  | .dnsLeakStatus => s.onHost dnsLeakStatus
  | .logRecent => (Daemon.logRecent e.doubles s.captures params, s)
  | .inspectList => (Daemon.inspectList e.doubles s.captures params, s)
  | .inspectGet => (Daemon.inspectGet e.doubles s.captures params, s)
  | .inspectEnable => s.inspectEnable
  | .inspectDisable => s.inspectDisable
  | .quicBlockEnable => s.answering (quicBlockEnable w)
  | .quicBlockDisable => s.answering quicBlockDisable
  | .quicBlockStatus => s.onHost quicBlockStatus
  | .inspectStatus => (s.inspectStatus e, s)
  | .inspectGenerateCa => s.inspectGenerateCa w

def pfHandleRequest (e : Platform ν κ) (w : Outside χ π) (method : CStr)
    (params : Option (Cjson ν)) (s : PfCtx ν κ χ π) : Cjson ν × PfCtx ν κ χ π :=
  match Method.ofName method with
  | none => (errorOf (lit "unknown method"), s.facing w)
  | some m => (s.facing w).handle e w params m

/-- The server over this handler, each request meeting the same world outside. -/
def handlerEnv (e : Platform ν κ) (w : Outside χ π) (parse : CStr → Option (Cjson ν)) :
    IpcEnv ν (PfCtx ν κ χ π) where
  ofInt := e.doubles.ofInt
  parse := parse
  handler s method params :=
    let (v, s) := pfHandleRequest e w method params s
    (some v, s)

end Proxiflare.Daemon
