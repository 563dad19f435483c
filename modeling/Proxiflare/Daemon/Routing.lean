import Proxiflare.Daemon.Connectors
import Proxiflare.Daemon.Config
import Proxiflare.Daemon.Rules
import Proxiflare.Daemon.Tproxy

/-!
# From an intercepted connection to an upstream socket

`proxy_connect_for_tproxy` and `tproxy_accept_thread` of `daemon/src/main.c`,
`pf_dns_lookup` of `dns.c` and the proxy selection of `dns_resolver.c`. Logging and
the TLS interception of step 5 are left out: they open no socket and choose no
route. The connectors are a parameter, `connectors` being the real ones.
-/

namespace Proxiflare.Daemon

open Lib.CString Lib Lib.FirstMatch

/-! ## The DNS cache -/

/-- The fields of `pf_dns_entry_t` that the lookup reads. -/
structure DnsEntry where
  domain : CBuf pfDomainMax
  resolvedIp : CBuf 46
  expires : Int
  used : Bool
  deriving DecidableEq

def pfDnsLookup (cache : List DnsEntry) (now : Int) (ip : CStr) : Option DnsEntry :=
  cache.find? fun e =>
    e.used && now < e.expires && e.resolvedIp.nonempty && e.resolvedIp.chars = ip

/-! ## The rule that applies -/

structure Ctx where
  ruleset : Option Ruleset
  db : Db
  dns : List DnsEntry
  now : Int

/-- The SNI name, or the name the destination was resolved from. -/
def matchDomain (ctx : Ctx) (dstIp : CStr) (domain : CBuf pfDomainMax) :
    Option (CBuf pfDomainMax) :=
  if domain.nonempty then some domain
  else if dstIp = [] then none
  else ((pfDnsLookup ctx.dns ctx.now dstIp).map DnsEntry.domain).filter CBuf.nonempty

def hasSpecifics (r : Rule) : Bool := r.domain.nonempty || r.ipCidr.nonempty || r.dstPort ≠ 0

/-- An enabled application rule that names a proxy and whose other criteria hold. -/
def appProxyMatch (domain dstIp : Option CStr) (dstPort : Int) (r : Rule) : Bool :=
  r.enabled ≠ 0 && r.action = .proxy && r.appPath.nonempty && r.proxyId ≠ 0 &&
    criteriaHold r domain dstIp dstPort

/-- One turn of the scan over `(best_specific, best_catchall)`. -/
def scanApp (domain dstIp : Option CStr) (dstPort : Int) (best : Option Rule × Option Rule)
    (r : Rule) : Option Rule × Option Rule :=
  if !appProxyMatch domain dstIp dstPort r then best
  else if hasSpecifics r then (best.1.or (some r), best.2)
  else (best.1, best.2.or (some r))

def bestAppRule (rs : Ruleset) (domain dstIp : Option CStr) (dstPort : Int) : Option Rule :=
  let best := rs.foldl (scanApp domain dstIp dstPort) (none, none)
  best.1.or best.2

def appliedRule (rs : Ruleset) (domain dstIp : Option CStr) (dstPort : Int) : Option Rule :=
  match pfRulesMatch rs none domain dstIp dstPort with
  | some rule => if rule.action = .direct then bestAppRule rs domain dstIp dstPort else some rule
  | none => bestAppRule rs domain dstIp dstPort

/-! ## Dialling -/

structure Connectors where
  socks5 : Proxy → CStr → Int → Act Net Fd
  socks4 : Proxy → CStr → Int → Act Net Fd
  http : Proxy → CStr → Int → Act Net Fd
  chain : Chain → List Proxy → CStr → Int → Act Net Fd

def connectors : Connectors := ⟨pfSocks5Connect, pfSocks4Connect, pfHttpConnect, pfChainConnect⟩

/-- The `switch` on the proxy type; SSH has no descriptor to relay over. -/
def Connectors.single (cn : Connectors) (p : Proxy) : CStr → Int → Act Net Fd :=
  match p.type with
  | .socks5 => cn.socks5 p
  | .socks4 => cn.socks4 p
  | .http => cn.http p
  | .ssh => fun _ _ => Act.fail

/-- A connector's result as the C `int`. -/
def fdOrError (r : Option Fd × Net) : Int × Net :=
  match r with
  | (some fd, net) => (fd, net)
  | (none, net) => (-1, net)

def dialRule (cn : Connectors) (db : Db) (rule : Rule) (target : CStr) (dstPort : Int)
    (net : Net) : Int × Net :=
  if rule.action = .proxy ∧ 0 < rule.proxyId then
    match pfConfigProxyGet db rule.proxyId with
    | none => (-1, net)
    | some proxy =>
      if proxy.enabled = 0 then (-1, net)
      else fdOrError (cn.single proxy target dstPort (net.emit (.useProxy proxy.id)))
  else if rule.action = .chain ∧ 0 < rule.chainId then
    match pfConfigChainGet db rule.chainId with
    | none => (-1, net)
    | some chain =>
      if chain.enabled = 0 then (-1, net)
      else fdOrError (cn.chain chain (pfConfigProxyList db pfMaxProxies) target dstPort
        (net.emit (.useChain chain.id)))
  else (-1, net)

/-- The name to ask a proxy for, or the address when there is none. -/
def targetOf (domain : Option (CBuf pfDomainMax)) (dstIp : CBuf 16) : CStr :=
  (domain.map CBuf.chars).getD dstIp.chars

/-- A descriptor, -1 for DIRECT, or -2 for BLOCK. -/
def proxyConnectForTproxy (cn : Connectors) (ctx : Ctx) (dstIp : CBuf 16) (dstPort : Int)
    (domain : CBuf pfDomainMax) (net : Net) : Int × Net :=
  match ctx.ruleset with
  | none => (-1, net)
  | some rs =>
    let md := matchDomain ctx dstIp.chars domain
    match appliedRule rs (md.map CBuf.chars) (some dstIp.chars) dstPort with
    | none => (-1, net)
    | some rule =>
      if rule.action = .direct then (-1, net)
      else if rule.action = .block ∨ rule.action = .reject then (-2, net)
      else dialRule cn ctx.db rule (targetOf md dstIp) dstPort net

/-! ## The accept thread -/

/-- What the thread meets: `SO_ORIGINAL_DST` (`none` on failure), the peeked SNI, and, if it
comes to that, the direct `socket` and `connect`. -/
structure Accepted where
  cfd : Fd
  origDst : Option (CBuf 16 × UInt16)
  domain : CBuf pfDomainMax
  isTls : Bool
  directSocket : Option Fd
  directConnects : Bool
  deriving DecidableEq

/-- Steps 4 and 6: a slot for the pair, or both descriptors closed when the table is full. -/
def enterTable (a : Accepted) (dst : CBuf 16 × UInt16) (tp : ConnTable) (pfd : Fd) (net : Net) :
    ConnTable × Net :=
  match claimSlot tp a.cfd pfd ⟨dst.1, dst.2, a.domain, a.isTls⟩ with
  | none => (tp, closeFd a.cfd (closeFd pfd net))
  | some (_, tp) => (tp, net)

def tproxyAcceptThread (cn : Connectors) (ctx : Ctx) (a : Accepted) (tp : ConnTable) (net : Net) :
    ConnTable × Net :=
  match a.origDst with
  | none => (tp, closeFd a.cfd net)
  | some dst =>
    let (proxyFd, net) := proxyConnectForTproxy cn ctx dst.1 dst.2.toNat a.domain net
    if proxyFd = -2 then (tp, closeFd a.cfd net)
    else if proxyFd < 0 then
      match a.directSocket with
      | none => (tp, closeFd a.cfd net)
      | some fd =>
        let net := net.emit (.direct fd dst.1.chars dst.2.toNat)
        if a.directConnects then enterTable a dst tp fd net
        else (tp, closeFd a.cfd (closeFd fd net))
    else enterTable a dst tp proxyFd.toNat net

/-! ## DNS over HTTPS -/

def dnsUsable (p : Proxy) : Bool := p.enabled ≠ 0 && (p.type = .socks5 || p.type = .http)

/-- `pick_dns_proxy`. -/
def pickDnsProxy (db : Db) : Option Proxy :=
  let configured := atoi (((pfConfigGet db (lit "dns_proxy_id")).getD (lit "0")).take 31)
  let fallback := (pfConfigProxyList db pfMaxProxies).find? dnsUsable
  if 0 < configured then
    match pfConfigProxyGet db configured with
    | some p => if dnsUsable p then some p else fallback
    | none => fallback
  else fallback

/-- `connect_via_proxy`. -/
def connectViaProxy (cn : Connectors) (p : Proxy) (host : CStr) (port : Int) : Act Net Fd :=
  if p.type = .socks5 then cn.socks5 p host port
  else if p.type = .http then cn.http p host port
  else Act.fail

/-- The tunnel `dns_worker` opens on a cache miss. -/
def dnsTunnel (cn : Connectors) (db : Db) (dohHost : CStr) (dohPort : Int) : Act Net Fd :=
  match pickDnsProxy db with
  | none => Act.fail
  | some p => connectViaProxy cn p dohHost dohPort

/-! ## The decision as three searches -/

theorem bestAppRule_eq (rs : Ruleset) (domain dstIp : Option CStr) (dstPort : Int) :
    bestAppRule rs domain dstIp dstPort =
      (rs.find? fun r => appProxyMatch domain dstIp dstPort r && hasSpecifics r).or
        (rs.find? fun r => appProxyMatch domain dstIp dstPort r && !hasSpecifics r) := by
  have hstep : scanApp domain dstIp dstPort = fun best r =>
      (keepFirst (fun r => appProxyMatch domain dstIp dstPort r && hasSpecifics r) best.1 r,
        keepFirst (fun r => appProxyMatch domain dstIp dstPort r && !hasSpecifics r) best.2 r) := by
    funext best r
    unfold scanApp keepFirst
    cases hm : appProxyMatch domain dstIp dstPort r <;> cases hs : hasSpecifics r <;>
      simp [hm, hs]
  rw [bestAppRule, hstep]
  simp only [foldl_pair, foldl_keepFirst, Option.none_or]

/-- A rule without application path that is enabled and whose criteria hold. -/
def openMatch (domain dstIp : Option CStr) (dstPort : Int) (r : Rule) : Bool :=
  decide (r.enabled ≠ 0) && !r.appPath.nonempty && criteriaHold r domain dstIp dstPort

theorem pfRulesMatch_none_app (rs : Ruleset) (domain dstIp : Option CStr) (dstPort : Int) :
    pfRulesMatch rs none domain dstIp dstPort = rs.find? (openMatch domain dstIp dstPort) := by
  rw [pfRulesMatch_eq_find?]
  congr 1
  funext r
  simp [openMatch, appOk]

/-- What the app scan returns is an application rule with action PROXY. -/
theorem bestAppRule_some {rs : Ruleset} {domain dstIp : Option CStr} {dstPort : Int} {r : Rule}
    (h : bestAppRule rs domain dstIp dstPort = some r) :
    r ∈ rs ∧ appProxyMatch domain dstIp dstPort r = true := by
  rw [bestAppRule_eq, Option.or_eq_some_iff] at h
  rcases h with h | ⟨-, h⟩
  · have hp := List.find?_some h
    simp only [Bool.and_eq_true] at hp
    exact ⟨List.mem_of_find?_eq_some h, hp.1⟩
  · have hp := List.find?_some h
    simp only [Bool.and_eq_true] at hp
    exact ⟨List.mem_of_find?_eq_some h, hp.1⟩

end Proxiflare.Daemon
