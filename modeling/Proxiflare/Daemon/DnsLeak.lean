import Proxiflare.Daemon.Requests
import Proxiflare.Lib.Act

/-!
# DNS leak protection

The `dns_leak.*` branches of `pf_handle_request`, what start-up restores
(`daemon/src/main.c`) and the two ways `daemon/src/nft.c` fills the chain
`output_nat`. The chain is created anew with its table at every start and holds
nothing but these rules, so deleting by the comment `pf_dns_leak` empties it. An add
that `nft` refuses and a resolver socket that cannot be bound are faults.
-/

namespace Proxiflare.Daemon

open Lib Lib.Act Lib.CString

inductive Proto where
  | udp | tcp
  deriving DecidableEq

/-- A rule of `output_nat` for port 53 of the cgroup, with the comment `pf_dns_leak`. -/
inductive NatRule where
  | dnat (proto : Proto) (server : CStr)
  | redirect (proto : Proto) (port : Nat)
  deriving DecidableEq

def pfDnsResolverPort : Nat := 5353

/-- Which of the calls that may fail do. -/
structure DnsFaults where
  bind : Bool
  udpAdd : Bool
  tcpAdd : Bool
  deriving DecidableEq

/-- `resolverUp` is `ctx->dns_resolver.udp_fd > 0`. -/
structure DnsLeak where
  db : Db
  outputNat : List NatRule
  resolverUp : Bool
  deriving DecidableEq

namespace DnsLeak

/-! ## Rules and resolver -/

def deleteDnsRules : Act DnsLeak PUnit := update fun s => { s with outputNat := [] }

/-- `nft_run` of one `add rule`. -/
def addRule (refused : Bool) (r : NatRule) : Act DnsLeak PUnit := do
  require (!refused)
  update fun s => { s with outputNat := s.outputNat ++ [r] }

def validServer (server : CStr) : Bool :=
  server ≠ [] && ((inetPton4 server).isSome || isInet6 server)

/-- The server is checked before anything is deleted. -/
def pfNftDnsLeakProtect (f : DnsFaults) (server : CStr) : Act DnsLeak PUnit := do
  require (validServer server)
  deleteDnsRules
  addRule f.udpAdd (.dnat .udp server)
  addRule f.tcpAdd (.dnat .tcp server)

def pfNftDnsViaProxy (f : DnsFaults) (port : Nat) : Act DnsLeak PUnit := do
  require (0 < port && port ≤ 65535)
  deleteDnsRules
  addRule f.udpAdd (.redirect .udp port)
  addRule f.tcpAdd (.redirect .tcp port)

def pfDnsResolverInit (f : DnsFaults) : Act DnsLeak PUnit := do
  update fun s => { s with resolverUp := false }
  require (!f.bind)
  update fun s => { s with resolverUp := true }

def pfDnsResolverClose (s : DnsLeak) : DnsLeak := { s with resolverUp := false }

/-! ## Requests -/

/-- A string parameter; absent, not a string and empty all mean the default. -/
def paramText (v : Option Json) (default : String) : CStr :=
  match v.bind Json.valuestring with
  | some (c :: cs) => c :: cs
  | _ => lit default

def viaProxy : CStr := lit "via-proxy"

/-- The resolver, unless it runs already. -/
def ensureResolver (f : DnsFaults) : Act DnsLeak PUnit := fun s =>
  if s.resolverUp then (some ⟨⟩, s) else pfDnsResolverInit f s

/-- Both modes tear the other one down before their own rules are known to work. -/
def enableMode (f : DnsFaults) (mode dns : CStr) : Act DnsLeak PUnit :=
  if mode = viaProxy then do
    ensureResolver f
    pfNftDnsViaProxy f pfDnsResolverPort
  else do
    update pfDnsResolverClose
    pfNftDnsLeakProtect f dns

def storeSettings (db : Db) (mode dns : CStr) : Db :=
  let db := pfConfigSet (pfConfigSet db (lit "dns_leak_enabled") (lit "true")) (lit "dns_mode") mode
  if mode = lit "force-server" then pfConfigSet db (lit "dns_server") dns else db

def enableModeOf (params : Option Json) : CStr :=
  paramText (params.bind (·.getObjectItem (lit "mode"))) "force-server"

def enableServerOf (params : Option Json) : CStr :=
  paramText (params.bind (·.getEither (lit "dns_server") (lit "server"))) "1.1.1.1"

def dnsLeakEnable (f : DnsFaults) (params : Option Json) (s : DnsLeak) : Reply × DnsLeak :=
  match enableMode f (enableModeOf params) (enableServerOf params) s with
  | (some _, t) =>
    (.ok, { t with db := storeSettings t.db (enableModeOf params) (enableServerOf params) })
  | (none, t) => (.error (lit "failed to set DNS rules"), t)

def dnsLeakDisable (s : DnsLeak) : Reply × DnsLeak :=
  (.ok, { db := pfConfigSet s.db (lit "dns_leak_enabled") (lit "false")
          outputNat := []
          resolverUp := false })

structure Status where
  enabled : Bool
  mode : CStr
  dnsServer : CStr
  deriving DecidableEq

/-- Answered from the configuration alone. -/
def dnsLeakStatus (s : DnsLeak) : Status where
  enabled := configText 8 s.db "dns_leak_enabled" "false" = lit "true"
  mode := configText 32 s.db "dns_mode" "force-server"
  dnsServer := configText 64 s.db "dns_server" "1.1.1.1"

/-! ## Start-up -/

def restoreMode (f : DnsFaults) (mode server : CStr) : Act DnsLeak PUnit :=
  if mode = viaProxy then do
    pfDnsResolverInit f
    pfNftDnsViaProxy f pfDnsResolverPort
  else pfNftDnsLeakProtect f server

/-- A failure is logged and otherwise ignored. -/
def restoreDnsLeak (f : DnsFaults) (s : DnsLeak) : DnsLeak :=
  if configText 8 s.db "dns_leak_enabled" "false" = lit "true" then
    (restoreMode f (configText 32 s.db "dns_mode" "force-server")
      (configText 64 s.db "dns_server" "1.1.1.1") s).2
  else s

/-- The tables are created anew and the context is zeroed; only the database is left. -/
def restart (f : DnsFaults) (s : DnsLeak) : DnsLeak :=
  restoreDnsLeak f { s with outputNat := [], resolverUp := false }

inductive Event where
  | enable (params : Option Json) (f : DnsFaults)
  | disable
  | restart (f : DnsFaults)

def step (s : DnsLeak) : Event → Option DnsLeak
  | .enable params f => some (dnsLeakEnable f params s).2
  | .disable => some (dnsLeakDisable s).2
  | .restart f => some (restart f s)

/-- Protection was never switched on. -/
structure Fresh (s : DnsLeak) : Prop where
  enabled : pfConfigGet s.db (lit "dns_leak_enabled") = none
  mode : pfConfigGet s.db (lit "dns_mode") = none
  server : pfConfigGet s.db (lit "dns_server") = none
  noRules : s.outputNat = []
  down : s.resolverUp = false

/-! ## What one call leaves -/

/-- The two adds after the old rules are gone: both rules, or a failure with at most the first. -/
inductive Filled (f : DnsFaults) (s : DnsLeak) (a b : NatRule) (r : Option PUnit × DnsLeak) :
    Prop where
  | whole (hudp : f.udpAdd = false) (htcp : f.tcpAdd = false)
      (hr : r = (some ⟨⟩, { s with outputNat := [a, b] }))
  | part (rules : List NatRule) (hfault : f.udpAdd = true ∨ f.tcpAdd = true)
      (hrules : rules <+: [a]) (hr : r = (none, { s with outputNat := rules }))

variable (f : DnsFaults) (s : DnsLeak)

theorem addBoth_filled (a b : NatRule) :
    Filled f s a b
      ((do deleteDnsRules; addRule f.udpAdd a; addRule f.tcpAdd b : Act DnsLeak PUnit) s) := by
  obtain ⟨bind, udpAdd, tcpAdd⟩ := f
  cases udpAdd with
  | true => exact .part [] (.inl rfl) List.nil_prefix rfl
  | false =>
    cases tcpAdd with
    | true => exact .part [a] (.inr rfl) List.prefix_rfl rfl
    | false => exact .whole rfl rfl rfl

theorem pfNftDnsLeakProtect_of_invalid {server : CStr} (h : validServer server = false) :
    pfNftDnsLeakProtect f server s = (none, s) := by
  unfold pfNftDnsLeakProtect
  rw [h]
  rfl

theorem pfNftDnsLeakProtect_filled {server : CStr} (h : validServer server = true) :
    Filled f s (.dnat .udp server) (.dnat .tcp server) (pfNftDnsLeakProtect f server s) := by
  unfold pfNftDnsLeakProtect
  rw [h]
  exact addBoth_filled f s _ _

theorem pfNftDnsViaProxy_filled :
    Filled f s (.redirect .udp pfDnsResolverPort) (.redirect .tcp pfDnsResolverPort)
      (pfNftDnsViaProxy f pfDnsResolverPort s) :=
  addBoth_filled f s _ _

/-- A resolver that neither runs nor can be bound stops the request before the rules are touched. -/
theorem enableMode_viaProxy (dns : CStr) :
    enableMode f viaProxy dns s =
      if s.resolverUp = false ∧ f.bind = true then (none, s)
      else pfNftDnsViaProxy f pfDnsResolverPort { s with resolverUp := true } := by
  obtain ⟨db, outputNat, resolverUp⟩ := s
  obtain ⟨bind, udpAdd, tcpAdd⟩ := f
  rw [enableMode, if_pos rfl]
  cases resolverUp <;> cases bind <;> rfl

theorem enableMode_of_ne {mode : CStr} (h : mode ≠ viaProxy) (dns : CStr) :
    enableMode f mode dns s = pfNftDnsLeakProtect f dns { s with resolverUp := false } := by
  rw [enableMode, if_neg h]
  rfl

theorem restoreMode_viaProxy (server : CStr) :
    restoreMode f viaProxy server s =
      if f.bind = true then (none, { s with resolverUp := false })
      else pfNftDnsViaProxy f pfDnsResolverPort { s with resolverUp := true } := by
  obtain ⟨bind, udpAdd, tcpAdd⟩ := f
  rw [restoreMode, if_pos rfl]
  cases bind <;> rfl

theorem restoreMode_of_ne {mode : CStr} (h : mode ≠ viaProxy) (server : CStr) :
    restoreMode f mode server s = pfNftDnsLeakProtect f server s := by
  rw [restoreMode, if_neg h]

variable {f s} in
theorem Filled.db {a b : NatRule} {r : Option PUnit × DnsLeak} (h : Filled f s a b r) :
    r.2.db = s.db := by
  cases h with
  | whole _ _ hr => rw [hr]
  | part _ _ _ hr => rw [hr]

theorem pfNftDnsLeakProtect_db (server : CStr) : (pfNftDnsLeakProtect f server s).2.db = s.db := by
  by_cases hvalid : validServer server = true
  · exact (pfNftDnsLeakProtect_filled f s hvalid).db
  · rw [pfNftDnsLeakProtect_of_invalid f s (by simpa using hvalid)]

theorem enableMode_db (mode dns : CStr) : (enableMode f mode dns s).2.db = s.db := by
  by_cases hvia : mode = viaProxy
  · rw [hvia, enableMode_viaProxy]
    split
    · rfl
    · exact (pfNftDnsViaProxy_filled f { s with resolverUp := true }).db
  · rw [enableMode_of_ne f s hvia]
    exact pfNftDnsLeakProtect_db f _ dns

theorem restoreMode_db (mode server : CStr) : (restoreMode f mode server s).2.db = s.db := by
  by_cases hvia : mode = viaProxy
  · rw [hvia, restoreMode_viaProxy]
    split
    · rfl
    · exact (pfNftDnsViaProxy_filled f { s with resolverUp := true }).db
  · rw [restoreMode_of_ne f s hvia]
    exact pfNftDnsLeakProtect_db f s server

/-- The database is not looked at. -/
theorem enableMode_frame (mode dns : CStr) (db : Db) :
    enableMode f mode dns { s with db := db } =
      ((enableMode f mode dns s).1, { (enableMode f mode dns s).2 with db := db }) := by
  obtain ⟨bind, udpAdd, tcpAdd⟩ := f
  obtain ⟨_, outputNat, resolverUp⟩ := s
  by_cases hvia : mode = viaProxy
  · rw [hvia, enableMode_viaProxy, enableMode_viaProxy]
    cases resolverUp <;> cases bind <;> cases udpAdd <;> cases tcpAdd <;> rfl
  · rw [enableMode_of_ne _ _ hvia, enableMode_of_ne _ _ hvia]
    unfold pfNftDnsLeakProtect
    cases validServer dns <;> cases udpAdd <;> cases tcpAdd <;> rfl

theorem restoreDnsLeak_of_on (h : (dnsLeakStatus s).enabled = true) :
    restoreDnsLeak f s =
      (restoreMode f (dnsLeakStatus s).mode (dnsLeakStatus s).dnsServer s).2 :=
  if_pos (of_decide_eq_true h)

theorem restoreDnsLeak_of_off (h : (dnsLeakStatus s).enabled = false) :
    restoreDnsLeak f s = s :=
  if_neg (of_decide_eq_false h)

theorem restart_db : (restart f s).db = s.db := by
  unfold restart restoreDnsLeak
  split
  · exact restoreMode_db f _ _ _
  · rfl

end DnsLeak

end Proxiflare.Daemon
