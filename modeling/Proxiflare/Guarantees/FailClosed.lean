import Proxiflare.Daemon.Routing

/-!
# When a routed connection may leave without its proxy

A connection whose applied rule names an existing enabled proxy or chain must be
relayed through it or dropped. The connectors report failure with the code that
also means DIRECT, so a failed dial is followed by a socket to the original
destination. The result below holds for arbitrary connectors.
-/

namespace Proxiflare.Guarantees.FailClosed

open Lib.CString Lib
open Proxiflare.Daemon

/-- The connector call a rule leads to when its proxy or chain exists and is enabled. -/
def connectorCall (cn : Connectors) (db : Db) (rule : Rule) (target : CStr) (dstPort : Int)
    (net : Net) : Option (Option Fd × Net) :=
  if rule.action = .proxy ∧ 0 < rule.proxyId then
    ((pfConfigProxyGet db rule.proxyId).filter fun p => p.enabled ≠ 0).map fun p =>
      cn.single p target dstPort (net.emit (.useProxy p.id))
  else if rule.action = .chain ∧ 0 < rule.chainId then
    ((pfConfigChainGet db rule.chainId).filter fun c => c.enabled ≠ 0).map fun c =>
      cn.chain c (pfConfigProxyList db pfMaxProxies) target dstPort (net.emit (.useChain c.id))
  else none

theorem dialRule_of_connectorCall {cn : Connectors} {db : Db} {rule : Rule} {target : CStr}
    {dstPort : Int} {net : Net} {result : Option Fd × Net}
    (h : connectorCall cn db rule target dstPort net = some result) :
    dialRule cn db rule target dstPort net = fdOrError result := by
  unfold connectorCall at h
  unfold dialRule
  split at h
  · next hp =>
    rw [if_pos hp]
    obtain ⟨p, hget, rfl⟩ := Option.map_eq_some_iff.mp h
    obtain ⟨hsome, hen⟩ := Option.filter_eq_some_iff.mp hget
    rw [hsome]
    exact if_neg (of_decide_eq_true hen)
  · next hp =>
    rw [if_neg hp]
    split at h
    · next hc =>
      rw [if_pos hc]
      obtain ⟨c, hget, rfl⟩ := Option.map_eq_some_iff.mp h
      obtain ⟨hsome, hen⟩ := Option.filter_eq_some_iff.mp hget
      rw [hsome]
      exact if_neg (of_decide_eq_true hen)
    · cases h

theorem action_of_connectorCall {cn : Connectors} {db : Db} {rule : Rule} {target : CStr}
    {dstPort : Int} {net : Net} {result : Option Fd × Net}
    (h : connectorCall cn db rule target dstPort net = some result) :
    rule.action = .proxy ∨ rule.action = .chain := by
  unfold connectorCall at h
  split at h
  · next hp => exact .inl hp.1
  · split at h
    · next hc => exact .inr hc.1
    · cases h

/-- With such a rule applied, the callback returns the connector's result. -/
theorem proxyConnectForTproxy_routed {cn : Connectors} {ctx : Ctx} {rs : Ruleset}
    {dstIp : CBuf 16} {dstPort : Int} {domain : CBuf pfDomainMax} {net : Net} {rule : Rule}
    {result : Option Fd × Net} (hrs : ctx.ruleset = some rs)
    (happ : appliedRule rs ((matchDomain ctx dstIp.chars domain).map CBuf.chars)
      (some dstIp.chars) dstPort = some rule)
    (hcall : connectorCall cn ctx.db rule (targetOf (matchDomain ctx dstIp.chars domain) dstIp)
      dstPort net = some result) :
    proxyConnectForTproxy cn ctx dstIp dstPort domain net = fdOrError result := by
  have hact := action_of_connectorCall hcall
  simp only [proxyConnectForTproxy, hrs, happ]
  rw [if_neg (by rcases hact with h | h <;> simp [h]),
    if_neg (by rcases hact with h | h <;> simp [h])]
  exact dialRule_of_connectorCall hcall

/-- Some active slot pairs the two descriptors. -/
def Relays (tp : ConnTable) (cfd pfd : Fd) : Prop :=
  ∃ c ∈ tp.conns, c.active = true ∧ c.clientFd = cfd ∧ c.proxyFd = pfd

/-- After the connector returned `result`, the thread opens no direct socket, and it relays over
the connector's descriptor or closes the client. -/
def FailsClosed (cfd : Fd) (result : Option Fd × Net) (out : ConnTable × Net) : Prop :=
  ∃ evs, out.2.events = result.2.events ++ evs ∧
    (∀ fd ip port, Event.direct fd ip port ∉ evs) ∧
    ((∃ fd, result.1 = some fd ∧ Relays out.1 cfd fd) ∨ Event.closed cfd ∈ evs)

theorem claimSlot_relays {tp tp' : ConnTable} {cfd pfd : Fd} {info : AcceptInfo} {i : Nat}
    (h : claimSlot tp cfd pfd info = some (i, tp')) : Relays tp' cfd pfd := by
  obtain ⟨hi, rfl⟩ := claimSlot_some h
  obtain ⟨c, hget, -⟩ := findFreeSlot_some hi
  obtain ⟨hlt, -⟩ := List.getElem?_eq_some_iff.mp hget
  exact ⟨info.connection cfd pfd, List.mem_set hlt _, rfl, rfl, rfl⟩

/-- Entering the table with the connector's descriptor is fail-closed, full table or not. -/
theorem failsClosed_enterTable (a : Accepted) (dst : CBuf 16 × UInt16) (tp : ConnTable) (fd : Fd)
    (net : Net) : FailsClosed a.cfd (some fd, net) (enterTable a dst tp fd net) := by
  unfold enterTable
  split
  · refine ⟨[.closed fd, .closed a.cfd], ?_, by simp, .inr (by simp)⟩
    simp [closeFd, Net.emit]
  · next i tp' hclaim =>
    exact ⟨[], by simp, by simp, .inl ⟨fd, rfl, claimSlot_relays hclaim⟩⟩

theorem enterTable_events (a : Accepted) (dst : CBuf 16 × UInt16) (tp : ConnTable) (fd : Fd)
    (net : Net) : ∃ evs, (enterTable a dst tp fd net).2.events = net.events ++ evs := by
  unfold enterTable
  split
  · exact ⟨[.closed fd, .closed a.cfd], by simp [closeFd, Net.emit]⟩
  · exact ⟨[], by simp⟩

/-- A trace that continues with a direct socket is not fail-closed. -/
theorem not_failsClosed_of_direct {cfd fd : Fd} {ip : CStr} {port : Nat}
    {result : Option Fd × Net} {out : ConnTable × Net} {evs : List Event}
    (h : out.2.events = (result.2.emit (.direct fd ip port)).events ++ evs) :
    ¬ FailsClosed cfd result out := by
  intro hclosed
  obtain ⟨evs', hevs, hno, -⟩ := hclosed
  rw [h, Net.emit, List.append_assoc] at hevs
  have heq := List.append_cancel_left hevs
  exact hno fd ip port (heq ▸ by simp)

/-- Exactly when the connector fails and a direct socket is available does the connection leave
without its proxy. -/
theorem fail_closed_iff_connector_succeeds (cn : Connectors) (ctx : Ctx) (a : Accepted)
    (tp : ConnTable) (net : Net) (rs : Ruleset) (dst : CBuf 16 × UInt16) (rule : Rule)
    (result : Option Fd × Net) (hrs : ctx.ruleset = some rs) (hdst : a.origDst = some dst)
    (happ : appliedRule rs ((matchDomain ctx dst.1.chars a.domain).map CBuf.chars)
      (some dst.1.chars) dst.2.toNat = some rule)
    (hcall : connectorCall cn ctx.db rule
      (targetOf (matchDomain ctx dst.1.chars a.domain) dst.1) dst.2.toNat net = some result) :
    FailsClosed a.cfd result (tproxyAcceptThread cn ctx a tp net) ↔
      result.1.isSome ∨ a.directSocket = none := by
  have hverdict := proxyConnectForTproxy_routed hrs happ hcall
  obtain ⟨fd?, cnet⟩ := result
  cases fd? with
  | some fd =>
    have hthread : tproxyAcceptThread cn ctx a tp net = enterTable a dst tp fd cnet := by
      simp only [tproxyAcceptThread, hdst, hverdict, fdOrError]
      rw [if_neg (by omega), if_neg (by omega), Int.toNat_natCast]
    rw [hthread]
    exact iff_of_true (failsClosed_enterTable a dst tp fd cnet) (.inl rfl)
  | none =>
    cases hsock : a.directSocket with
    | none =>
      have hthread : tproxyAcceptThread cn ctx a tp net = (tp, closeFd a.cfd cnet) := by
        simp only [tproxyAcceptThread, hdst, hverdict, fdOrError, hsock]
        rfl
      rw [hthread]
      exact iff_of_true ⟨[.closed a.cfd], rfl, by simp, .inr (by simp)⟩ (.inr rfl)
    | some sfd =>
      refine iff_of_false ?_ (by simp)
      have hthread : ∃ evs, (tproxyAcceptThread cn ctx a tp net).2.events =
          (cnet.emit (.direct sfd dst.1.chars dst.2.toNat)).events ++ evs := by
        simp only [tproxyAcceptThread, hdst, hverdict, fdOrError, hsock]
        rw [if_neg (by decide), if_pos (by decide)]
        split
        · exact enterTable_events a dst tp sfd _
        · exact ⟨[.closed sfd, .closed a.cfd], by simp [closeFd, Net.emit]⟩
      obtain ⟨evs, hevs⟩ := hthread
      exact not_failsClosed_of_direct hevs

/-! ## A refused proxy -/

def refusedProxy : ProxyRow :=
  ⟨1, lit "p1", lit "socks5", lit "10.0.0.1", 1080, none, none, none, 1, 0, 0⟩

def refusedRule : Rule :=
  { Rule.zero with
    id := 1, appPath := .snprintf (lit "firefox"), action := .proxy, proxyId := 1, enabled := 1 }

def refusedCtx : Ctx := ⟨some [refusedRule], { Db.empty with proxies := [refusedProxy] }, [], 0⟩

def refusedDst : CBuf 16 × UInt16 := (.snprintf (lit "93.184.216.34"), 443)

def refusedAccept : Accepted :=
  ⟨5, some refusedDst, .snprintf (lit "example.com"), true, some 8, true⟩

/-- One address, which refuses the connection. -/
def refusedNet : Net := ⟨[[.refused 7]], [], [], []⟩

def refusedResult : Option Fd × Net :=
  (none, ⟨[], [], [], [.useProxy 1, .dial (rowToProxy refusedProxy) 7, .closed 7]⟩)

theorem fail_closed_iff_refused :
    FailsClosed refusedAccept.cfd refusedResult
        (tproxyAcceptThread connectors refusedCtx refusedAccept pfTproxyInit refusedNet) ↔
      refusedResult.1.isSome ∨ refusedAccept.directSocket = none :=
  fail_closed_iff_connector_succeeds connectors refusedCtx refusedAccept pfTproxyInit refusedNet
    [refusedRule] refusedDst refusedRule refusedResult rfl rfl (by decide) (by decide)

theorem refused_thread_events :
    (tproxyAcceptThread connectors refusedCtx refusedAccept pfTproxyInit refusedNet).2.events =
      (refusedResult.2.emit (.direct 8 (lit "93.184.216.34") 443)).events ++ [] := by
  decide

theorem refused_proxy_goes_direct :
    appliedRule [refusedRule] (some (lit "example.com")) (some (lit "93.184.216.34")) 443 =
        some refusedRule ∧
      connectorCall connectors refusedCtx.db refusedRule (lit "example.com") 443 refusedNet =
        some refusedResult ∧
      ¬ FailsClosed refusedAccept.cfd refusedResult
        (tproxyAcceptThread connectors refusedCtx refusedAccept pfTproxyInit refusedNet) :=
  ⟨by decide, by decide, not_failsClosed_of_direct refused_thread_events⟩

end Proxiflare.Guarantees.FailClosed
