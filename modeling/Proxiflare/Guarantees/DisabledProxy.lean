import Proxiflare.Daemon.Handshakes
import Proxiflare.Daemon.Routing

/-!
# Which records are dialled although disabled

A single proxy and the proxy of the DNS resolver are checked before they are used.
The hops of a chain are looked up by id alone, so an enabled chain carries its
traffic over disabled records, as far as it gets along its hops.
-/

namespace Proxiflare.Guarantees.DisabledProxy

open Lib.CString Lib
open Proxiflare.Daemon

/-- The hops some network lets a chain arrive at: an SSH hop, or one before a record without a
port, is the last. -/
def reached : List Proxy → List Proxy
  | [] => []
  | [last] => [last]
  | hop :: next :: rest =>
    if hop.type = .ssh ∨ next.port = 0 then [hop] else hop :: reached (next :: rest)

/-- The records `pf_chain_connect` may dial or talk to. -/
def chainReached (proxies : List Proxy) (chain : Chain) (dstPort : Int) : List Proxy :=
  match chain.hops.mapM (findProxy proxies) with
  | some (first :: rest) =>
    if validPort dstPort ∧ first.type ≠ .ssh then reached (first :: rest) else []
  | _ => []

/-- The enabled chain of the applied rule. -/
def appliedChain (ctx : Ctx) (dstIp : CBuf 16) (dstPort : Int) (domain : CBuf pfDomainMax) :
    Option Chain := do
  let rs ← ctx.ruleset
  let rule ← appliedRule rs ((matchDomain ctx dstIp.chars domain).map CBuf.chars)
    (some dstIp.chars) dstPort
  if rule.action = .chain ∧ 0 < rule.chainId then
    (pfConfigChainGet ctx.db rule.chainId).filter fun c => c.enabled ≠ 0
  else none

/-- No disabled record is dialled or talked to between the two states. -/
abbrev SparesDisabled (net net' : Net) : Prop := Adds (Concerns fun p => p.enabled ≠ 0) net net'

/-- Neither an intercepted connection nor the DNS resolver ever uses a disabled record. -/
def NeverDialled (ctx : Ctx) (dstIp : CBuf 16) (dstPort : Int) (domain : CBuf pfDomainMax)
    (dohHost : CStr) (dohPort : Int) : Prop :=
  ∀ net, SparesDisabled net (proxyConnectForTproxy connectors ctx dstIp dstPort domain net).2 ∧
    SparesDisabled net (dnsTunnel connectors ctx.db dohHost dohPort net).2

variable {S : Proxy → Prop}

/-! ## Single proxies -/

theorem single_moves {p : Proxy} (hp : S p) (dst : CStr) (port : Int) :
    Act.Moves (Adds (Concerns S)) (connectors.single p dst port) := by
  unfold Connectors.single
  cases p.type with
  | socks5 => exact pfSocks5Connect_moves hp dst port
  | socks4 => exact pfSocks4Connect_moves hp dst port
  | http => exact pfHttpConnect_moves hp dst port
  | ssh => exact .fail

theorem pickDnsProxy_enabled {db : Db} {p : Proxy} (h : pickDnsProxy db = some p) :
    p.enabled ≠ 0 := by
  have hfallback : ∀ q, (pfConfigProxyList db pfMaxProxies).find? dnsUsable = some q →
      dnsUsable q = true := fun q hq => List.find?_some hq
  have husable : dnsUsable p = true := by
    unfold pickDnsProxy at h
    simp only at h
    split at h
    · split at h
      · split at h
        · next hq =>
          obtain rfl := Option.some.inj h
          exact hq
        · exact hfallback p h
      · exact hfallback p h
    · exact hfallback p h
  simp only [dnsUsable, Bool.and_eq_true, decide_eq_true_eq] at husable
  exact husable.1

/-- The resolver's tunnel goes through an enabled proxy. -/
theorem dnsTunnel_spares (db : Db) (dohHost : CStr) (dohPort : Int) :
    Act.Moves (Adds (Concerns fun p => p.enabled ≠ 0)) (dnsTunnel connectors db dohHost dohPort) := by
  unfold dnsTunnel
  split
  · exact .fail
  · next p hpick =>
    have hp := pickDnsProxy_enabled hpick
    unfold connectViaProxy
    split
    · exact pfSocks5Connect_moves hp dohHost dohPort
    · split
      · exact pfHttpConnect_moves hp dohHost dohPort
      · exact .fail

/-! ## How far a chain gets -/

/-- The negotiation talks to the reached hops only. -/
theorem negotiateHops_moves (fd : Fd) {hops : List Proxy} (h : ∀ p ∈ reached hops, S p)
    (dst : CStr) (port : Int) : Act.Moves (Adds (Concerns S)) (negotiateHops fd hops dst port) := by
  induction hops with
  | nil => exact .pure _
  | cons hop rest ih =>
    cases rest with
    | nil => exact negotiateHopOnFd_moves (h hop (by simp [reached])) fd dst port
    | cons next rest =>
      unfold reached at h
      split at h
      · next hstop =>
        have hblocked : hop.type = .ssh ∨ validPort next.port.toNat = false :=
          hstop.imp_right fun hport => by rw [hport]; rfl
        exact .bind_of_fails (negotiateHopOnFd_moves (h hop (by simp)) fd _ _)
          (negotiateHopOnFd_fails hblocked fd _)
      · obtain ⟨hhop, hrest⟩ := List.forall_mem_cons.mp h
        exact .bind (negotiateHopOnFd_moves hhop fd _ _) fun _ => ih hrest

theorem mem_reached_head (first : Proxy) (rest : List Proxy) :
    first ∈ reached (first :: rest) := by
  cases rest with
  | nil => simp [reached]
  | cons next rest =>
    unfold reached
    split
    · simp
    · simp

theorem pfChainConnect_moves {chain : Chain} {proxies : List Proxy} {dst : CStr} {port : Int}
    (h : ∀ p ∈ chainReached proxies chain port, S p) :
    Act.Moves (Adds (Concerns S)) (pfChainConnect chain proxies dst port) := by
  unfold pfChainConnect
  refine .bind (.require _) fun _ => ?_
  by_cases hport : validPort port = true
  · refine .bind (.require _) fun _ => ?_
    unfold chainReached at h
    split
    · next first rest hhops =>
      by_cases hssh : first.type = .ssh
      · refine .bind_of_fails (.require _) fun net => ?_
        simp [hssh, Act.require, Act.fail]
      · simp only [hhops, hport, hssh, ne_eq, not_false_eq_true, and_self, if_true] at h
        have hfirst := h first (mem_reached_head first rest)
        refine .bind (.require _) fun _ => .bind (tcpConnect_moves first (fun _ => hfirst)
          fun _ => trivial) fun fd => ?_
        exact .bind (.onFail (negotiateHops_moves fd h dst port)
          (Adds.emit (P := Concerns S) (e := .closed fd) trivial)) fun _ => .pure _
    · exact .fail
  · refine .bind_of_fails (.require _) fun net => ?_
    simp [hport, Act.require, Act.fail]

/-! ## A network that lets it get there -/

theorem reach_recorded (fd : Fd) (p : Proxy) (dst : CStr) (port : Int) (net : Net) :
    Event.reach p fd ∈ (negotiateHopOnFd fd p dst port net).2.events := by
  have hmoves := negotiateSwitch_moves (P := Concerns fun _ => True) sent_concerns fd p dst port
  exact (hmoves (net.emit (.reach p fd))).mem (by simp [Net.emit])

theorem recorded_onFail {m : Act Net PUnit} {e : Event} {net : Net} {fd : Fd}
    (h : e ∈ (m net).2.events) : e ∈ ((m.onFail (closeFd fd)) net).2.events :=
  Act.onFail_reaches (Q := fun s : Net => e ∈ s.events) h fun _ ht => List.mem_append_left _ ht

/-- With every hop answering, each reached hop is talked to. -/
theorem negotiateHops_reaches (fd : Fd) {hops : List Proxy} {net : Net} (hsends : net.sends = [])
    (hinbox : net.inbox = hops.flatMap fun p => hopReplies p.type) (dst : CStr) (port : Int)
    {p : Proxy} (hp : p ∈ reached hops) :
    Event.reach p fd ∈ (negotiateHops fd hops dst port net).2.events := by
  induction hops generalizing net with
  | nil => simp [reached] at hp
  | cons hop rest ih =>
    cases rest with
    | nil =>
      obtain rfl : p = hop := by simpa [reached] using hp
      exact reach_recorded fd p dst port net
    | cons next rest =>
      have hfirst : p = hop → Event.reach p fd ∈
          (negotiateHops fd (hop :: next :: rest) dst port net).2.events := by
        rintro rfl
        refine Act.bind_reaches (Q := fun s : Net => Event.reach p fd ∈ s.events)
          (reach_recorded fd p _ _ net) fun _ t ht => ?_
        exact (negotiateHops_moves (S := fun _ => True) fd (fun _ _ => trivial) dst port t).mem ht
      unfold reached at hp
      split at hp
      · exact hfirst (by simpa using hp)
      · next hgo =>
        rcases List.mem_cons.mp hp with heq | hp
        · exact hfirst heq
        · obtain ⟨hssh, hport⟩ := not_or.mp hgo
          obtain ⟨evs, hgives⟩ := negotiateHopOnFd_answered hssh hport fd net _ hsends hinbox
          show Event.reach p fd ∈ ((negotiateHopOnFd fd hop next.host.chars next.port.toNat >>=
            fun _ => negotiateHops fd (next :: rest) dst port) net).2.events
          rw [hgives.bind_eq]
          exact ih hsends rfl hp

theorem pfChainConnect_reaches {chain : Chain} {proxies : List Proxy} (dst : CStr) {port : Int}
    {p : Proxy} (hp : p ∈ chainReached proxies chain port) (events : List Event) :
    ∃ net : Net, net.events = events ∧
      Event.reach p 7 ∈ (pfChainConnect chain proxies dst port net).2.events := by
  unfold chainReached at hp
  split at hp
  · next first rest hhops =>
    split at hp
    · next hok =>
      obtain ⟨hport, hssh⟩ := hok
      refine ⟨⟨[[.connected 7]], [], (first :: rest).flatMap fun p => hopReplies p.type, events⟩,
        rfl, ?_⟩
      have hlen : (decide (1 ≤ chain.hops.length) && decide (chain.hops.length ≤ pfMaxHops)) =
          true := by
        have hne : chain.hops ≠ [] := fun hnil => by simp [hnil] at hhops
        have hpos := List.length_pos_of_ne_nil hne
        simpa only [Bool.and_eq_true, decide_eq_true_eq] using ⟨hpos, chain.hopsFit⟩
      unfold pfChainConnect
      rw [(Act.Gives.require hlen).bind_eq, (Act.Gives.require hport).bind_eq, hhops]
      simp only
      rw [(Act.Gives.require (decide_eq_true hssh)).bind_eq, (tcpConnect_gives rfl).bind_eq]
      have hreach : Event.reach p 7 ∈ (negotiateHops 7 (first :: rest) dst port
          (Net.emit (.dial first 7) ⟨[], [], (first :: rest).flatMap fun p => hopReplies p.type,
            events⟩)).2.events := negotiateHops_reaches 7 rfl rfl dst port hp
      exact Act.bind_reaches (Q := fun s : Net => Event.reach p 7 ∈ s.events)
        (recorded_onFail hreach) fun _ _ ht => ht
    · cases hp
  · cases hp

/-! ## The verdict -/

theorem fdOrError_net (r : Option Fd × Net) : (fdOrError r).2 = r.2 := by
  obtain ⟨fd, net⟩ := r
  cases fd <;> rfl

/-- A chain spares disabled records on every network exactly when none is reached. -/
theorem chain_spares_iff (chain : Chain) (proxies : List Proxy) (dst : CStr) (port : Int) :
    (∀ net, SparesDisabled net
      (fdOrError (pfChainConnect chain proxies dst port (net.emit (.useChain chain.id)))).2) ↔
      ∀ p ∈ chainReached proxies chain port, p.enabled ≠ 0 := by
  constructor
  · intro h p hp
    obtain ⟨⟨lookups, sends, inbox, events⟩, hevents, hreach⟩ :=
      pfChainConnect_reaches dst hp [.useChain chain.id]
    obtain rfl : events = [.useChain chain.id] := hevents
    obtain ⟨evs, hevs, hall⟩ := h ⟨lookups, sends, inbox, []⟩
    rw [fdOrError_net, List.nil_append] at hevs
    exact hall _ (hevs ▸ hreach)
  · intro h net
    rw [fdOrError_net]
    exact IsTrans.trans _ _ _ (Adds.emit trivial net) (pfChainConnect_moves h _)

/-- `dialRule` changes the record through an enabled proxy or the applied chain. -/
theorem dialRule_spares_iff (db : Db) (rule : Rule) (dst : CStr) (port : Int) :
    (∀ net, SparesDisabled net (dialRule connectors db rule dst port net).2) ↔
      ∀ chain ∈ (if rule.action = .chain ∧ 0 < rule.chainId then
          (pfConfigChainGet db rule.chainId).filter fun c => c.enabled ≠ 0 else none),
        ∀ p ∈ chainReached (pfConfigProxyList db pfMaxProxies) chain port, p.enabled ≠ 0 := by
  unfold dialRule
  by_cases hproxy : rule.action = .proxy ∧ 0 < rule.proxyId
  · rw [if_neg (by simp [hproxy.1])]
    refine iff_of_true (fun net => ?_) (by simp)
    rw [if_pos hproxy]
    split
    · exact Std.Refl.refl net
    · split
      · exact Std.Refl.refl net
      · next p _ hon =>
        rw [fdOrError_net]
        exact IsTrans.trans _ _ _ (Adds.emit trivial net) (single_moves hon dst port _)
  · simp only [if_neg hproxy]
    split
    · next hchain =>
      cases hget : pfConfigChainGet db rule.chainId with
      | none => exact iff_of_true (fun net => Std.Refl.refl net) (by simp)
      | some chain =>
        by_cases hoff : chain.enabled = 0
        · simp only [hoff, if_true]
          exact iff_of_true (fun net => Std.Refl.refl net) (by simp [Option.filter, hoff])
        · simp only [hoff, if_false]
          refine (chain_spares_iff chain _ dst port).trans ?_
          simp [Option.filter, hoff]
    · exact iff_of_true (fun net => Std.Refl.refl net) (by simp)

theorem proxyConnect_spares_iff (ctx : Ctx) (dstIp : CBuf 16) (dstPort : Int)
    (domain : CBuf pfDomainMax) :
    (∀ net, SparesDisabled net (proxyConnectForTproxy connectors ctx dstIp dstPort domain net).2) ↔
      ∀ chain ∈ appliedChain ctx dstIp dstPort domain,
        ∀ p ∈ chainReached (pfConfigProxyList ctx.db pfMaxProxies) chain dstPort,
          p.enabled ≠ 0 := by
  unfold proxyConnectForTproxy appliedChain
  cases hrs : ctx.ruleset with
  | none => exact iff_of_true (fun net => Std.Refl.refl net) (by simp)
  | some rs =>
    simp only [Option.bind_eq_bind, Option.bind_some]
    cases happ : appliedRule rs ((matchDomain ctx dstIp.chars domain).map CBuf.chars)
      (some dstIp.chars) dstPort with
    | none => exact iff_of_true (fun net => Std.Refl.refl net) (by simp)
    | some rule =>
      simp only [Option.bind_some]
      by_cases hdirect : rule.action = .direct
      · simp only [hdirect, if_true]
        exact iff_of_true (fun net => Std.Refl.refl net) (by simp)
      · by_cases hblock : rule.action = .block ∨ rule.action = .reject
        · simp only [hdirect, hblock, if_true, if_false]
          refine iff_of_true (fun net => Std.Refl.refl net) ?_
          rw [if_neg (by rcases hblock with h | h <;> simp [h])]
          simp
        · simp only [hdirect, hblock, if_false]
          exact dialRule_spares_iff ctx.db rule _ dstPort

/-- Disabled records are dialled exactly by the enabled chain of the applied rule, when one of them
is among the hops it reaches. -/
theorem never_dialled_iff_chain_enabled (ctx : Ctx) (dstIp : CBuf 16) (dstPort : Int)
    (domain : CBuf pfDomainMax) (dohHost : CStr) (dohPort : Int) :
    NeverDialled ctx dstIp dstPort domain dohHost dohPort ↔
      ∀ chain ∈ appliedChain ctx dstIp dstPort domain,
        ∀ p ∈ chainReached (pfConfigProxyList ctx.db pfMaxProxies) chain dstPort,
          p.enabled ≠ 0 := by
  rw [← proxyConnect_spares_iff]
  exact ⟨fun h net => (h net).1, fun h net => ⟨h net, dnsTunnel_spares ctx.db dohHost dohPort net⟩⟩

/-! ## A chain over a disabled record -/

def offRow : ProxyRow :=
  ⟨1, lit "p1", lit "socks5", lit "10.0.0.1", 1080, none, none, none, 0, 0, 0⟩

def chainRule : Rule :=
  { Rule.zero with
    id := 1, domain := .snprintf (lit "a.b"), action := .chain, chainId := 1, enabled := 1 }

def chainCtx : Ctx :=
  ⟨some [chainRule], { Db.empty with
    proxies := [offRow], chains := [⟨1, lit "c", 1⟩], chainHops := [⟨1, 1, 0⟩] }, [], 0⟩

/-- The only hop is disabled, and dialled all the same. -/
theorem disabled_hop_is_dialled :
    ¬ NeverDialled chainCtx (.snprintf (lit "93.184.216.34")) 443 (.snprintf (lit "a.b"))
      (lit "1.1.1.1") 443 := by
  intro h
  have hdial : Event.dial (rowToProxy offRow) 7 ∈
      (proxyConnectForTproxy connectors chainCtx (.snprintf (lit "93.184.216.34")) 443
        (.snprintf (lit "a.b")) ⟨[[.connected 7]], [], [], []⟩).2.events := by decide
  obtain ⟨evs, hevs, hall⟩ := (h ⟨[[.connected 7]], [], [], []⟩).1
  rw [hevs, List.nil_append] at hdial
  exact hall _ hdial rfl

end Proxiflare.Guarantees.DisabledProxy
