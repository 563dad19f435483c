import Proxiflare.Daemon.DnsPackets

/-!
# How long a name stays bound to its address

An entry has room for one address, and every packet for the name writes it: a query clears it, a
response puts its last address there. A binding therefore lasts to its expiry only while
the packets for its name are responses that end in the same address, kept as long.
-/

namespace Proxiflare.Guarantees.BindingPersistence

open Lib.CString Lib Lib.KeyedSlots
open Proxiflare.Daemon

/-- A packet, the rules when it comes and the clock while it is handled. -/
structure Arrival where
  ticks : List Nat
  rs : Ruleset
  pkt : CStr

def snoop (d : Dns) (p : Arrival) : Option Dns := dnsStep d ⟨p.ticks, .packet p.rs p.pkt⟩

/-- Handling a packet for the name of `e` keeps the address known until `e` expires. -/
def KeepsBindings (d : Dns) (p : Arrival) (d' : Dns) : Prop :=
  ∀ m ip e, readDns p.pkt = some m → d.lookup d.now ip = some e →
    strcaseeq e.domain.chars m.domain.chars = true →
    ∀ t, d'.now ≤ t → t < e.expires → Known d' t m.domain.chars ip

/-- The packet is a response that ends in the address and keeps it no less long, or has no address;
or the binding has expired when the packet is done. -/
def Refreshes (d : Dns) (p : Arrival) (d' : Dns) : Prop :=
  ∀ m ip e, readDns p.pkt = some m → d.lookup d.now ip = some e →
    strcaseeq e.domain.chars m.domain.chars = true →
    e.expires ≤ d'.now ∨
      m.isResponse = true ∧
        ∀ a, m.addresses.getLast? = some a → a.1.chars = ip ∧ e.expires ≤ d'.now + a.2

theorem snoop_updates {d d' : Dns} {p : Arrival} {m : DnsMessage} (hread : readDns p.pkt = some m)
    (h : snoop d p = some d') :
    Updates (nameKey m.domain.chars) m.writes { d with ticks := p.ticks } d' := by
  obtain rfl := Option.some.inj h
  exact dnsCallback_updates p.rs hread _

/-- The step lemma: a slot that stands no further back and has the address answers. -/
theorem keepsBindings_of_refreshes {d d' : Dns} {p : Arrival} (hu : d.Unique)
    (hstep : snoop d p = some d') (h : Refreshes d p d') : KeepsBindings d p d' := by
  intro m ip e hread hlookup hsame t ht hexp
  obtain ⟨n, o, hfind, hn, rfl, hlive, hip, hne⟩ := lookup_some hlookup
  have hkey : slotView.key o = nameKey m.domain.chars := (strcaseeq_iff _ _).mp hsame
  have hupdates := snoop_updates hread hstep
  have hothers := hupdates.othersFrom (SlotView.OthersFrom.refl (nameKey m.domain.chars) d.cache)
  have hearlier : ∀ a, answersIp t ip a = true → answersIp d.now ip a = true := by
    intro a ha
    obtain ⟨hl, ha⟩ := answersIp_iff.mp ha
    exact answersIp_iff.mpr ⟨slotView.mono (hupdates.le.trans ht) hl, ha⟩
  have hheld : ∀ j : Nat, d.cache[j]? = some o →
      slotView.HeldAt d.now (nameKey m.domain.chars) j d.cache :=
    fun j hj => SlotView.Unique.heldAt hu hj hlive hkey
  rcases h m ip o.toDnsEntry hread hlookup hsame with hover | ⟨hresponse, hlast⟩
  · exact absurd (hexp.trans_le (hover.trans ht)) (lt_irrefl t)
  · have hwrites : m.writes = m.addresses := if_pos hresponse
    rw [hwrites] at hupdates
    cases haddr : m.addresses.getLast? with
    | none =>
      -- Nothing is written, so the slot itself still answers.
      rw [List.getLast?_eq_none_iff.mp haddr] at hupdates
      cases hupdates
      have ho : answersIp t ip o = true := answersIp_iff.mpr ⟨⟨hlive.1, hexp⟩, hip, hne⟩
      exact known_iff.mpr (hothers.search hfind hkey hearlier hn ho
        fun j hj => Nat.le_of_eq ((hheld n hn).2 j o hj hlive hkey).symm)
    | some a =>
      obtain ⟨haip, hkept⟩ := hlast a haddr
      obtain ⟨i, ⟨b, hb, -, hused, hbip, hbexp, -⟩, -, hfront⟩ :=
        hupdates.binds hu (hheld n hn).room haddr
      have hblive : slotView.live t b := ⟨hused, hexp.trans_le (hkept.trans hbexp)⟩
      have hanswers : answersIp t ip b = true :=
        answersIp_iff.mpr ⟨hblive, by rw [hbip, haip], hne⟩
      exact known_iff.mpr (hothers.search hfind hkey hearlier hb hanswers
        fun j hj => hfront j (hheld j hj))

theorem snoop_unique {d d' : Dns} {p : Arrival} (hu : d.Unique) (h : snoop d p = some d') :
    d'.Unique := by
  obtain ⟨k, as, hupdates⟩ := dnsStep_updates (by rintro _ _ _ ⟨⟩) h
  exact hupdates.unique hu

/-- Along every sequence of packets from a reachable cache: while the packets for a bound name
refresh the binding, no packet breaks one before it expires. -/
theorem bindings_persist {d : Dns} (hr : Runs.Reach dnsStep NameFits Dns.Initial d)
    (ps : List Arrival) (h : Runs.Along snoop Refreshes d ps) :
    Runs.Along snoop KeepsBindings d ps :=
  Runs.Along.imp Dns.Unique (fun _ _ _ hu hstep => snoop_unique hu hstep)
    (fun _ _ _ hu hstep hrefreshes => keepsBindings_of_refreshes hu hstep hrefreshes)
    (unique_of_reach hr) h

/-- Every query for the name breaks a binding that has not expired. -/
theorem query_breaks {d d' : Dns} {p : Arrival} {m : DnsMessage} {ip : CStr} {e : DnsEntry}
    (hu : d.Unique) (hread : readDns p.pkt = some m) (hquery : m.isResponse = false)
    (hstep : snoop d p = some d') (hlookup : d.lookup d.now ip = some e)
    (hsame : strcaseeq e.domain.chars m.domain.chars = true) (hexp : d'.now < e.expires) :
    ¬ KeepsBindings d p d' := by
  intro hkeeps
  obtain ⟨e', hlookup', hsame'⟩ := hkeeps m ip e hread hlookup hsame d'.now (Int.le_refl _) hexp
  obtain ⟨n, o, -, hn, rfl, hlive, -⟩ := lookup_some hlookup
  have hroom := (SlotView.Unique.heldAt hu hn hlive ((strcaseeq_iff _ _).mp hsame)).room
  have hwrites : m.writes = [(.empty, pfDnsTtl)] := if_neg (by rw [hquery]; exact Bool.false_ne_true)
  obtain ⟨i, hbinds, hheld, -⟩ :=
    (snoop_updates hread hstep).binds hu hroom (congrArg List.getLast? hwrites)
  obtain ⟨hempty, hne, -⟩ := lookup_binds hbinds hheld hlookup' hsame'
  exact hne hempty.symm

def response : DnsPacket := packetA 0x80 [aRecord 192 0 2 1 600] (by decide)

def query : DnsPacket := packetA 0 [] (by decide)

def boundIp : CBuf 46 := .snprintf (lit "192.0.2.1")

theorem readDns_response :
    readDns response.bytes = some ⟨nameA.domain, true, [(boundIp, 300)]⟩ := by
  have hkept : response.answers.filterMap DnsRecord.kept = [(boundIp, 300)] := by decide +kernel
  rw [response.readDns_bytes, hkept]
  rfl

theorem readDns_query : readDns query.bytes = some ⟨nameA.domain, false, []⟩ :=
  query.readDns_bytes

/-- The state after a packet on a clock that stands still. -/
def handled (d : Dns) (p : DnsPacket) : Dns := dnsCallback [] p.bytes { d with ticks := [] }

theorem snoop_handled (d : Dns) (p : DnsPacket) : snoop d ⟨[], [], p.bytes⟩ = some (handled d p) := rfl

theorem handled_now (d : Dns) (p : DnsPacket) : (handled d p).now = d.now :=
  dnsCallback_still rfl [] p.bytes

def bound : Dns := handled (.start 0) response

/-- A response binds its address. -/
theorem binds_bound : ∃ i, Binds bound (nameKey nameA.domain.chars) i (boundIp, 300) ∧
    slotView.HeldAt bound.now (nameKey nameA.domain.chars) i bound.cache := by
  have hupdates := snoop_updates readDns_response (snoop_handled (.start 0) response)
  obtain ⟨i, hbinds, hheld, -⟩ := hupdates.binds (unique_start 0) (room_start 0 0 _) rfl
  exact ⟨i, hbinds, hheld⟩

theorem known_bound : Known bound bound.now nameA.domain.chars boundIp.chars := by
  have hupdates := snoop_updates readDns_response (snoop_handled (.start 0) response)
  obtain ⟨i, hbinds, -⟩ := binds_bound
  have hothers := hupdates.othersFrom (SlotView.OthersFrom.refl _ _)
  refine known_of_binds (a := (boundIp, 300)) hbinds hothers (fun e he hanswers => ?_) (by decide) ?_
  · rw [List.eq_of_mem_replicate he] at hanswers
    exact absurd (answersIp_iff.mp hanswers).1 (zero_dead _)
  · exact Int.lt_add_of_pos_right _ (by decide)

theorem bound_twice_persists :
    Runs.Along snoop KeepsBindings bound [⟨[], [], response.bytes⟩] := by
  refine bindings_persist (d := bound) ?_ _ ?_
  · exact .next (l := ⟨[], .packet [] response.bytes⟩) (.start ⟨0, rfl⟩) (by rintro _ _ _ ⟨⟩) rfl
  · intro d' hstep
    refine ⟨fun m ip e hread hlookup hsame => ?_, trivial⟩
    obtain rfl := Option.some.inj ((snoop_handled bound response).symm.trans hstep)
    obtain rfl := Option.some.inj (readDns_response.symm.trans hread)
    obtain ⟨i, hbinds, hheld⟩ := binds_bound
    obtain ⟨hip, -, hcap⟩ := lookup_binds hbinds hheld hlookup hsame
    refine .inr ⟨rfl, fun a ha => ?_⟩
    obtain rfl := Option.some.inj ha
    exact ⟨hip, by rw [handled_now]; exact hcap⟩

/-- A query in the same second takes the address out of the entry. -/
theorem query_unbinds : ∃ d d', snoop (.start 0) ⟨[], [], response.bytes⟩ = some d ∧
    snoop d ⟨[], [], query.bytes⟩ = some d' ∧ ¬ KeepsBindings d ⟨[], [], query.bytes⟩ d' := by
  refine ⟨bound, _, snoop_handled (.start 0) response, snoop_handled bound query, fun hkeeps => ?_⟩
  have hu : bound.Unique := snoop_unique (unique_start 0) (snoop_handled (.start 0) response)
  obtain ⟨e, hlookup, hsame⟩ := known_bound
  obtain ⟨n, o, -, -, rfl, hlive, -⟩ := lookup_some hlookup
  refine query_breaks hu readDns_query rfl (snoop_handled bound query) hlookup hsame ?_ hkeeps
  rw [handled_now]
  exact hlive.2

end Proxiflare.Guarantees.BindingPersistence
