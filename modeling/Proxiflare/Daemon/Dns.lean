import Proxiflare.Daemon.Routing
import Proxiflare.Daemon.Sni
import Proxiflare.Lib.KeyedSlots
import Proxiflare.Lib.Runs

/-!
# The DNS snoop and its cache

`daemon/src/dns.c` without the netfilter queue: every packet gets the verdict NF_ACCEPT.
A pointer into the payload is what is left from there on, so `ptr < end` is `ptr ≠ []`.
-/

namespace Proxiflare.Daemon

open Lib.CString Lib Lib.KeyedSlots

def pfDnsCacheSize : Nat := 4096
def pfDnsTtl : Nat := 300

/-! ## The cache -/

/-- What a rule says, or DIRECT without one. -/
structure DnsRoute where
  ruleId : Int
  action : Action
  proxyId : Int
  chainId : Int
  deriving DecidableEq

/-- `pf_dns_entry_t`. -/
structure DnsSlot extends DnsEntry where
  route : DnsRoute
  deriving DecidableEq

def DnsSlot.zero : DnsSlot := ⟨⟨.empty, .empty, 0, false⟩, ⟨0, .direct, 0, 0⟩⟩

/-- `pf_dns_t` and the clock: each reading comes the next of `ticks` seconds after the last. -/
structure Dns where
  cache : List DnsSlot
  now : Int
  ticks : List Nat
  size : cache.length = pfDnsCacheSize

/-- After `pf_dns_init`. -/
def Dns.start (now : Int) : Dns :=
  ⟨List.replicate pfDnsCacheSize .zero, now, [], List.length_replicate⟩

namespace Dns

/-- The clock is read: the time is `now` of the result. -/
def time (d : Dns) : Dns := { d with now := d.now + d.ticks.headD 0, ticks := d.ticks.tail }

def put (d : Dns) (i : Nat) (e : DnsSlot) : Dns :=
  { d with cache := d.cache.set i e, size := List.length_set.trans d.size }

/-- `pf_dns_lookup` at time `t`. -/
def lookup (d : Dns) (t : Int) (ip : CStr) : Option DnsEntry :=
  pfDnsLookup (d.cache.map DnsSlot.toDnsEntry) t ip

end Dns

def findSlotLoop (now : Int) (domain : CStr) : List DnsSlot → Nat → Option Nat → Option Nat
  | [], _, reuse => reuse
  | e :: es, i, reuse =>
    if !e.used || e.expires ≤ now then findSlotLoop now domain es (i + 1) (reuse.or (some i))
    else if strcaseeq e.domain.chars domain then some i
    else findSlotLoop now domain es (i + 1) reuse

def cacheFindSlot (d : Dns) (domain : CStr) : Option Nat × Dns :=
  let d := d.time
  (findSlotLoop d.now domain d.cache 0 none, d)

/-- A NULL `ip` is the empty string. -/
def pfDnsCacheAdd (d : Dns) (domain ip : CStr) (route : DnsRoute) : Dns :=
  let (slot, d) := cacheFindSlot d domain
  match slot with
  | none => d
  | some i =>
    let d := d.time
    d.put i ⟨⟨.snprintf domain, .snprintf ip, d.now + pfDnsTtl, true⟩, route⟩

/-- A `uint32_t` as an `int`. -/
def toInt (n : Nat) : Int := (n : Int).bmod (2 ^ 32)

/-- The route of a name; a NULL ruleset has no rules. -/
def matchRoute (rs : Ruleset) (domain : CStr) : DnsRoute :=
  match pfRulesMatch rs none (some domain) none 0 with
  | some rule => ⟨toInt rule.id, rule.action, toInt rule.proxyId, toInt rule.chainId⟩
  | none => ⟨-1, .direct, -1, -1⟩

/-- The body shared by A and AAAA records: an address and how long it is kept. -/
def updateAddress (rs : Ruleset) (domain : CBuf pfDomainMax) (d : Dns) (a : CBuf 46 × Nat) : Dns :=
  let (slot, d) := cacheFindSlot d domain.chars
  match slot with
  | none => d
  | some i =>
    let e := d.cache.getD i .zero
    if e.used && strcaseeq e.domain.chars domain.chars then
      let d := d.time
      d.put i { e with resolvedIp := .snprintf a.1.chars, expires := d.now + a.2 }
    else pfDnsCacheAdd d domain.chars a.1.chars (matchRoute rs domain.chars)

/-! ## Reading a message -/

/-- `dns_parse_qname` with room for `n` turns: the name written so far, and where it ends unless
it is broken off. -/
def dnsParseQname (outsz : Nat) : Nat → CStr → CStr → CStr × Option CStr
  | 0, _, out => (out, none)
  | _ + 1, [], out => (out, some [])
  | n + 1, len :: ptr, out =>
    if len &&& 0xC0 = 0xC0 then (out, if ptr = [] then none else some ptr.tail)
    else if len = 0 then (out, some ptr)
    else if ptr.length < len.toNat then (out, none)
    else if out ≠ [] ∧ outsz ≤ out.length + 1 then (out, none)
    else
      let out := if out = [] then [] else out ++ [46]
      if outsz ≤ out.length + len.toNat then (out, none)
      else dnsParseQname outsz n (ptr.drop len.toNat) (out ++ ptr.take len.toNat)

/-- Skips an owner name in at most `n` turns; `none` is `broken`. -/
def skipOwner : Nat → CStr → Option CStr
  | 0, _ => none
  | _ + 1, [] => some []
  | n + 1, b :: ptr =>
    if b &&& 0xC0 = 0xC0 then (if ptr = [] then none else some ptr.tail)
    else if b = 0 then some ptr
    else if ptr.length < b.toNat then none
    else skipOwner n (ptr.drop b.toNat)

def u32be (data : CStr) (off : Nat) : Nat := u16be data off * 65536 + u16be data (off + 2)

/-- The TTL of the server, at least 30 seconds and at most `PF_DNS_TTL`. -/
def clampTtl (ttl : Nat) : Nat := max 30 (min ttl pfDnsTtl)

/-- The address of an A or AAAA record. -/
def recordAddress (rtype rttl : Nat) (rdata : CStr) : Option (CBuf 46 × Nat) :=
  if rtype = 1 ∧ rdata.length = 4 then some (.snprintf (inetNtop4 rdata), clampTtl rttl)
  else if rtype = 28 ∧ rdata.length = 16 then some (.snprintf (inetNtop6 rdata), pfDnsTtl)
  else none

/-- The answer loop: where it stops does not depend on the cache, so the addresses come first and
the updates after. -/
def answerAddresses : Nat → CStr → List (CBuf 46 × Nat)
  | 0, _ => []
  | n + 1, ptr =>
    if ptr = [] then []
    else match skipOwner (ptr.length + 1) ptr with
      | none => []
      | some ptr =>
        let rdlength := u16be ptr 8
        let rdata := ptr.drop 10
        if ptr.length < 10 ∨ rdata.length < rdlength then []
        else (recordAddress (u16be ptr 0) (u32be ptr 4) (rdata.take rdlength)).toList ++
          answerAddresses n (rdata.drop rdlength)

/-- What the callback reads of a DNS message. -/
structure DnsMessage where
  domain : CBuf pfDomainMax
  isResponse : Bool
  addresses : List (CBuf 46 × Nat)

/-- The DNS part of an IPv4 packet that holds UDP. -/
def dnsPayload (pkt : CStr) : Option CStr :=
  let ipHlen := u8 pkt 0 % 16 * 4
  if pkt.length < 20 then none
  else if ipHlen < 20 ∨ pkt.length < ipHlen then none
  else if u8 pkt 9 ≠ 17 then none
  else if pkt.length < ipHlen + 8 then none
  else if pkt.length - ipHlen - 8 < 12 then none
  else some (pkt.drop (ipHlen + 8))

/-- The name of the question, and what is left after the question or, if that is broken, after the
header. -/
def readQuestion (data : CStr) : CBuf pfDomainMax × CStr :=
  let ptr := data.drop 12
  let qname :=
    if 0 < u16be data 4 then dnsParseQname pfDomainMax (ptr.length + 1) ptr [] else ([], none)
  (.snprintf qname.1, (qname.2.map (List.drop 4)).getD ptr)

/-- `none` when there is no name. -/
def readMessage (data : CStr) : Option DnsMessage :=
  let (domain, ptr) := readQuestion data
  let isResponse : Bool := 128 ≤ u8 data 2
  if domain.nonempty then
    some ⟨domain, isResponse, if isResponse then answerAddresses (u16be data 6) ptr else []⟩
  else none

def readDns (pkt : CStr) : Option DnsMessage := (dnsPayload pkt).bind readMessage

def dnsCallback (rs : Ruleset) (pkt : CStr) (d : Dns) : Dns :=
  match readDns pkt with
  | none => d
  | some m =>
    if m.isResponse then m.addresses.foldl (updateAddress rs m.domain) d
    else pfDnsCacheAdd d m.domain.chars [] (matchRoute rs m.domain.chars)

/-! ## Runs -/

inductive DnsCall where
  /-- `dns_callback` on a packet, with the rules of the moment. -/
  | packet (rs : Ruleset) (pkt : CStr)
  | add (domain ip : CStr) (route : DnsRoute)

/-- A call and how far the clock moves before each reading. -/
structure DnsEvent where
  ticks : List Nat
  call : DnsCall

/-- The strings of `pf_dns_cache_add` end at their first NUL. -/
def dnsStep (d : Dns) (ev : DnsEvent) : Option Dns :=
  let d := { d with ticks := ev.ticks }
  some (match ev.call with
    | .packet rs pkt => dnsCallback rs pkt d
    | .add domain ip route => pfDnsCacheAdd d (cstr domain) (cstr ip) route)

def Dns.Initial (d : Dns) : Prop := ∃ now, d = .start now

/-! ## The slot of a name -/

/-- Names are compared without case. -/
def nameKey (name : CStr) : CStr := name.map tolower

def slotView : SlotView DnsSlot CStr Int where
  key e := nameKey e.domain.chars
  live t e := e.used = true ∧ t < e.expires
  mono ht h := ⟨h.1, Int.lt_of_le_of_lt ht h.2⟩

theorem strcaseeq_iff (s t : CStr) : strcaseeq s t = true ↔ nameKey s = nameKey t := decide_eq_true_iff

theorem findSlotLoop_spec {now : Int} {domain : CStr} {pre es : List DnsSlot} {reuse : Option Nat}
    (h : slotView.Scanned now (nameKey domain) pre reuse) :
    (∀ i, findSlotLoop now domain es pre.length reuse = some i →
      slotView.Takes now (nameKey domain) (pre ++ es) i) ∧
    (findSlotLoop now domain es pre.length reuse = none →
      ¬ slotView.Room now (nameKey domain) (pre ++ es)) := by
  induction es generalizing pre reuse with
  | nil =>
    rw [findSlotLoop, List.append_nil]
    constructor
    · rintro i rfl
      exact h.takes
    · rintro rfl
      exact h.full
  | cons e es ih =>
    have happend : pre ++ e :: es = (pre ++ [e]) ++ es := by simp
    have hlen : pre.length + 1 = (pre ++ [e]).length := by simp
    unfold findSlotLoop
    split
    · next hdead =>
      have hd : ¬ slotView.live now e := by
        rintro ⟨hused, hlt⟩
        simp only [hused, Bool.not_true, Bool.false_or, decide_eq_true_eq] at hdead
        omega
      rw [happend, hlen]
      exact ih (h.dead hd)
    · next hlive =>
      have hl : slotView.live now e := by
        simp only [Bool.or_eq_true, Bool.not_eq_true', decide_eq_true_eq, not_or, not_le] at hlive
        exact ⟨by simpa using hlive.1, hlive.2⟩
      split
      · next hsame =>
        have hk : slotView.key e = nameKey domain := (strcaseeq_iff _ _).mp hsame
        constructor
        · intro i hi
          obtain rfl := Option.some.inj hi
          exact SlotView.takes_live hl hk
        · intro hi
          cases hi
      · next hother =>
        have hk : slotView.key e ≠ nameKey domain := fun hk => hother ((strcaseeq_iff _ _).mpr hk)
        rw [happend, hlen]
        exact ih (h.live hl hk)

/-- A slot is chosen by one reading of the clock. -/
theorem cacheFindSlot_spec (d : Dns) (domain : CStr) :
    (∀ i, (cacheFindSlot d domain).1 = some i → slotView.Takes d.time.now (nameKey domain) d.cache i) ∧
    ((cacheFindSlot d domain).1 = none → ¬ slotView.Room d.time.now (nameKey domain) d.cache) :=
  findSlotLoop_spec (.nil slotView _ _)

theorem Dns.le_time (d : Dns) : d.now ≤ d.time.now := by
  show d.now ≤ d.now + (d.ticks.headD 0 : Nat)
  omega

end Proxiflare.Daemon
