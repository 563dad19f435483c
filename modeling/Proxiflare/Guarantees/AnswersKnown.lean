import Proxiflare.Daemon.DnsPackets

/-!
# Which addresses of a response are known afterwards

The records of a response are written to the one entry of its name, so the last address is
known for its time and those before it are not.
-/

namespace Proxiflare.Guarantees.AnswersKnown

open Lib.CString Lib Lib.KeyedSlots
open Proxiflare.Daemon

/-- The addresses of the answers and their TTLs, between 30 seconds and `PF_DNS_TTL`. -/
def resolved (p : DnsPacket) : List (CStr × Nat) :=
  p.answers.filterMap fun r => r.address.map fun ip => (ip, max 30 (min r.ttl.toNat pfDnsTtl))

/-- The cache as a packet finds it: at the first reading of the clock, which no time passes before. -/
def arrived (s : Dns) (ticks : List Nat) : Dns :=
  { s with now := s.now + ticks.headD 0, ticks := 0 :: ticks.tail }

/-- Another name has the address in a live entry. -/
def Shared (d : Dns) (domain ip : CStr) : Prop :=
  ∃ e ∈ d.cache, e.used = true ∧ d.now < e.expires ∧ e.resolvedIp.chars = ip ∧
    strcaseeq e.domain.chars domain = false

/-- Some entry is free, or is one for the name. -/
def HasRoom (d : Dns) (domain : CStr) : Prop :=
  ∃ e ∈ d.cache, e.used = true → d.now < e.expires → strcaseeq e.domain.chars domain = true

/-! ## What is read and what is meant -/

/-- Each record with what is kept of it and the time it should be kept. -/
def keptFor (p : DnsPacket) : List ((CBuf 46 × Nat) × Nat) :=
  p.answers.filterMap fun r => r.kept.map fun a => (a, clampTtl r.ttl.toNat)

theorem resolved_eq (p : DnsPacket) :
    resolved p = (keptFor p).map fun x => (x.1.1.chars, x.2) := by
  rw [resolved, keptFor, List.map_filterMap]
  congr 1
  funext r
  rw [← kept_address, Option.map_map, Option.map_map]
  rfl

theorem kept_eq (p : DnsPacket) : p.answers.filterMap DnsRecord.kept = (keptFor p).map Prod.fst := by
  rw [keptFor, List.map_filterMap]
  congr 1
  funext r
  rw [Option.map_map]
  exact Option.map_id'.symm

theorem keptFor_le {p : DnsPacket} {x : (CBuf 46 × Nat) × Nat} (h : x ∈ keptFor p) : x.2 ≤ x.1.2 := by
  obtain ⟨r, -, hr⟩ := List.mem_filterMap.mp h
  obtain ⟨a, ha, rfl⟩ := Option.map_eq_some_iff.mp hr
  exact kept_ttl ha

theorem address_ne_nil {r : DnsRecord} {ip : CStr} (h : r.address = some ip) : ip ≠ [] := by
  unfold DnsRecord.address at h
  split at h
  · next ha =>
    obtain rfl := Option.some.inj h
    exact (inetNtop4_text r.rdata (r.a_length ha)).2.ne_nil
  · split at h
    · next haaaa =>
      obtain rfl := Option.some.inj h
      exact (inetNtop6_text (r.aaaa_length haaaa)).ne_nil
    · cases h

/-! ## When the packet arrives -/

theorem time_arrived (s : Dns) (ticks : List Nat) :
    (arrived s ticks).time = ({ s with ticks := ticks } : Dns).time := by
  show ({ s with now := s.now + ticks.headD 0 + (0 : Nat), ticks := ticks.tail } : Dns) = _
  rw [Int.natCast_zero, Int.add_zero]
  rfl

/-- The clock is read before anything else is done. -/
theorem updateAddress_congr {d d' : Dns} (h : d.time = d'.time) (rs : Ruleset)
    (domain : CBuf pfDomainMax) (a : CBuf 46 × Nat) :
    updateAddress rs domain d a = updateAddress rs domain d' a := by
  have hslot : cacheFindSlot d domain.chars = cacheFindSlot d' domain.chars := by
    unfold cacheFindSlot
    rw [h]
  unfold updateAddress
  rw [hslot]

theorem dnsCallback_arrived {pkt : CStr} {m : DnsMessage} (h : readDns pkt = some m)
    (hresponse : m.isResponse = true) (hne : m.addresses ≠ []) (rs : Ruleset) (s : Dns)
    (ticks : List Nat) :
    dnsCallback rs pkt { s with ticks := ticks } = dnsCallback rs pkt (arrived s ticks) := by
  obtain ⟨a, as, has⟩ := List.exists_cons_of_ne_nil hne
  simp only [dnsCallback, h, hresponse, has, if_true, List.foldl_cons]
  rw [updateAddress_congr (time_arrived s ticks)]

/-! ## What the last record leaves -/

section Step

variable {s d : Dns} {rs : Ruleset} {ticks : List Nat} {p : DnsPacket}

theorem unique_arrived (hu : s.Unique) (ticks : List Nat) : (arrived s ticks).Unique :=
  hu.mono (show s.now ≤ s.now + ((ticks.headD 0 : Nat) : Int) by omega)

theorem answers_updates (hresponse : p.isResponse = true) (hne : keptFor p ≠ [])
    (hstep : dnsStep s ⟨ticks, .packet rs p.bytes⟩ = some d) :
    Updates (nameKey p.question.domain.chars) ((keptFor p).map Prod.fst) (arrived s ticks) d := by
  obtain rfl := Option.some.inj hstep
  have hread := p.readDns_bytes
  have hupdates := dnsCallback_updates rs hread (arrived s ticks)
  rw [hresponse, kept_eq] at hread hupdates
  dsimp only
  rw [dnsCallback_arrived hread rfl (mt List.map_eq_nil_iff.mp hne)]
  exact hupdates

theorem room_of_hasRoom {domain : CStr} (h : HasRoom s domain) :
    slotView.Room s.now (nameKey domain) s.cache := by
  obtain ⟨e, he, hfor⟩ := h
  exact ⟨e, he, fun hlive => (strcaseeq_iff _ _).mp (hfor hlive.1 hlive.2)⟩

theorem key_of_not_shared {domain ip : CStr} {t : Int} (h : ¬ Shared s domain ip) (ht : s.now ≤ t)
    {e : DnsSlot} (he : e ∈ s.cache) (hanswers : answersIp t ip e = true) :
    slotView.key e = nameKey domain := by
  by_contra hother
  obtain ⟨hlive, hip, -⟩ := answersIp_iff.mp hanswers
  have hnow := slotView.mono ht hlive
  refine h ⟨e, he, hnow.1, hnow.2, hip, Bool.eq_false_iff.mpr fun hsame => hother ?_⟩
  exact (strcaseeq_iff _ _).mp hsame

variable {init : List ((CBuf 46 × Nat) × Nat)} {x : (CBuf 46 × Nat) × Nat}

theorem binds_last (hu : s.Unique) (hroom : HasRoom (arrived s ticks) p.question.domain.chars)
    (hresponse : p.isResponse = true) (hstep : dnsStep s ⟨ticks, .packet rs p.bytes⟩ = some d)
    (hkept : keptFor p = init ++ [x]) :
    ∃ i, Binds d (nameKey p.question.domain.chars) i x.1 ∧
      slotView.HeldAt d.now (nameKey p.question.domain.chars) i d.cache := by
  have hlast : ((keptFor p).map Prod.fst).getLast? = some x.1 := by
    rw [hkept, List.map_append, List.map_singleton, List.getLast?_concat]
  obtain ⟨i, hbinds, hheld, -⟩ := (answers_updates hresponse (by simp [hkept]) hstep).binds
    (unique_arrived hu ticks) (room_of_hasRoom hroom) hlast
  exact ⟨i, hbinds, hheld⟩

/-- The last address is known for its time, unless it is shared. -/
theorem known_last (hu : s.Unique) (hroom : HasRoom (arrived s ticks) p.question.domain.chars)
    (hresponse : p.isResponse = true) (hstep : dnsStep s ⟨ticks, .packet rs p.bytes⟩ = some d)
    (hkept : keptFor p = init ++ [x]) (hne : x.1.1.chars ≠ [])
    (hshared : ¬ Shared (arrived s ticks) p.question.domain.chars x.1.1.chars) {t : Int}
    (ht : d.now ≤ t) (hexp : t < d.now + x.2) :
    Known d t p.question.domain.chars x.1.1.chars := by
  obtain ⟨i, hbinds, -⟩ := binds_last hu hroom hresponse hstep hkept
  have hupdates := answers_updates hresponse (by simp [hkept]) hstep
  have hlong : x.2 ≤ x.1.2 := keptFor_le (hkept ▸ List.mem_append_right init List.mem_cons_self)
  exact known_of_binds hbinds (hupdates.othersFrom (SlotView.OthersFrom.refl _ _))
    (fun e he hanswers => key_of_not_shared hshared (hupdates.le.trans ht) he hanswers) hne
    (by omega)

/-- Another address is not. -/
theorem not_known_earlier (hu : s.Unique)
    (hroom : HasRoom (arrived s ticks) p.question.domain.chars) (hresponse : p.isResponse = true)
    (hstep : dnsStep s ⟨ticks, .packet rs p.bytes⟩ = some d) (hkept : keptFor p = init ++ [x])
    {ip : CStr} (hne : x.1.1.chars ≠ ip) : ¬ Known d d.now p.question.domain.chars ip := by
  rintro ⟨e, hlookup, hsame⟩
  obtain ⟨i, hbinds, hheld⟩ := binds_last hu hroom hresponse hstep hkept
  exact hne (lookup_binds hbinds hheld hlookup hsame).1

end Step

/-- From a reachable cache with room for the name when the packet arrives, a response with distinct
addresses makes each of them known for its time from then on, shared ones aside, exactly when each
address before the last is shared. -/
theorem answers_known_iff {s d : Dns} (hr : Runs.Reach dnsStep NameFits Dns.Initial s)
    (rs : Ruleset) (ticks : List Nat) (p : DnsPacket)
    (hroom : HasRoom (arrived s ticks) p.question.domain.chars) (hresponse : p.isResponse = true)
    (hdistinct : ((resolved p).map Prod.fst).Nodup)
    (hstep : dnsStep s ⟨ticks, .packet rs p.bytes⟩ = some d) :
    (∀ a ∈ resolved p, ¬ Shared (arrived s ticks) p.question.domain.chars a.1 →
        ∀ t, d.now ≤ t → t < d.now + a.2 → Known d t p.question.domain.chars a.1) ↔
      ∀ a ∈ (resolved p).dropLast, Shared (arrived s ticks) p.question.domain.chars a.1 := by
  have hu := unique_of_reach hr
  have hne : ∀ a ∈ resolved p, a.1 ≠ [] := by
    intro a ha
    obtain ⟨r, -, hr⟩ := List.mem_filterMap.mp ha
    obtain ⟨ip, hip, rfl⟩ := Option.map_eq_some_iff.mp hr
    exact address_ne_nil hip
  have hlasts : ∀ a ∈ resolved p, 0 < a.2 := by
    intro a ha
    obtain ⟨r, -, hr⟩ := List.mem_filterMap.mp ha
    obtain ⟨ip, -, rfl⟩ := Option.map_eq_some_iff.mp hr
    exact Nat.lt_of_lt_of_le (by decide : 0 < 30) (Nat.le_max_left 30 _)
  rw [resolved_eq] at hdistinct hne hlasts ⊢
  rcases List.eq_nil_or_concat (keptFor p) with hkept | ⟨init, x, hkept⟩
  · rw [hkept]
    exact ⟨fun _ => List.forall_mem_nil _, fun _ => List.forall_mem_nil _⟩
  · rw [List.concat_eq_append] at hkept
    rw [hkept, List.map_append, List.map_singleton] at hdistinct hne hlasts ⊢
    rw [List.map_append, List.map_singleton, List.nodup_append] at hdistinct
    rw [List.dropLast_concat]
    constructor
    · intro hall a ha
      by_contra hshared
      have hlast : x.1.1.chars ≠ a.1 :=
        (hdistinct.2.2 a.1 (List.mem_map_of_mem ha) _ (List.mem_singleton_self _)).symm
      have hpos := hlasts a (List.mem_append_left _ ha)
      exact not_known_earlier hu hroom hresponse hstep hkept hlast
        (hall a (List.mem_append_left _ ha) hshared d.now (Int.le_refl _) (by omega))
    · intro hearlier a ha hshared t ht hexp
      rcases List.mem_append.mp ha with ha | ha
      · exact absurd (hearlier a ha) hshared
      · obtain rfl := List.mem_singleton.mp ha
        exact known_last hu hroom hresponse hstep hkept (hne _ (List.mem_append_right _ ha)) hshared ht
          hexp

/-! ## Two addresses, the first held by another name -/

def twoAddresses : DnsPacket :=
  packetA 0x80 [aRecord 192 0 2 1 60, aRecord 192 0 2 2 60] (by decide)

/-- The name `b` has been added with the first of the two addresses. -/
def taken : Dns := pfDnsCacheAdd (.start 0) (lit "b") (lit "192.0.2.1") ⟨-1, .direct, -1, -1⟩

def takenSlot : DnsSlot :=
  ⟨⟨.snprintf (lit "b"), .snprintf (lit "192.0.2.1"), 0 + pfDnsTtl, true⟩, ⟨-1, .direct, -1, -1⟩⟩

theorem taken_reachable : Runs.Reach dnsStep NameFits Dns.Initial taken := by
  refine .next (.start ⟨0, rfl⟩) ?_ (rfl : dnsStep (.start 0)
    ⟨[], .add (lit "b") (lit "192.0.2.1") ⟨-1, .direct, -1, -1⟩⟩ = some _)
  intro domain ip route h
  cases h
  decide

theorem taken_eq : ∃ i < pfDnsCacheSize, taken = (Dns.start 0).put i takenSlot := by
  rcases pfDnsCacheAdd_spec (.start 0) (lit "b") (lit "192.0.2.1") ⟨-1, .direct, -1, -1⟩ with
    ⟨hfull, -⟩ | ⟨i, ⟨o, ho, -⟩, hadd⟩
  · exact absurd (room_start _ _ _) hfull
  · have hlt := (List.getElem?_eq_some_iff.mp ho).1
    rw [(Dns.start 0).size] at hlt
    exact ⟨i, hlt, hadd⟩

theorem hasRoom_taken (domain : CStr) : HasRoom (arrived taken [100]) domain := by
  obtain ⟨i, -, htaken⟩ := taken_eq
  refine ⟨.zero, ?_, fun hused => absurd hused Bool.false_ne_true⟩
  rw [htaken]
  exact zero_mem_put 0 i takenSlot

theorem shared_taken : Shared (arrived taken [100]) nameA.domain.chars (lit "192.0.2.1") := by
  obtain ⟨i, hi, htaken⟩ := taken_eq
  rw [htaken]
  refine ⟨takenSlot, ?_, rfl, (by decide : (0 : Int) + (100 : Nat) < 0 + pfDnsTtl), by decide +kernel,
    by decide +kernel⟩
  exact List.mem_set (by rwa [(Dns.start 0).size]) takenSlot

theorem not_shared_taken :
    ¬ Shared (arrived taken [100]) nameA.domain.chars (lit "192.0.2.2") := by
  obtain ⟨i, -, htaken⟩ := taken_eq
  rw [htaken]
  rintro ⟨e, he, hused, -, hip, -⟩
  rcases List.mem_or_eq_of_mem_set he with he | rfl
  · rw [List.eq_of_mem_replicate he] at hused
    cases hused
  · exact absurd hip (by decide +kernel)

/-- `taken` after 100 idle seconds and a response with both addresses for `a`. -/
def answeredLate : Dns := dnsCallback [] twoAddresses.bytes { taken with ticks := [100] }

/-- The name of the response has the address that `b` does not have. -/
theorem second_address_known :
    Known answeredLate (answeredLate.now + 59) nameA.domain.chars (lit "192.0.2.2") := by
  have hiff := answers_known_iff taken_reachable [] [100] twoAddresses (hasRoom_taken _) rfl
    (by decide +kernel) (d := answeredLate) rfl
  have hearlier : (resolved twoAddresses).dropLast = [(lit "192.0.2.1", 60)] := by decide +kernel
  refine hiff.mpr ?_ (lit "192.0.2.2", 60) (by decide +kernel) not_shared_taken _ ?_ ?_
  · rw [hearlier]
    exact List.forall_mem_singleton.mpr shared_taken
  · exact Int.le_add_of_nonneg_right (by decide)
  · exact Int.add_lt_add_left (by decide) _

/-! ## Two addresses on an empty cache -/

theorem hasRoom_start (ticks : List Nat) (domain : CStr) : HasRoom (arrived (.start 0) ticks) domain :=
  ⟨.zero, List.mem_replicate.mpr ⟨by decide, rfl⟩, fun hused => absurd hused Bool.false_ne_true⟩

theorem not_shared_start (ticks : List Nat) (domain ip : CStr) :
    ¬ Shared (arrived (.start 0) ticks) domain ip := by
  rintro ⟨e, he, hused, -⟩
  rw [List.eq_of_mem_replicate he] at hused
  cases hused

/-- The empty cache after a response at time 0. -/
def answered (p : DnsPacket) : Dns := dnsCallback [] p.bytes { Dns.start 0 with ticks := [] }

/-- On an empty cache the first of two addresses is not known even at once. -/
theorem first_address_lost :
    HasRoom (arrived (.start 0) []) nameA.domain.chars ∧ twoAddresses.isResponse = true ∧
      ((resolved twoAddresses).map Prod.fst).Nodup ∧
      dnsStep (.start 0) ⟨[], .packet [] twoAddresses.bytes⟩ = some (answered twoAddresses) ∧
      ¬ ∀ a ∈ resolved twoAddresses, ¬ Shared (arrived (.start 0) []) nameA.domain.chars a.1 →
        ∀ t, (answered twoAddresses).now ≤ t → t < (answered twoAddresses).now + a.2 →
          Known (answered twoAddresses) t nameA.domain.chars a.1 := by
  refine ⟨hasRoom_start _ _, rfl, by decide +kernel, rfl, fun hall => ?_⟩
  have hkept : keptFor twoAddresses = [((.snprintf (lit "192.0.2.1"), 60), 60)] ++
      [((.snprintf (lit "192.0.2.2"), 60), 60)] := by decide +kernel
  have hsoon : (answered twoAddresses).now < (answered twoAddresses).now + (60 : Nat) :=
    Int.lt_add_of_pos_right _ (by decide)
  exact not_known_earlier (unique_start 0) (hasRoom_start [] _) rfl rfl hkept (by decide)
    (hall (lit "192.0.2.1", 60) (by decide +kernel) (not_shared_start _ _ _) _ (Int.le_refl _) hsoon)

end Proxiflare.Guarantees.AnswersKnown
