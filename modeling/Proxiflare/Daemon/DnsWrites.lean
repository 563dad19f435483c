import Proxiflare.Daemon.Dns

/-!
# What a packet writes into the DNS cache

A packet writes one entry after the other for one name: a query an entry without address, a
response one for each A or AAAA record. The name then has one live slot, with the last address.
-/

namespace Proxiflare.Daemon

open Lib.CString Lib Lib.KeyedSlots

/-! ## One write -/

/-- An entry for `k` with `ip` is written, live for `ttl` seconds at least and `PF_DNS_TTL` at most,
unless the table is full of live entries for other names. -/
def Wrote (k : CStr) (ip : CBuf 46) (ttl : Nat) (d d' : Dns) : Prop :=
  ∃ t, d.now ≤ t ∧ t ≤ d'.now ∧
    (¬ slotView.Room t k d.cache ∧ d'.cache = d.cache ∨
      ∃ i e, slotView.Takes t k d.cache i ∧ d'.cache = d.cache.set i e ∧ slotView.key e = k ∧
        e.used = true ∧ e.resolvedIp = ip ∧ d'.now + ttl ≤ e.expires ∧
        e.expires ≤ d'.now + pfDnsTtl)

/-- A name that is too long is looked for whole and stored cut off. -/
theorem pfDnsCacheAdd_spec (d : Dns) (domain ip : CStr) (route : DnsRoute) :
    ¬ slotView.Room d.time.now (nameKey domain) d.cache ∧ pfDnsCacheAdd d domain ip route = d.time ∨
    ∃ i, slotView.Takes d.time.now (nameKey domain) d.cache i ∧
      pfDnsCacheAdd d domain ip route = d.time.time.put i
        ⟨⟨.snprintf domain, .snprintf ip, d.time.time.now + pfDnsTtl, true⟩, route⟩ := by
  obtain ⟨hsome, hnone⟩ := cacheFindSlot_spec d domain
  unfold pfDnsCacheAdd
  dsimp only
  split
  · next hslot => exact .inl ⟨hnone hslot, rfl⟩
  · next i hslot => exact .inr ⟨i, hsome i hslot, rfl⟩

theorem pfDnsCacheAdd_wrote {domain : CStr} (hfits : domain.length < pfDomainMax) (hnul : 0 ∉ domain)
    (d : Dns) (ip : CStr) (route : DnsRoute) :
    Wrote (nameKey domain) (.snprintf ip) pfDnsTtl d (pfDnsCacheAdd d domain ip route) := by
  rcases pfDnsCacheAdd_spec d domain ip route with ⟨hfull, hadd⟩ | ⟨i, htakes, hadd⟩
  · rw [hadd]
    exact ⟨d.time.now, d.le_time, Int.le_refl _, .inl ⟨hfull, rfl⟩⟩
  · rw [hadd]
    have hkey : nameKey (CBuf.snprintf domain : CBuf pfDomainMax).chars = nameKey domain := by
      rw [CBuf.snprintf_of_fits hfits hnul]
    exact ⟨d.time.now, d.le_time, d.time.le_time,
      .inr ⟨i, _, htakes, rfl, hkey, rfl, rfl, Int.le_refl _, Int.le_refl _⟩⟩

theorem updateAddress_wrote (rs : Ruleset) (domain : CBuf pfDomainMax) (d : Dns) {a : CBuf 46 × Nat}
    (ha : a.2 ≤ pfDnsTtl) :
    Wrote (nameKey domain.chars) a.1 a.2 d (updateAddress rs domain d a) := by
  obtain ⟨hsome, hnone⟩ := cacheFindSlot_spec d domain.chars
  have hle := d.le_time
  unfold updateAddress
  dsimp only
  split
  · next hslot => exact ⟨d.time.now, hle, Int.le_refl _, .inl ⟨hnone hslot, rfl⟩⟩
  · next i hslot =>
    split
    · next hsame =>
      obtain ⟨hused, hsame⟩ := Bool.and_eq_true_iff.mp hsame
      exact ⟨d.time.now, hle, d.time.le_time, .inr ⟨i, _, hsome i hslot, rfl,
        (strcaseeq_iff _ _).mp hsame, hused, CBuf.snprintf_chars a.1, Int.le_refl _,
        Int.add_le_add_left (Int.ofNat_le.mpr ha) _⟩⟩
    · obtain ⟨t, ht, ht', hwrote⟩ :=
        pfDnsCacheAdd_wrote domain.fits domain.noNul d.time a.1.chars (matchRoute rs domain.chars)
      refine ⟨t, hle.trans ht, ht', hwrote.imp_right ?_⟩
      rintro ⟨i, e, htakes, hcache, hkey, hused, hip, hexp, hcap⟩
      refine ⟨i, e, htakes, hcache, hkey, hused, hip.trans (CBuf.snprintf_chars a.1), ?_, hcap⟩
      exact (Int.add_le_add_left (Int.ofNat_le.mpr ha) _).trans hexp

/-- Slot `i` has the key `k` and the address, from now on for as long and never beyond `PF_DNS_TTL`. -/
def Binds (d : Dns) (k : CStr) (i : Nat) (a : CBuf 46 × Nat) : Prop :=
  ∃ e, d.cache[i]? = some e ∧ slotView.key e = k ∧ e.used = true ∧ e.resolvedIp = a.1 ∧
    d.now + a.2 ≤ e.expires ∧ e.expires ≤ d.now + pfDnsTtl

/-- The invariant: at most one live slot for each name. -/
def Dns.Unique (d : Dns) : Prop := slotView.Unique d.now d.cache

section Wrote

variable {k : CStr} {a : CBuf 46 × Nat} {d d' : Dns}

theorem Wrote.le (h : Wrote k a.1 a.2 d d') : d.now ≤ d'.now := by
  obtain ⟨t, ht, ht', -⟩ := h
  exact ht.trans ht'

theorem Wrote.unique (h : Wrote k a.1 a.2 d d') (hu : d.Unique) :
    d'.Unique := by
  obtain ⟨t, ht, ht', ⟨-, hcache⟩ | ⟨i, e, htakes, hcache, hkey, -⟩⟩ := h
  · rw [Dns.Unique, hcache]
    exact hu.mono (ht.trans ht')
  · rw [Dns.Unique, hcache]
    exact (hu.mono ht).set ht' htakes hkey

theorem Wrote.othersFrom {es : List DnsSlot} (h : Wrote k a.1 a.2 d d')
    (ho : slotView.OthersFrom k es d.cache) : slotView.OthersFrom k es d'.cache := by
  obtain ⟨-, -, -, ⟨-, hcache⟩ | ⟨i, e, -, hcache, hkey, -⟩⟩ := h
  · rwa [hcache]
  · rw [hcache]
    exact ho.set i hkey

/-- With room, the address stands in the one live slot of the name. -/
theorem Wrote.binds (h : Wrote k a.1 a.2 d d') (hu : d.Unique)
    (hroom : slotView.Room d.now k d.cache) :
    ∃ i, Binds d' k i a ∧ slotView.HeldAt d'.now k i d'.cache ∧
      ∀ j, slotView.HeldAt d.now k j d.cache → i ≤ j := by
  obtain ⟨t, ht, ht', ⟨hfull, -⟩ | ⟨i, e, htakes, hcache, hkey, hused, hip, hexp, hcap⟩⟩ := h
  · exact absurd (hroom.mono ht) hfull
  · refine ⟨i, ⟨e, ?_, hkey, hused, hip, hexp, hcap⟩, ?_, fun j hj => (hj.mono ht).takes_le htakes⟩
    · rw [hcache]
      exact List.getElem?_set_self htakes.lt_length
    · rw [hcache]
      exact SlotView.heldAt_set (hu.mono ht) ht' htakes hkey

end Wrote

/-! ## The writes of a packet -/

/-- Writes for `k`, one after the other. -/
inductive Updates (k : CStr) : List (CBuf 46 × Nat) → Dns → Dns → Prop where
  | nil (d : Dns) : Updates k [] d d
  | cons {a : CBuf 46 × Nat} {as : List (CBuf 46 × Nat)} {d d' d'' : Dns}
      (hw : Wrote k a.1 a.2 d d') (hus : Updates k as d' d'') : Updates k (a :: as) d d''

section Updates

variable {k : CStr} {as : List (CBuf 46 × Nat)} {d d' : Dns}

theorem Updates.le (h : Updates k as d d') : d.now ≤ d'.now := by
  induction h with
  | nil => exact Int.le_refl _
  | cons hw _ ih => exact hw.le.trans ih

theorem Updates.unique (h : Updates k as d d') (hu : d.Unique) : d'.Unique := by
  induction h with
  | nil => exact hu
  | cons hw _ ih => exact ih (hw.unique hu)

theorem Updates.othersFrom {es : List DnsSlot} (h : Updates k as d d')
    (ho : slotView.OthersFrom k es d.cache) : slotView.OthersFrom k es d'.cache := by
  induction h with
  | nil => exact ho
  | cons hw _ ih => exact ih (hw.othersFrom ho)

/-- The last address stands in the one live slot of the name, no further back than that was. -/
theorem Updates.binds {a : CBuf 46 × Nat} (h : Updates k as d d') (hu : d.Unique)
    (hroom : slotView.Room d.now k d.cache) (ha : as.getLast? = some a) :
    ∃ i, Binds d' k i a ∧ slotView.HeldAt d'.now k i d'.cache ∧
      ∀ j, slotView.HeldAt d.now k j d.cache → i ≤ j := by
  induction h with
  | nil => cases ha
  | cons hw hus ih =>
    obtain ⟨i, hbinds, hheld, hfront⟩ := hw.binds hu hroom
    cases hus with
    | nil =>
      obtain rfl := Option.some.inj ha
      exact ⟨i, hbinds, hheld, hfront⟩
    | cons hw' hus' =>
      rw [List.getLast?_cons_cons] at ha
      obtain ⟨i', hbinds', hheld', hfront'⟩ := ih (hw.unique hu) hheld.room ha
      exact ⟨i', hbinds', hheld', fun j hj => (hfront' i hheld).trans (hfront j hj)⟩

end Updates

/-- What the callback writes for a message. -/
def DnsMessage.writes (m : DnsMessage) : List (CBuf 46 × Nat) :=
  if m.isResponse then m.addresses else [(.empty, pfDnsTtl)]

theorem clampTtl_le (ttl : Nat) : clampTtl ttl ≤ pfDnsTtl :=
  Nat.max_le.mpr ⟨by decide, Nat.min_le_right _ _⟩

theorem recordAddress_ttl {rtype rttl : Nat} {rdata : CStr} {a : CBuf 46 × Nat}
    (h : recordAddress rtype rttl rdata = some a) : 30 ≤ a.2 ∧ a.2 ≤ pfDnsTtl := by
  unfold recordAddress at h
  split at h
  · obtain rfl := Option.some.inj h
    exact ⟨Nat.le_max_left _ _, clampTtl_le rttl⟩
  · split at h
    · obtain rfl := Option.some.inj h
      exact ⟨show 30 ≤ pfDnsTtl by decide, Nat.le_refl _⟩
    · cases h

theorem answerAddresses_ttl {n : Nat} {ptr : CStr} {a : CBuf 46 × Nat}
    (h : a ∈ answerAddresses n ptr) : 30 ≤ a.2 ∧ a.2 ≤ pfDnsTtl := by
  induction n generalizing ptr with
  | zero => cases h
  | succ n ih =>
    unfold answerAddresses at h
    dsimp only at h
    split at h
    · cases h
    · split at h
      · cases h
      · split at h
        · cases h
        · rcases List.mem_append.mp h with h | h
          · exact recordAddress_ttl (Option.mem_toList.mp h)
          · exact ih h

/-- Every address is kept between half a minute and five minutes. -/
theorem readDns_ttl {pkt : CStr} {m : DnsMessage} (h : readDns pkt = some m) :
    ∀ a ∈ m.addresses, 30 ≤ a.2 ∧ a.2 ≤ pfDnsTtl := by
  obtain ⟨data, -, h⟩ := Option.bind_eq_some_iff.mp h
  unfold readMessage at h
  dsimp only at h
  split at h
  · obtain rfl := Option.some.inj h
    intro a ha
    dsimp only at ha
    split at ha
    · exact answerAddresses_ttl ha
    · cases ha
  · cases h

theorem foldl_updates (rs : Ruleset) (domain : CBuf pfDomainMax) {as : List (CBuf 46 × Nat)}
    (has : ∀ a ∈ as, 30 ≤ a.2 ∧ a.2 ≤ pfDnsTtl) (d : Dns) :
    Updates (nameKey domain.chars) as d (as.foldl (updateAddress rs domain) d) := by
  induction as generalizing d with
  | nil => exact .nil d
  | cons a as ih =>
    obtain ⟨ha, has⟩ := List.forall_mem_cons.mp has
    exact .cons (updateAddress_wrote rs domain d ha.2) (ih has _)

/-- The step lemma of the callback. -/
theorem dnsCallback_updates (rs : Ruleset) {pkt : CStr} {m : DnsMessage} (h : readDns pkt = some m)
    (d : Dns) : Updates (nameKey m.domain.chars) m.writes d (dnsCallback rs pkt d) := by
  unfold dnsCallback DnsMessage.writes
  rw [h]
  dsimp only
  split
  · exact foldl_updates rs m.domain (readDns_ttl h) d
  · exact .cons (pfDnsCacheAdd_wrote m.domain.fits m.domain.noNul d [] _) (.nil _)

/-! ## A clock that stands still -/

theorem Dns.time_of_still {d : Dns} (h : d.ticks = []) : d.time = d := by
  obtain ⟨cache, now, ticks, size⟩ := d
  obtain rfl : ticks = [] := h
  simp [Dns.time]

theorem pfDnsCacheAdd_still {d : Dns} (h : d.ticks = []) (domain ip : CStr) (route : DnsRoute) :
    (pfDnsCacheAdd d domain ip route).ticks = [] ∧ (pfDnsCacheAdd d domain ip route).now = d.now := by
  have htime := Dns.time_of_still h
  rcases pfDnsCacheAdd_spec d domain ip route with ⟨-, hadd⟩ | ⟨i, -, hadd⟩ <;>
    rw [hadd, htime]
  · exact ⟨h, rfl⟩
  · rw [htime]
    exact ⟨h, rfl⟩

theorem updateAddress_still {d : Dns} (h : d.ticks = []) (rs : Ruleset)
    (domain : CBuf pfDomainMax) (a : CBuf 46 × Nat) :
    (updateAddress rs domain d a).ticks = [] ∧ (updateAddress rs domain d a).now = d.now := by
  have htime := Dns.time_of_still h
  unfold updateAddress cacheFindSlot
  dsimp only
  rw [htime]
  split
  · exact ⟨h, rfl⟩
  · split
    · rw [htime]
      exact ⟨h, rfl⟩
    · exact pfDnsCacheAdd_still h _ _ _

theorem dnsCallback_still {d : Dns} (h : d.ticks = []) (rs : Ruleset) (pkt : CStr) :
    (dnsCallback rs pkt d).now = d.now := by
  unfold dnsCallback
  split
  · rfl
  · next m _ =>
    split
    · generalize m.addresses = as
      induction as generalizing d with
      | nil => rfl
      | cons a as ih =>
        obtain ⟨hticks, hnow⟩ := updateAddress_still h rs m.domain a
        exact (ih hticks).trans hnow
    · exact (pfDnsCacheAdd_still h _ _ _).2

/-! ## Runs -/

/-- The name given to `pf_dns_cache_add` is stored whole. Names in packets always are. -/
def NameFits (_ : Dns) (ev : DnsEvent) : Prop :=
  ∀ domain ip route, ev.call = .add domain ip route → (cstr domain).length < pfDomainMax

theorem dnsStep_updates {d d' : Dns} {ev : DnsEvent} (hname : NameFits d ev)
    (h : dnsStep d ev = some d') : ∃ k as, Updates k as { d with ticks := ev.ticks } d' := by
  obtain rfl := Option.some.inj h
  obtain ⟨ticks, call⟩ := ev
  cases call with
  | packet rs pkt =>
    cases hread : readDns pkt with
    | none =>
      refine ⟨[], [], ?_⟩
      simp only [dnsCallback, hread]
      exact .nil _
    | some m => exact ⟨_, _, dnsCallback_updates rs hread _⟩
  | add domain ip route =>
    exact ⟨_, [(.snprintf (cstr ip), pfDnsTtl)],
      .cons (pfDnsCacheAdd_wrote (hname domain ip route rfl) (cstr_noNul domain) _ _ _) (.nil _)⟩

theorem zero_dead (t : Int) : ¬ slotView.live t .zero := fun h => Bool.false_ne_true h.1

/-- One write leaves a slot of the empty cache as it was. -/
theorem zero_mem_put (now : Int) (i : Nat) (e : DnsSlot) :
    DnsSlot.zero ∈ ((Dns.start now).put i e).cache := by
  have hne : i ≠ (if i = 0 then 1 else 0) := by split <;> omega
  have hlt : (if i = 0 then 1 else 0) < pfDnsCacheSize := by split <;> decide
  refine List.mem_of_getElem? (i := if i = 0 then 1 else 0) ?_
  show ((List.replicate pfDnsCacheSize DnsSlot.zero).set i e)[_]? = _
  rw [List.getElem?_set_ne hne, List.getElem?_replicate, if_pos hlt]

theorem unique_start (now : Int) : (Dns.start now).Unique := by
  intro i j ei ej hi _ hlive
  rw [List.eq_of_mem_replicate (List.mem_of_getElem? hi)] at hlive
  exact absurd hlive (zero_dead _)

theorem room_start (now t : Int) (k : CStr) : slotView.Room t k (Dns.start now).cache :=
  ⟨.zero, List.mem_replicate.mpr ⟨by decide, rfl⟩, fun hlive => absurd hlive (zero_dead t)⟩

theorem unique_of_reach {d : Dns} (h : Runs.Reach dnsStep NameFits Dns.Initial d) : d.Unique := by
  refine Runs.Reach.invariant ?_ ?_ h
  · rintro d ⟨now, rfl⟩
    exact unique_start now
  · intro d ev d' hu hname hstep
    obtain ⟨k, as, hupdates⟩ := dnsStep_updates hname hstep
    exact hupdates.unique hu

/-! ## Lookups -/

/-- The slot that a lookup takes. -/
def answersIp (t : Int) (ip : CStr) (e : DnsSlot) : Bool :=
  e.used && t < e.expires && e.resolvedIp.nonempty && e.resolvedIp.chars = ip

theorem answersIp_iff {t : Int} {ip : CStr} {e : DnsSlot} :
    answersIp t ip e = true ↔ slotView.live t e ∧ e.resolvedIp.chars = ip ∧ ip ≠ [] := by
  simp only [answersIp, slotView, CBuf.nonempty, Bool.and_eq_true, decide_eq_true_eq,
    Bool.not_eq_true', List.isEmpty_eq_false_iff]
  constructor
  · rintro ⟨⟨hlive, hne⟩, rfl⟩
    exact ⟨hlive, rfl, hne⟩
  · rintro ⟨hlive, rfl, hne⟩
    exact ⟨⟨hlive, hne⟩, rfl⟩

theorem lookup_eq (d : Dns) (t : Int) (ip : CStr) :
    d.lookup t ip = (d.cache.find? (answersIp t ip)).map DnsSlot.toDnsEntry := by
  rw [Dns.lookup, pfDnsLookup, List.find?_map]
  rfl

/-- `pf_dns_lookup` returns an entry for the name. -/
def Known (d : Dns) (t : Int) (domain ip : CStr) : Prop :=
  ∃ e, d.lookup t ip = some e ∧ strcaseeq e.domain.chars domain = true

theorem known_iff {d : Dns} {t : Int} {domain ip : CStr} :
    Known d t domain ip ↔
      ∃ e, d.cache.find? (answersIp t ip) = some e ∧ slotView.key e = nameKey domain := by
  rw [Known, lookup_eq]
  constructor
  · rintro ⟨_, hfind, hsame⟩
    obtain ⟨e, he, rfl⟩ := Option.map_eq_some_iff.mp hfind
    exact ⟨e, he, (strcaseeq_iff _ _).mp hsame⟩
  · rintro ⟨e, he, hkey⟩
    exact ⟨e.toDnsEntry, by rw [he, Option.map_some], (strcaseeq_iff _ _).mpr hkey⟩

/-- A bound address is known as long as no slot of another name answers for it. -/
theorem known_of_binds {d : Dns} {es : List DnsSlot} {domain : CStr} {i : Nat} {a : CBuf 46 × Nat}
    {t : Int} (hbinds : Binds d (nameKey domain) i a)
    (hothers : slotView.OthersFrom (nameKey domain) es d.cache)
    (halone : ∀ e ∈ es, answersIp t a.1.chars e = true → slotView.key e = nameKey domain)
    (hne : a.1.chars ≠ []) (ht : t < d.now + a.2) : Known d t domain a.1.chars := by
  obtain ⟨e, he, hkey, hused, hip, hexp, -⟩ := hbinds
  have hanswers : answersIp t a.1.chars e = true :=
    answersIp_iff.mpr ⟨⟨hused, ht.trans_le hexp⟩, by rw [hip], hne⟩
  refine known_iff.mpr (SlotView.find?_key he hanswers fun j o _ hj ho => ?_)
  by_contra hother
  exact hother (halone o (List.mem_of_getElem? (hothers j o hj hother)) ho)

/-- What a lookup returns stands in some slot. -/
theorem lookup_some {d : Dns} {t : Int} {ip : CStr} {e : DnsEntry} (h : d.lookup t ip = some e) :
    ∃ (i : Nat) (o : DnsSlot), d.cache.find? (answersIp t ip) = some o ∧ d.cache[i]? = some o ∧
      o.toDnsEntry = e ∧ slotView.live t o ∧ o.resolvedIp.chars = ip ∧ ip ≠ [] := by
  rw [lookup_eq] at h
  obtain ⟨o, hfind, rfl⟩ := Option.map_eq_some_iff.mp h
  obtain ⟨i, hi⟩ := List.getElem?_of_mem (List.mem_of_find?_eq_some hfind)
  exact ⟨i, o, hfind, hi, rfl, answersIp_iff.mp (List.find?_some hfind)⟩

/-- A lookup that returns an entry for a name returns the one live slot of the name. -/
theorem lookup_binds {d : Dns} {domain ip : CStr} {i : Nat} {a : CBuf 46 × Nat} {e : DnsEntry}
    (hbinds : Binds d (nameKey domain) i a)
    (hheld : slotView.HeldAt d.now (nameKey domain) i d.cache) (hlookup : d.lookup d.now ip = some e)
    (hsame : strcaseeq e.domain.chars domain = true) :
    a.1.chars = ip ∧ ip ≠ [] ∧ e.expires ≤ d.now + pfDnsTtl := by
  obtain ⟨j, o, -, hj, rfl, hlive, hip, hne⟩ := lookup_some hlookup
  obtain rfl : j = i := hheld.2 j o hj hlive ((strcaseeq_iff _ _).mp hsame)
  obtain ⟨b, hb, -, -, hbip, -, hcap⟩ := hbinds
  obtain rfl := Option.some.inj (hj.symm.trans hb)
  exact ⟨by rw [← hbip, hip], hne, hcap⟩

end Proxiflare.Daemon
