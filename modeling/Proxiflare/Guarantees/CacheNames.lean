import Proxiflare.Daemon.DnsWrites

/-!
# One live cache entry for each name

Every write looks for the name before it takes a slot, so the live entries of a run have
different names. The search is for the whole name, and a name beyond 252 bytes is stored cut off:
it is never found again, and each `pf_dns_cache_add` of it makes another entry.
-/

namespace Proxiflare.Guarantees.CacheNames

open Lib.CString Lib Lib.KeyedSlots
open Proxiflare.Daemon

/-- No two entries live at time `t` have the same name up to case. -/
def OneEntryPerName (d : Dns) (t : Int) : Prop :=
  ∀ (i j : Nat) (e e' : DnsSlot), d.cache[i]? = some e → d.cache[j]? = some e' →
    e.used = true → t < e.expires → e'.used = true → t < e'.expires →
    strcaseeq e.domain.chars e'.domain.chars = true → i = j

/-- Over all runs of packets and of additions whose name is at most 252 bytes long, at every time
from then on. -/
theorem one_entry_per_name {d : Dns} (h : Runs.Reach dnsStep NameFits Dns.Initial d) :
    ∀ t, d.now ≤ t → OneEntryPerName d t := by
  intro t ht i j e e' hi hj hused hexp hused' hexp' hsame
  have hunique : slotView.Unique t d.cache := SlotView.Unique.mono (unique_of_reach h) ht
  exact hunique i j e e' hi hj ⟨hused, hexp⟩ ⟨hused', hexp'⟩ ((strcaseeq_iff _ _).mp hsame)

def anyRoute : DnsRoute := ⟨-1, .direct, -1, -1⟩

/-- Two names are added, a second passing before each reading of the clock. -/
def twoNames : Dns :=
  pfDnsCacheAdd { pfDnsCacheAdd { Dns.start 0 with ticks := [1, 1] } (lit "a.b") (lit "192.0.2.1")
    anyRoute with ticks := [1, 1] } (lit "c.d") (lit "192.0.2.2") anyRoute

/-- The first name is added again, in capitals. -/
def rewritten : Dns :=
  pfDnsCacheAdd { twoNames with ticks := [1, 1] } (lit "A.B") (lit "192.0.2.3") anyRoute

theorem fits_of_add {d : Dns} {ticks : List Nat} {name ip : CStr} {route : DnsRoute}
    (h : (cstr name).length < pfDomainMax) : NameFits d ⟨ticks, .add name ip route⟩ := by
  rintro _ _ _ ⟨⟩
  exact h

theorem name_rewritten : OneEntryPerName rewritten rewritten.now := by
  have hone : Runs.Reach dnsStep NameFits Dns.Initial _ :=
    .next (.start ⟨0, rfl⟩) (fits_of_add (by decide))
      (rfl : dnsStep (.start 0) ⟨[1, 1], .add (lit "a.b") (lit "192.0.2.1") anyRoute⟩ = some _)
  have htwo : Runs.Reach dnsStep NameFits Dns.Initial twoNames :=
    .next hone (fits_of_add (by decide))
      (rfl : dnsStep _ ⟨[1, 1], .add (lit "c.d") (lit "192.0.2.2") anyRoute⟩ = some _)
  have hthree : Runs.Reach dnsStep NameFits Dns.Initial rewritten :=
    .next htwo (fits_of_add (by decide))
      (rfl : dnsStep _ ⟨[1, 1], .add (lit "A.B") (lit "192.0.2.3") anyRoute⟩ = some _)
  exact one_entry_per_name hthree _ (Int.le_refl _)

/-! ## A name that is cut off -/

/-- No entry has a name as long. -/
theorem dead_of_takes {d : Dns} {domain : CStr} {t : Int} {i : Nat}
    (hlong : pfDomainMax ≤ domain.length) (h : slotView.Takes t (nameKey domain) d.cache i) :
    ∃ o, d.cache[i]? = some o ∧ ¬ slotView.live t o := by
  obtain ⟨o, ho, ⟨-, hkey⟩ | ⟨hdead, -⟩⟩ := h
  · have hlen : o.domain.chars.length = domain.length := by
      simpa [slotView, nameKey] using congrArg List.length hkey
    have hfits := o.domain.fits
    omega
  · exact ⟨o, ho, hdead⟩

/-- Adding a name of 253 bytes or more, with a slot left, fills a slot that was not live. -/
theorem add_long {d : Dns} {domain : CStr} (hlong : pfDomainMax ≤ domain.length) (ip : CStr)
    (route : DnsRoute) (hticks : d.ticks = [])
    (hfree : ∃ o ∈ d.cache, ¬ slotView.live d.now o) :
    ∃ i o, d.cache[i]? = some o ∧ ¬ slotView.live d.now o ∧
      pfDnsCacheAdd d domain ip route =
        d.put i ⟨⟨.snprintf domain, .snprintf ip, d.now + pfDnsTtl, true⟩, route⟩ := by
  have htime := Dns.time_of_still hticks
  obtain ⟨o, ho, hdead⟩ := hfree
  rcases pfDnsCacheAdd_spec d domain ip route with ⟨hfull, -⟩ | ⟨i, htakes, hadd⟩
  · rw [htime] at hfull
    exact absurd ⟨o, ho, fun hl => absurd hl hdead⟩ hfull
  · rw [htime] at htakes
    rw [htime, htime] at hadd
    obtain ⟨o', ho', hdead'⟩ := dead_of_takes hlong htakes
    exact ⟨i, o', ho', hdead', hadd⟩

theorem free_after_put (now : Int) (i : Nat) (e : DnsSlot) :
    ∃ o ∈ ((Dns.start now).put i e).cache, ¬ slotView.live now o :=
  ⟨.zero, zero_mem_put now i e, zero_dead now⟩

def longName : CStr := List.replicate 253 97

def addLong : DnsEvent := ⟨[], .add longName [] anyRoute⟩

theorem dnsStep_addLong (d : Dns) (h : d.ticks = []) :
    dnsStep d addLong = some (pfDnsCacheAdd d (cstr longName) (cstr []) anyRoute) := by
  obtain ⟨cache, now, ticks, size⟩ := d
  obtain rfl : ticks = [] := h
  rfl

/-- The entry an addition at time 0 makes. -/
def cutOff : DnsSlot :=
  ⟨⟨.snprintf (cstr longName), .snprintf (cstr []), 0 + pfDnsTtl, true⟩, anyRoute⟩

/-- Adding a name of 253 bytes twice leaves two live entries for its first 252 bytes. -/
theorem long_name_twice :
    ∃ d, Runs.run dnsStep (.start 0) [addLong, addLong] = some d ∧ ¬ OneEntryPerName d 0 := by
  have hlong : pfDomainMax ≤ (cstr longName).length := by decide +kernel
  obtain ⟨i, o, hi, -, hfirst⟩ := add_long (d := .start 0) hlong (cstr []) anyRoute rfl
    ⟨.zero, List.mem_replicate.mpr ⟨by decide, rfl⟩, zero_dead 0⟩
  obtain ⟨j, o', hj, hdead, hsecond⟩ :=
    add_long hlong (cstr []) anyRoute rfl (free_after_put 0 i cutOff)
  have hlt : i < (Dns.start 0).cache.length := (List.getElem?_eq_some_iff.mp hi).1
  have hslot : ((Dns.start 0).put i cutOff).cache[i]? = some cutOff := List.getElem?_set_self hlt
  have hlive : slotView.live 0 cutOff := ⟨rfl, by decide⟩
  have hne : j ≠ i := by
    rintro rfl
    obtain rfl := Option.some.inj (hslot.symm.trans hj)
    exact hdead hlive
  refine ⟨((Dns.start 0).put i cutOff).put j cutOff, ?_, fun hone => hne ?_⟩
  · rw [Runs.run_cons, dnsStep_addLong _ rfl, hfirst, Option.bind_some, Runs.run_cons,
      dnsStep_addLong _ rfl]
    exact congrArg some hsecond
  · have hj' : j < ((Dns.start 0).put i cutOff).cache.length := (List.getElem?_eq_some_iff.mp hj).1
    refine hone j i cutOff cutOff (List.getElem?_set_self hj') ?_ hlive.1 hlive.2 hlive.1 hlive.2 ?_
    · exact (List.getElem?_set_ne hne).trans hslot
    · exact (strcaseeq_iff _ _).mpr rfl

end Proxiflare.Guarantees.CacheNames
