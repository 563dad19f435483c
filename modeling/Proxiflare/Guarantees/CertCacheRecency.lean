import Mathlib.Data.Finset.Card
import Proxiflare.Guarantees.CertCacheIntegrity

/-!
# Eviction from the certificate cache over all runs

Beside the cache the domains of the calls that succeeded are kept, newest first. `g_tick` counts
them, so the position of a domain among them is the age its entry has; entries of different
domains have different ages, and the one given up in a full window has fifteen younger ones
beside it.
-/

namespace Proxiflare.Guarantees.CertCacheRecency

open Lib.Runs Lib.CString Lib.ProbeTable
open Proxiflare.Daemon Proxiflare.Daemon.CertCache
open CertCacheIntegrity (Issuer GetCert Known answer_cases known_step known_start)

variable {χ κ : Type}

structure History (χ κ : Type) where
  issuer : Issuer χ κ
  uses : List CStr

namespace History

def cache (s : History χ κ) : CertCache χ κ := s.issuer.cache

/-- The calls since the last use of a domain that succeeded. -/
def age (s : History χ κ) (d : CStr) : Nat := s.uses.idxOf d

end History

def call (s : History χ κ) (g : GetCert χ κ) : Option (History χ κ) :=
  (CertCacheIntegrity.step s.issuer g).map fun issuer =>
    ⟨issuer, if (g.answer s.cache).1.isSome then g.lower :: s.uses else s.uses⟩

def Starts (s : History χ κ) : Prop := CertCacheIntegrity.Starts s.issuer ∧ s.uses = []

/-- The entry of slot `i` is still there, but for its tick. -/
def Keeps (s : History χ κ) (i : Nat) (e : CertEntry χ κ) : Prop :=
  ∃ t, slot s.cache.cache i = some { e with lastUsed := t }

/-- The call inserts a new entry over that of slot `i`; the other slots of its window are all in
use, by domains used after that of the entry given up. -/
structure Evicts (s s' : History χ κ) (g : GetCert χ κ) (i : Nat) (e : CertEntry χ κ) : Prop where
  generates : g.Generates s.cache
  inserts : ∃ pair t, g.generate g.lower = some pair ∧
    slot s'.cache.cache i = some ⟨g.lower, pair.1, pair.2, t⟩
  inWindow : i ∈ probeWindow g.lower
  younger : ∀ j ∈ probeWindow g.lower, j ≠ i →
    ∃ e', slot s.cache.cache j = some e' ∧ s.age e'.domain < s.age e.domain

/-- What every call keeps: a tick for each use, and each entry has that of its last use. -/
structure Ticked (s : History χ κ) : Prop where
  known : Known s.issuer
  tick : s.cache.tick = s.uses.length
  lastUsed : ∀ i e, slot s.cache.cache i = some e →
    0 < e.lastUsed ∧ s.age e.domain + e.lastUsed = s.uses.length

variable {s s' t : History χ κ} {g : GetCert χ κ} {i j : Nat} {e e' : CertEntry χ κ} {d : CStr}

theorem cache_of_call (hs : call s g = some s') : s'.cache = (g.answer s.cache).2 := by
  obtain ⟨issuer, hstep, rfl⟩ := Option.map_eq_some_iff.mp hs
  obtain rfl := Option.some.inj hstep
  rfl

theorem uses_of_call (hs : call s g = some s') :
    s'.uses = if (g.answer s.cache).1.isSome then g.lower :: s.uses else s.uses := by
  obtain ⟨issuer, -, rfl⟩ := Option.map_eq_some_iff.mp hs
  rfl

theorem known_of_call (hk : Known s.issuer) (hs : call s g = some s') : Known s'.issuer := by
  obtain ⟨issuer, hstep, rfl⟩ := Option.map_eq_some_iff.mp hs
  exact known_step hk hstep

/-- A call changes nothing, or refreshes an entry, or inserts one. -/
theorem call_cases (hs : call s g = some s') :
    (g.answer s.cache).1 = none ∧ s'.cache = s.cache ∧ s'.uses = s.uses ∨
    (∃ i e, slot s.cache.cache i = some e ∧ e.domain = g.lower ∧
      (g.answer s.cache).1 = some (e.cert, e.key) ∧ s'.uses = g.lower :: s.uses ∧
      s'.cache = s.cache.store i { e with lastUsed := s.cache.tick + 1 } false) ∨
    ∃ pair, certLayout.find g.lower s.cache.cache = none ∧ g.produced s.cache = some (g.lower, pair) ∧
      (g.answer s.cache).1 = some pair ∧ s'.uses = g.lower :: s.uses ∧
      s'.cache = s.cache.insert g.lower pair := by
  have hcache := cache_of_call hs
  have huses := uses_of_call hs
  rcases answer_cases g s.cache with ⟨hans, -⟩ | ⟨i, e, hfind, -, hans⟩ | ⟨pair, hfree, hprod, hans⟩
  · rw [hans] at hcache huses
    exact .inl ⟨by rw [hans], hcache, huses⟩
  · obtain ⟨hslot, hkey⟩ := Layout.find_some hfind
    rw [hans] at hcache huses
    exact .inr (.inl ⟨i, e, hslot, hkey, by rw [hans], huses, hcache⟩)
  · rw [hans] at hcache huses
    exact .inr (.inr ⟨pair, hfree, hprod, by rw [hans], huses, hcache⟩)

/-! ## Ages -/

theorem age_of_use (h : s'.uses = d :: s.uses) : s'.age d = 0 := by
  unfold History.age
  rw [h, List.idxOf_cons_self]

theorem age_of_other_use {lower : CStr} (h : s'.uses = lower :: s.uses) (hne : d ≠ lower) :
    s'.age d = s.age d + 1 := by
  unfold History.age
  rw [h, List.idxOf_cons_ne _ hne.symm]

theorem age_le_of_call (hs : call s g = some s') (d : CStr) : s'.age d ≤ s.age d + 1 := by
  have huses := uses_of_call hs
  split at huses
  · by_cases hd : d = g.lower
    · rw [age_of_use (hd ▸ huses)]
      exact Nat.zero_le _
    · exact (age_of_other_use huses hd).le
  · unfold History.age
    rw [huses]
    exact Nat.le_succ _

/-- Domains in the cache have different ages. -/
theorem Ticked.age_inj (ht : Ticked s) (hi : slot s.cache.cache i = some e)
    (hj : slot s.cache.cache j = some e') (h : s.age e.domain = s.age e'.domain) : i = j := by
  have hlt : s.age e.domain < s.uses.length := by
    have hpos := ht.lastUsed i e hi
    omega
  have hlt' : s.age e'.domain < s.uses.length := by
    have hpos := ht.lastUsed j e' hj
    omega
  have hdomain : e.domain = e'.domain := by
    have hget := List.getElem_idxOf hlt
    have hget' := List.getElem_idxOf hlt'
    unfold History.age at h
    simp only [h] at hget
    exact hget.symm.trans hget'
  exact ht.known.sound.unique i j e e' hi hj hdomain

/-! ## One call -/

/-- Writing the entry of the domain just used, whose tick is the new one. -/
theorem Ticked.write (ht : Ticked s) (hk : Known s'.issuer) {w : CertEntry χ κ} {grown : Bool}
    (hlt : i < s.cache.cache.length) (huses : s'.uses = w.domain :: s.uses)
    (hlast : w.lastUsed = s.cache.tick + 1) (hcache : s'.cache = s.cache.store i w grown)
    (hother : ∀ j o, slot s.cache.cache j = some o → j ≠ i → o.domain ≠ w.domain) :
    Ticked s' := by
  have htick := ht.tick
  refine ⟨hk, ?_, fun j o hj => ?_⟩
  · rw [hcache, huses, List.length_cons]
    exact congrArg (· + 1) htick
  · rw [hcache] at hj
    rw [huses, List.length_cons]
    by_cases hij : i = j
    · subst hij
      obtain rfl := Option.some.inj ((slot_set_self hlt).symm.trans hj)
      rw [age_of_use huses]
      omega
    · have hold := (slot_set_of_ne hij).symm.trans hj
      rw [age_of_other_use huses (hother j o hold (Ne.symm hij))]
      have hlast := ht.lastUsed j o hold
      omega

theorem ticked_call (ht : Ticked s) (hs : call s g = some s') : Ticked s' := by
  have hk := known_of_call ht.known hs
  rcases call_cases hs with ⟨-, hcache, huses⟩ | ⟨i, e, hi, hkey, -, huses, hcache⟩ |
    ⟨pair, hfree, -, -, huses, hcache⟩
  · refine ⟨hk, ?_, ?_⟩
    · rw [hcache, huses, ht.tick]
    · intro j o hj
      rw [hcache] at hj
      unfold History.age
      rw [huses]
      exact ht.lastUsed j o hj
  · refine ht.write hk (lt_of_slot hi) (hkey ▸ huses) rfl hcache fun j o hj hne ho => hne ?_
    exact ht.known.sound.unique j i o e hj hi ho
  · obtain ⟨i, grown, hlt, hins, -⟩ := insert_victim s.cache g.lower pair
    refine ht.write hk hlt huses rfl (hcache.trans hins) fun j o hj _ ho => ?_
    exact ht.known.sound.key_ne hfree hj ho

theorem ticked_start (hs : Starts s) : Ticked s := by
  have hk := known_start hs.1
  have hcache : s.cache = .empty := congrArg Issuer.cache hs.1
  refine ⟨hk, ?_, fun i e hi => ?_⟩
  · rw [hs.2, hcache]
    rfl
  · rw [hcache] at hi
    have hnone : slot (CertCache.empty : CertCache χ κ).cache i = none := by
      unfold slot CertCache.empty
      rw [List.getElem?_replicate]
      split <;> rfl
    rw [hnone] at hi
    cases hi

/-- An entry that is not kept was the oldest of the window of an insertion. -/
theorem kept_or_evicted (ht : Ticked s) (hs : call s g = some s')
    (hi : slot s.cache.cache i = some e) : Keeps s' i e ∨ Evicts s s' g i e := by
  rcases call_cases hs with ⟨-, hcache, -⟩ | ⟨j, o, hj, -, -, -, hcache⟩ |
    ⟨pair, hfree, hprod, -, -, hcache⟩
  · exact .inl ⟨e.lastUsed, by rw [hcache, hi]⟩
  · refine .inl ?_
    unfold Keeps
    rw [hcache]
    by_cases hij : j = i
    · subst hij
      obtain rfl := Option.some.inj (hj.symm.trans hi)
      exact ⟨_, slot_set_self (lt_of_slot hj)⟩
    · exact ⟨e.lastUsed, (slot_set_of_ne hij).trans hi⟩
  · obtain ⟨j, grown, hlt, hins, hvictim⟩ := insert_victim s.cache g.lower pair
    rw [hins] at hcache
    by_cases hij : j = i
    · subst hij
      obtain ⟨hmem, hfull⟩ := hvictim e hi
      have hgen : g.Generates s.cache ∧ g.generate g.lower = some pair := by
        unfold GetCert.produced at hprod
        split at hprod
        · next hgen =>
          obtain ⟨p, hp, heq⟩ := Option.map_eq_some_iff.mp hprod
          obtain ⟨-, rfl⟩ := Prod.mk.inj heq
          exact ⟨hgen, hp⟩
        · cases hprod
      refine .inr ⟨hgen.1, ⟨pair, s.cache.tick + 1, hgen.2, ?_⟩, hmem, fun k hk hne => ?_⟩
      · rw [hcache]
        exact slot_set_self hlt
      · obtain ⟨o, ho, hle⟩ := hfull k hk
        refine ⟨o, ho, ?_⟩
        have hlast := ht.lastUsed j e hi
        have hlast' := ht.lastUsed k o ho
        -- not older, and as the domains differ not of the same age
        have hne' : s.age o.domain ≠ s.age e.domain := fun h => hne (ht.age_inj ho hi h)
        omega
    · refine .inl ⟨e.lastUsed, ?_⟩
      rw [hcache]
      exact (slot_set_of_ne hij).trans hi

/-- Fifteen domains have been used since the last use of one that is evicted. -/
theorem Evicts.age_ge (ht : Ticked s) (h : Evicts s s' g i e) : 15 ≤ s.age e.domain := by
  classical
  have hage : ∀ j, ∃ a, j ∈ probeWindow g.lower → j ≠ i →
      ∃ o, slot s.cache.cache j = some o ∧ s.age o.domain = a ∧ a < s.age e.domain := by
    intro j
    by_cases hj : j ∈ probeWindow g.lower ∧ j ≠ i
    · obtain ⟨o, ho, hlt⟩ := h.younger j hj.1 hj.2
      exact ⟨_, fun _ _ => ⟨o, ho, rfl, hlt⟩⟩
    · exact ⟨0, fun hmem hne => absurd ⟨hmem, hne⟩ hj⟩
  choose age hage using hage
  have hcard : ((probeWindow g.lower).toFinset.erase i).card = 15 := by
    rw [Finset.card_erase_of_mem (List.mem_toFinset.mpr h.inWindow),
      List.toFinset_card_of_nodup (nodup_probeWindow g.lower)]
    simp [probeWindow, cacheProbe]
  have hrange : ((probeWindow g.lower).toFinset.erase i).card ≤
      (Finset.range (s.age e.domain)).card := by
    refine Finset.card_le_card_of_injOn age ?_ ?_
    · intro j hj
      obtain ⟨hne, hmem⟩ := Finset.mem_erase.mp hj
      obtain ⟨o, -, -, hlt⟩ := hage j (List.mem_toFinset.mp hmem) hne
      exact Finset.mem_coe.mpr (Finset.mem_range.mpr hlt)
    · intro j hj k hk hjk
      obtain ⟨hne, hmem⟩ := Finset.mem_erase.mp hj
      obtain ⟨hne', hmem'⟩ := Finset.mem_erase.mp hk
      obtain ⟨o, ho, hao, -⟩ := hage j (List.mem_toFinset.mp hmem) hne
      obtain ⟨o', ho', hao', -⟩ := hage k (List.mem_toFinset.mp hmem') hne'
      refine ht.age_inj ho ho' ?_
      rw [hao, hao']
      exact hjk
  rw [hcard, Finset.card_range] at hrange
  exact hrange

/-! ## Every run -/

/-- An entry of a domain used at most `n` calls ago survives the next `15 - n` calls. -/
theorem survives {later : List (GetCert χ κ)} (ht : Ticked s)
    (hi : slot s.cache.cache i = some e) (hage : s.age e.domain + later.length ≤ 15)
    (hrun : run call s later = some t) : Ticked t ∧ Keeps t i e := by
  induction later generalizing s e with
  | nil =>
    obtain rfl := Option.some.inj hrun
    exact ⟨ht, e.lastUsed, hi⟩
  | cons g later ih =>
    obtain ⟨s', hs, hrest⟩ := Option.bind_eq_some_iff.mp hrun
    rw [List.length_cons] at hage
    rcases kept_or_evicted ht hs hi with ⟨u, hu⟩ | hevicts
    · have hgrow := age_le_of_call hs e.domain
      have hyoung : s'.age e.domain + later.length ≤ 15 := by omega
      exact ih (e := { e with lastUsed := u }) (ticked_call ht hs) hu hyoung hrest
    · have hold := hevicts.age_ge ht
      omega

theorem Ticked.found (ht : Ticked s) (hi : slot s.cache.cache i = some e) (hd : e.domain = d) :
    certLayout.find d s.cache.cache = some (i, e) := by
  have hfound := ht.known.sound.find hi
  rwa [show certLayout.key e = d from hd] at hfound

/-- The entry a call that succeeds was answered from, or has inserted. -/
theorem answered_entry (hs : call s g = some s') {pair : χ × κ}
    (ha : (g.answer s.cache).1 = some pair) :
    ∃ i u, slot s'.cache.cache i = some ⟨g.lower, pair.1, pair.2, u⟩ ∧ s'.age g.lower = 0 := by
  rcases call_cases hs with ⟨hans, -, -⟩ | ⟨i, e, hi, hkey, hans, huses, hcache⟩ |
    ⟨new, -, -, hans, huses, hcache⟩
  · rw [hans] at ha
    cases ha
  · rw [hans] at ha
    obtain rfl := Option.some.inj ha
    refine ⟨i, s.cache.tick + 1, ?_, age_of_use huses⟩
    rw [hcache, ← hkey]
    exact slot_set_self (lt_of_slot hi)
  · rw [hans] at ha
    obtain rfl := Option.some.inj ha
    obtain ⟨i, grown, hlt, hins, -⟩ := insert_victim s.cache g.lower new
    refine ⟨i, s.cache.tick + 1, ?_, age_of_use huses⟩
    rw [hcache, hins]
    exact slot_set_self hlt

theorem exists_call (s : History χ κ) (g : GetCert χ κ) : ∃ t, call s g = some t := ⟨_, rfl⟩

/-- The calls run whatever the state. -/
theorem exists_run (s : History χ κ) (gs : List (GetCert χ κ)) : ∃ t, run call s gs = some t := by
  induction gs generalizing s with
  | nil => exact ⟨s, rfl⟩
  | cons g gs ih =>
    obtain ⟨s', hs⟩ := exists_call s g
    rw [run_cons, hs]
    exact ih s'

/-- In every run an entry goes only by an insertion in whose window, of sixteen slots, it is the one
used longest ago; and the next fifteen calls after one that succeeds still find its certificate. -/
theorem certificate_lru (hr : Reach call (fun _ _ => True) Starts s) (hs : call s g = some s') :
    (∀ i e, slot s.cache.cache i = some e → Keeps s' i e ∨ Evicts s s' g i e) ∧
    ((probeWindow g.lower).Nodup ∧ (probeWindow g.lower).length = 16) ∧
    ∀ pair, (g.answer s.cache).1 = some pair → ∀ later : List (GetCert χ κ), later.length ≤ 15 →
      ∀ t, run call s' later = some t →
        ∃ i u, certLayout.find g.lower t.cache.cache = some (i, ⟨g.lower, pair.1, pair.2, u⟩) := by
  have ht : Ticked s :=
    hr.invariant (fun _ => ticked_start) fun _ _ _ ht _ hs => ticked_call ht hs
  refine ⟨fun i e hi => kept_or_evicted ht hs hi, ⟨nodup_probeWindow _, ?_⟩, ?_⟩
  · simp [probeWindow, cacheProbe]
  · intro pair ha later hlen t hrun
    obtain ⟨i, u, hi, hage⟩ := answered_entry hs ha
    have hyoung : s'.age g.lower + later.length ≤ 15 := by omega
    obtain ⟨ht', v, hv⟩ := survives (ticked_call ht hs) hi hyoung hrun
    exact ⟨i, v, ht'.found hv rfl⟩

def fresh : History Nat Nat := ⟨⟨.empty, []⟩, []⟩

theorem starts_fresh : Starts fresh := ⟨rfl, rfl⟩

/-- The certificate of the first request is there after two requests of other domains. -/
theorem certificate_lru_found : ∃ s' t,
    call fresh (CertCacheIntegrity.request "example.com" 1) = some s' ∧
    run call s' [CertCacheIntegrity.request "example.org" 2,
      CertCacheIntegrity.request "example.net" 3] = some t ∧
    ∃ i u, certLayout.find (lit "example.com") t.cache.cache =
      some (i, ⟨lit "example.com", 11, 1, u⟩) := by
  have hans : ((CertCacheIntegrity.request "example.com" 1).answer fresh.cache).1 =
      some (11, 1) := by decide +kernel
  have hlower : (CertCacheIntegrity.request "example.com" 1).lower = lit "example.com" := by
    decide +kernel
  obtain ⟨s', hs⟩ := exists_call fresh (CertCacheIntegrity.request "example.com" 1)
  obtain ⟨t, hrun⟩ := exists_run s' [CertCacheIntegrity.request "example.org" 2,
    CertCacheIntegrity.request "example.net" 3]
  have hfound := (certificate_lru (.start starts_fresh) hs).2.2 (11, 1) hans _ (by decide) t hrun
  rw [hlower] at hfound
  exact ⟨s', t, hs, hrun, hfound⟩

end Proxiflare.Guarantees.CertCacheRecency
