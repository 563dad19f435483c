import Proxiflare.Daemon.CertCache
import Proxiflare.Lib.Runs

/-!
# The certificate cache over all runs

Every slot of the probe window before an entry is in use when the entry is written, and
no slot is ever emptied; so eviction, which overwrites inside a full window, breaks no
probe chain. Beside the cache the certificates generated so far are kept, newest first.
-/

namespace Proxiflare.Guarantees.CertCacheIntegrity

open Lib.Runs Lib.CString Lib.ProbeTable
open Proxiflare.Daemon Proxiflare.Daemon.CertCache

variable {χ κ : Type}

/-- One call of `pf_mitm_get_cert`, with what the generation would give. -/
structure GetCert (χ κ : Type) where
  caKey : Bool
  generate : CStr → Option (χ × κ)
  domain : CStr

namespace GetCert

def lower (g : GetCert χ κ) : CStr := g.domain.map tolower

def answer (g : GetCert χ κ) (c : CertCache χ κ) : Option (χ × κ) × CertCache χ κ :=
  pfMitmGetCert g.caKey g.generate g.domain c

/-- The call gets to the generation of a certificate. -/
def Generates (g : GetCert χ κ) (c : CertCache χ κ) : Prop :=
  g.caKey = true ∧ domainIsSafe g.domain = true ∧ certLayout.find g.lower c.cache = none

instance (g : GetCert χ κ) (c : CertCache χ κ) : Decidable (g.Generates c) :=
  decidable_of_iff (g.caKey = true ∧ domainIsSafe g.domain = true ∧
    (certLayout.find g.lower c.cache).isNone = true) (by simp [Generates])

def produced (g : GetCert χ κ) (c : CertCache χ κ) : Option (CStr × (χ × κ)) :=
  if g.Generates c then (g.generate g.lower).map fun pair => (g.lower, pair) else none

end GetCert

/-- The cache, and every certificate generated with its domain, newest first. -/
structure Issuer (χ κ : Type) where
  cache : CertCache χ κ
  generated : List (CStr × (χ × κ))

def step (s : Issuer χ κ) (g : GetCert χ κ) : Option (Issuer χ κ) :=
  some ⟨(g.answer s.cache).2, (g.produced s.cache).toList ++ s.generated⟩

def Starts (s : Issuer χ κ) : Prop := s = ⟨.empty, []⟩

/-- `i` is within the probe window of a domain, and all slots from its hash base to `i` are used. -/
def InWindow (lower : CStr) (slots : List (Option (CertEntry χ κ))) (i : Nat) : Prop :=
  ∃ step < cacheProbe, i = probeIdx lower step ∧ ∀ t ≤ step, Occupied slots (probeIdx lower t)

structure Integrity (c : CertCache χ κ) : Prop where
  oneSlot : ∀ i j e e', slot c.cache i = some e → slot c.cache j = some e' →
    e.domain.map tolower = e'.domain.map tolower → i = j
  inWindow : ∀ i e, slot c.cache i = some e → InWindow e.domain c.cache i
  found : ∀ i e, slot c.cache i = some e → certLayout.find e.domain c.cache = some (i, e)
  count : c.cacheCount = used c.cache

/-- What every call keeps. -/
structure Known (s : Issuer χ κ) : Prop where
  sound : certLayout.Sound s.cache.cache
  count : s.cache.cacheCount = used s.cache.cache
  lowered : ∀ i e, slot s.cache.cache i = some e → e.domain.map tolower = e.domain
  issued : ∀ i e, slot s.cache.cache i = some e →
    s.generated.lookup e.domain = some (e.cert, e.key)

variable {s s' : Issuer χ κ} {g : GetCert χ κ} {c : CertCache χ κ} {i : Nat}

theorem map_tolower_idem (d : CStr) : (d.map tolower).map tolower = d.map tolower := by
  have hidem : tolower ∘ tolower = tolower := ext_bytes (by decide +kernel)
  rw [List.map_map, hidem]

/-! ## One call -/

/-- Nothing happens, or the domain is found, or a new certificate is inserted. -/
theorem answer_cases (g : GetCert χ κ) (c : CertCache χ κ) :
    g.answer c = (none, c) ∧ g.produced c = none ∨
    (∃ i e, certLayout.find g.lower c.cache = some (i, e) ∧ g.produced c = none ∧
      g.answer c =
        (some (e.cert, e.key), c.store i { e with lastUsed := c.tick + 1 } false)) ∨
    ∃ pair, certLayout.find g.lower c.cache = none ∧ g.produced c = some (g.lower, pair) ∧
      g.answer c = (some pair, c.insert g.lower pair) := by
  by_cases hok : g.caKey = true ∧ domainIsSafe g.domain = true
  · have hgo : (!g.caKey || !domainIsSafe g.domain) = false := by
      rw [hok.1, hok.2]
      rfl
    cases hfind : certLayout.find g.lower c.cache with
    | some found =>
      have hnot : ¬ g.Generates c := fun h => by
        rw [h.2.2] at hfind
        cases hfind
      refine .inr (.inl ⟨found.1, found.2, rfl, if_neg hnot, ?_⟩)
      unfold GetCert.answer pfMitmGetCert
      simp only [hgo, Bool.false_eq_true, if_false]
      unfold GetCert.lower at hfind
      rw [hfind]
    | none =>
      have hgen : g.Generates c := ⟨hok.1, hok.2, hfind⟩
      have hprod : g.produced c = (g.generate g.lower).map fun pair => (g.lower, pair) :=
        if_pos hgen
      have hrun : g.answer c = (g.generate g.lower).elim (none, c)
          fun pair => (some pair, c.insert g.lower pair) := by
        unfold GetCert.answer pfMitmGetCert
        simp only [hgo, Bool.false_eq_true, if_false]
        unfold GetCert.lower at hfind ⊢
        rw [hfind]
        cases g.generate (g.domain.map tolower) <;> rfl
      cases hout : g.generate g.lower with
      | none =>
        rw [hout] at hprod hrun
        exact .inl ⟨hrun, hprod⟩
      | some pair =>
        rw [hout] at hprod hrun
        exact .inr (.inr ⟨pair, rfl, hprod, hrun⟩)
  · refine .inl ⟨if_pos ?_, if_neg fun h => hok ⟨h.1, h.2.1⟩⟩
    by_cases hca : g.caKey = true
    · have hname : domainIsSafe g.domain = false :=
        Bool.eq_false_iff.mpr fun h => hok ⟨hca, h⟩
      rw [hname, Bool.not_false, Bool.or_true]
    · rw [Bool.eq_false_iff.mpr hca, Bool.not_false, Bool.true_or]

/-- A hit rewrites the entry that was found. -/
theorem known_hit (hk : Known s) {e : CertEntry χ κ} (hi : slot s.cache.cache i = some e)
    (t : Nat) : Known ⟨s.cache.store i { e with lastUsed := t } false, s.generated⟩ where
  sound := hk.sound.rewrite hi rfl
  count := (used_set_occupied hi).symm ▸ hk.count
  lowered j o hj := by
    by_cases hij : i = j
    · subst hij
      obtain rfl := Option.some.inj ((slot_set_self (lt_of_slot hi)).symm.trans hj)
      exact hk.lowered i e hi
    · exact hk.lowered j o ((slot_set_of_ne hij).symm.trans hj)
  issued j o hj := by
    by_cases hij : i = j
    · subst hij
      obtain rfl := Option.some.inj ((slot_set_self (lt_of_slot hi)).symm.trans hj)
      exact hk.issued i e hi
    · exact hk.issued j o ((slot_set_of_ne hij).symm.trans hj)

/-- A new entry; whatever was in its slot is gone, and no other entry has its domain. -/
theorem known_insert (hk : Known s) {pair : χ × κ}
    (hfree : certLayout.find g.lower s.cache.cache = none) :
    Known ⟨s.cache.insert g.lower pair, (g.lower, pair) :: s.generated⟩ := by
  obtain ⟨i, hlt, hopen, hins⟩ := insert_spec s.cache g.lower pair
  rw [hins]
  constructor
  · exact hk.sound.insert hlt hfree hopen
  · cases hslot : slot s.cache.cache i with
    | none =>
      refine Eq.trans ?_ (used_set_empty hlt hslot).symm
      exact congrArg (· + 1) hk.count
    | some o => exact (used_set_occupied hslot).symm ▸ hk.count
  · intro j o hj
    by_cases hij : i = j
    · subst hij
      obtain rfl := Option.some.inj ((slot_set_self hlt).symm.trans hj)
      exact map_tolower_idem g.domain
    · exact hk.lowered j o ((slot_set_of_ne hij).symm.trans hj)
  · intro j o hj
    by_cases hij : i = j
    · subst hij
      obtain rfl := Option.some.inj ((slot_set_self hlt).symm.trans hj)
      exact List.lookup_cons_self
    · have hold := (slot_set_of_ne hij).symm.trans hj
      have hne : o.domain ≠ g.lower := hk.sound.key_ne hfree hold
      rw [List.lookup_cons, beq_eq_false_iff_ne.mpr hne]
      exact hk.issued j o hold

theorem known_step (hk : Known s) (hs : step s g = some s') : Known s' := by
  obtain rfl := Option.some.inj hs
  rcases answer_cases g s.cache with ⟨hans, hprod⟩ | ⟨i, e, hfind, hprod, hans⟩ |
    ⟨pair, hfind, hprod, hans⟩
  · rw [hans, hprod]
    exact hk
  · rw [hans, hprod]
    exact known_hit hk (Layout.find_some hfind).1 _
  · rw [hans, hprod]
    exact known_insert hk hfind

theorem known_start (hs : Starts s) : Known s := by
  have hnone : ∀ i, slot (CertCache.empty : CertCache χ κ).cache i = none := by
    intro i
    unfold slot CertCache.empty
    rw [List.getElem?_replicate]
    by_cases hi : i < pfMitmCertCacheSize
    · rw [if_pos hi]
      rfl
    · rw [if_neg hi]
      rfl
  rw [hs]
  constructor
  · exact Layout.sound_nil_slots hnone
  · unfold used CertCache.empty
    rw [List.countP_replicate]
    rfl
  · intro i e hi
    cases (hnone i).symm.trans hi
  · intro i e hi
    cases (hnone i).symm.trans hi

/-! ## Every run -/

theorem inWindow_of_open {lower : CStr} {e : CertEntry χ κ} (hi : slot c.cache i = some e)
    (h : certLayout.Open lower c.cache i) : InWindow lower c.cache i := by
  obtain ⟨pre, post, hprobes, hocc⟩ := h
  have hlen : pre.length < cacheProbe := by
    have hlen := congrArg List.length hprobes
    simp only [certLayout, probeWindow, List.length_map, List.length_range, List.length_append,
      List.length_cons] at hlen
    omega
  have hget : ∀ t < cacheProbe, (pre ++ i :: post)[t]? = some (probeIdx lower t) := by
    intro t ht
    rw [← hprobes]
    simp [certLayout, probeWindow, ht]
  have hat : i = probeIdx lower pre.length := by
    have hat := hget pre.length hlen
    rw [List.getElem?_append_right (Nat.le_refl _), Nat.sub_self] at hat
    exact Option.some.inj hat
  refine ⟨pre.length, hlen, hat, fun t ht => ?_⟩
  by_cases heq : t = pre.length
  · rw [heq, ← hat]
    unfold Occupied
    rw [hi]
    rfl
  · have hmem := hget t (by omega)
    rw [List.getElem?_append_left (by omega)] at hmem
    exact hocc _ (List.mem_of_getElem? hmem)

theorem Known.integrity (hk : Known s) : Integrity s.cache where
  oneSlot i j e e' hi hj h := by
    rw [hk.lowered i e hi, hk.lowered j e' hj] at h
    exact hk.sound.unique i j e e' hi hj h
  inWindow i e hi := inWindow_of_open hi (hk.sound.isOpen i e hi)
  found _ _ hi := hk.sound.find hi
  count := hk.count

/-- What a call returns is what was generated last for its domain. -/
theorem answer_issued (hk : Known s) (hs : step s g = some s') {pair : χ × κ}
    (ha : (g.answer s.cache).1 = some pair) : s'.generated.lookup g.lower = some pair := by
  obtain rfl := Option.some.inj hs
  rcases answer_cases g s.cache with ⟨hans, -⟩ | ⟨i, e, hfind, hprod, hans⟩ |
    ⟨new, -, hprod, hans⟩
  · rw [hans] at ha
    cases ha
  · rw [hans] at ha
    obtain rfl := Option.some.inj ha
    obtain ⟨hi, hkey⟩ := Layout.find_some hfind
    have hlast := hk.issued i e hi
    rw [hprod]
    rwa [show e.domain = g.lower from hkey] at hlast
  · rw [hans] at ha
    obtain rfl := Option.some.inj ha
    rw [hprod]
    exact List.lookup_cons_self

/-- After every sequence of calls the cache is intact, and every call that succeeds returns the
certificate generated last for the domain it asks for, whatever the case of its letters. -/
theorem cert_cache_integrity (hr : Reach step (fun _ _ => True) Starts s) :
    Integrity s.cache ∧ ∀ g s' pair, step s g = some s' → (g.answer s.cache).1 = some pair →
      s'.generated.lookup g.lower = some pair := by
  have hk : Known s := hr.invariant (fun _ => known_start) fun _ _ _ hk _ hs => known_step hk hs
  exact ⟨hk.integrity, fun g s' pair hs ha => answer_issued hk hs ha⟩

/-- A request of a domain, with a certificate numbered by its length. -/
def request (domain : String) (key : Nat) : GetCert Nat Nat :=
  ⟨true, fun lower => some (lower.length, key), lit domain⟩

def requestedOnce : Issuer Nat Nat :=
  ⟨((request "example.com" 1).answer .empty).2, ((request "example.com" 1).produced .empty).toList⟩

/-- A second request in other letters is answered with the first certificate. -/
theorem cert_cache_integrity_hit :
    ((request "Example.COM" 2).answer requestedOnce.cache).1 = some (11, 1) ∧
      requestedOnce.generated.lookup (lit "example.com") = some (11, 1) := by
  have hreach : Reach step (fun _ _ => True) Starts requestedOnce :=
    .next (l := request "example.com" 1) (.start rfl) trivial (by simp [step, requestedOnce])
  have hhit : ((request "Example.COM" 2).answer requestedOnce.cache).1 = some (11, 1) := by
    decide +kernel
  refine ⟨hhit, ?_⟩
  have hgen := (cert_cache_integrity hreach).2 (request "Example.COM" 2) _ _ rfl hhit
  have hprod : (request "Example.COM" 2).produced requestedOnce.cache = none := by decide +kernel
  rw [hprod] at hgen
  exact hgen

end Proxiflare.Guarantees.CertCacheIntegrity
