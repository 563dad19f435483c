import Proxiflare.Daemon.Types
import Proxiflare.Daemon.Libc
import Proxiflare.Lib.ProbeTable

/-!
# Certificate cache

`pf_mitm_get_cert` of `daemon/src/mitm.c`. The generation of a certificate and its
key is a parameter and may fail. `g_tick` is a natural number: it would take 2^64 calls
for it to wrap. Calls hold `cache_lock` throughout.
-/

namespace Proxiflare.Daemon

open Lib.CString Lib.ProbeTable

def pfMitmCertCacheSize : Nat := 256

def cacheMask : Nat := pfMitmCertCacheSize - 1

def cacheProbe : Nat := 16

def fnv1a64Lower (s : CStr) : UInt64 :=
  s.foldl (fun h c => (h ^^^ (tolower c).toUInt64) * 1099511628211) 14695981039346656037

/-- The characters `domain_is_safe` lets through. -/
def domainChar (c : UInt8) : Bool :=
  isDigit c || (65 ≤ c && c ≤ 90) || (97 ≤ c && c ≤ 122) || c = 46 || c = 45 || c = 95

def domainIsSafe (d : CStr) : Bool :=
  d ≠ [] && d.length ≤ pfDomainMax && d.all domainChar

/-- An entry with `used` set; a slot without one is empty. -/
structure CertEntry (χ κ : Type) where
  domain : CStr
  cert : χ
  key : κ
  lastUsed : Nat

/-- `cache` and `cache_count` of `pf_mitm_t`, and `g_tick`. -/
structure CertCache (χ κ : Type) where
  cache : List (Option (CertEntry χ κ))
  cacheCount : Nat
  tick : Nat
  size : cache.length = pfMitmCertCacheSize

variable {χ κ : Type}

def CertCache.empty : CertCache χ κ where
  cache := List.replicate pfMitmCertCacheSize none
  cacheCount := 0
  tick := 0
  size := List.length_replicate

/-- The first slot of a domain. -/
def hashBase (lower : CStr) : Nat := (fnv1a64Lower lower).toNat &&& cacheMask

def probeIdx (lower : CStr) (step : Nat) : Nat := (hashBase lower + step) &&& cacheMask

/-- The slots of both probe loops. -/
def probeWindow (lower : CStr) : List Nat := (List.range cacheProbe).map (probeIdx lower)

def certLayout : Layout (CertEntry χ κ) CStr where
  key := CertEntry.domain
  probes := probeWindow

/-- The insert phase: the first empty slot, and true; in a full window the slot used longest
ago, and false. `lru` is the oldest of the slots passed. -/
def insertIdx (slots : List (Option (CertEntry χ κ))) (lru : Option (Nat × Nat)) :
    List Nat → Option (Nat × Bool)
  | [] => lru.map fun l => (l.1, false)
  | i :: is => match slot slots i, lru with
    | none, _ => some (i, true)
    | some e, none => insertIdx slots (some (i, e.lastUsed)) is
    | some e, some l => insertIdx slots (some (if e.lastUsed < l.2 then (i, e.lastUsed) else l)) is

namespace CertCache

def store (c : CertCache χ κ) (i : Nat) (e : CertEntry χ κ) (grown : Bool) : CertCache χ κ where
  cache := c.cache.set i (some e)
  cacheCount := if grown then c.cacheCount + 1 else c.cacheCount
  tick := c.tick + 1
  size := by rw [List.length_set, c.size]

def insert (c : CertCache χ κ) (lower : CStr) (pair : χ × κ) : CertCache χ κ :=
  ((insertIdx c.cache none (probeWindow lower)).map fun (i, grown) =>
    c.store i ⟨lower, pair.1, pair.2, c.tick + 1⟩ grown).getD c

/-- `ca_key` is whether the CA is loaded; `none` is `PF_ERR`. -/
def pfMitmGetCert (caKey : Bool) (generate : CStr → Option (χ × κ)) (domain : CStr)
    (c : CertCache χ κ) : Option (χ × κ) × CertCache χ κ :=
  if !caKey || !domainIsSafe domain then (none, c)
  else
    let lower := domain.map tolower
    match certLayout.find lower c.cache with
    | some (i, e) => (some (e.cert, e.key), c.store i { e with lastUsed := c.tick + 1 } false)
    | none => match generate lower with
      | none => (none, c)
      | some pair => (some pair, c.insert lower pair)

/-! ## What the insert phase writes -/

variable {slots : List (Option (CertEntry χ κ))} {i : Nat}

theorem insertIdx_spec {lru : Option (Nat × Nat)} {is : List Nat} {grown : Bool}
    (h : insertIdx slots lru is = some (i, grown)) :
    grown = true ∧ slot slots i = none ∧
        (∃ pre post, is = pre ++ i :: post ∧ ∀ j ∈ pre, Occupied slots j) ∨
      grown = false ∧ (∀ j ∈ is, Occupied slots j) ∧ (i ∈ is ∨ ∃ t, lru = some (i, t)) := by
  induction is generalizing lru with
  | nil =>
    obtain ⟨l, rfl, hl⟩ := Option.map_eq_some_iff.mp h
    obtain ⟨rfl, rfl⟩ := Prod.mk.inj hl
    exact .inr ⟨rfl, by simp, .inr ⟨l.2, rfl⟩⟩
  | cons j js ih =>
    unfold insertIdx at h
    cases hslot : slot slots j with
    | none =>
      rw [hslot] at h
      obtain ⟨rfl, rfl⟩ := Prod.mk.inj (Option.some.inj h)
      exact .inl ⟨rfl, hslot, [], js, rfl, by simp⟩
    | some e =>
      have hocc : Occupied slots j := by
        unfold Occupied
        rw [hslot]
        rfl
      -- the slot passed becomes the oldest one, or the one before it stays so
      have hrest : ∃ l, insertIdx slots (some l) js = some (i, grown) ∧
          (l.1 = j ∨ lru = some l) := by
        rw [hslot] at h
        cases lru with
        | none => exact ⟨_, h, .inl rfl⟩
        | some l =>
          refine ⟨_, h, ?_⟩
          by_cases hold : e.lastUsed < l.2
          · simp [hold]
          · simp [hold]
      obtain ⟨l, hl, hfrom⟩ := hrest
      rcases ih hl with ⟨hg, hempty, pre, post, rfl, hpre⟩ | ⟨hg, hall, hin⟩
      · refine .inl ⟨hg, hempty, j :: pre, post, rfl, ?_⟩
        exact List.forall_mem_cons.mpr ⟨hocc, hpre⟩
      · refine .inr ⟨hg, List.forall_mem_cons.mpr ⟨hocc, hall⟩, ?_⟩
        rcases hin with hin | ⟨t, ht⟩
        · exact .inl (List.mem_cons_of_mem j hin)
        · obtain rfl := Option.some.inj ht
          rcases hfrom with rfl | hlru
          · exact .inl (List.mem_cons_self ..)
          · exact .inr ⟨t, hlru⟩

theorem insertIdx_isSome {lru : Option (Nat × Nat)} {is : List Nat}
    (h : is ≠ [] ∨ lru.isSome = true) : (insertIdx slots lru is).isSome = true := by
  induction is generalizing lru with
  | nil =>
    rcases h with h | h
    · exact absurd rfl h
    · unfold insertIdx
      rwa [Option.isSome_map]
  | cons j js ih =>
    unfold insertIdx
    cases slot slots j with
    | none => rfl
    | some e =>
      cases lru with
      | none => exact ih (.inr rfl)
      | some l => exact ih (.inr rfl)

/-- A slot given up is the one used longest ago of those passed. -/
theorem insertIdx_oldest {lru : Option (Nat × Nat)} {is : List Nat}
    (h : insertIdx slots lru is = some (i, false)) :
    ∃ t, (lru = some (i, t) ∨ ∃ e, slot slots i = some e ∧ e.lastUsed = t) ∧
      (∀ l, lru = some l → t ≤ l.2) ∧
      ∀ j ∈ is, ∀ e, slot slots j = some e → t ≤ e.lastUsed := by
  induction is generalizing lru with
  | nil =>
    obtain ⟨l, rfl, hl⟩ := Option.map_eq_some_iff.mp h
    obtain ⟨rfl, -⟩ := Prod.mk.inj hl
    refine ⟨l.2, .inl rfl, fun l' hl' => ?_, by simp⟩
    obtain rfl := Option.some.inj hl'
    exact Nat.le_refl _
  | cons j js ih =>
    unfold insertIdx at h
    cases hslot : slot slots j with
    | none =>
      rw [hslot] at h
      cases h
    | some e =>
      rw [hslot] at h
      -- the oldest slot so far, with this one counted
      have hrest : ∃ l, insertIdx slots (some l) js = some (i, false) ∧
          (lru = some l ∨ slot slots l.1 = some e ∧ e.lastUsed = l.2) ∧
          l.2 ≤ e.lastUsed ∧ ∀ l', lru = some l' → l.2 ≤ l'.2 := by
        cases lru with
        | none => exact ⟨_, h, .inr ⟨hslot, rfl⟩, Nat.le_refl _, by simp⟩
        | some l =>
          refine ⟨_, h, ?_⟩
          by_cases hold : e.lastUsed < l.2
          · rw [if_pos hold]
            refine ⟨.inr ⟨hslot, rfl⟩, Nat.le_refl _, fun l' hl' => ?_⟩
            obtain rfl := Option.some.inj hl'
            omega
          · rw [if_neg hold]
            refine ⟨.inl rfl, by omega, fun l' hl' => ?_⟩
            obtain rfl := Option.some.inj hl'
            exact Nat.le_refl _
      obtain ⟨l, hl, hfrom, hle, hlru⟩ := hrest
      obtain ⟨t, ht, hpast, hahead⟩ := ih hl
      have htl : t ≤ l.2 := hpast l rfl
      refine ⟨t, ?_, fun l' hl' => htl.trans (hlru l' hl'), fun k hk o ho => ?_⟩
      · rcases ht with ht | ht
        · obtain rfl := Option.some.inj ht
          rcases hfrom with hfrom | hfrom
          · exact .inl hfrom
          · exact .inr ⟨e, hfrom⟩
        · exact .inr ht
      · rcases List.mem_cons.mp hk with rfl | hk
        · rw [hslot] at ho
          obtain rfl := Option.some.inj ho
          omega
        · exact hahead k hk o ho

theorem probeIdx_lt (lower : CStr) (step : Nat) : probeIdx lower step < pfMitmCertCacheSize :=
  Nat.and_lt_two_pow (hashBase lower + step) (n := 8) (by decide)

theorem lt_of_mem_probeWindow {lower : CStr} (h : i ∈ probeWindow lower) :
    i < pfMitmCertCacheSize := by
  obtain ⟨step, -, rfl⟩ := List.mem_map.mp h
  exact probeIdx_lt lower step

/-- A new entry goes to a slot its search gets to, and is counted if that was empty. -/
theorem insert_spec (c : CertCache χ κ) (lower : CStr) (pair : χ × κ) :
    ∃ i, i < c.cache.length ∧ certLayout.Open lower c.cache i ∧
      c.insert lower pair =
        c.store i ⟨lower, pair.1, pair.2, c.tick + 1⟩ (slot c.cache i).isNone := by
  have hsome : (insertIdx c.cache none (probeWindow lower)).isSome = true :=
    insertIdx_isSome (.inl (by simp [probeWindow, cacheProbe]))
  obtain ⟨⟨i, grown⟩, hi⟩ := Option.isSome_iff_exists.mp hsome
  have hins : c.insert lower pair = c.store i ⟨lower, pair.1, pair.2, c.tick + 1⟩ grown := by
    unfold insert
    rw [hi]
    rfl
  rcases insertIdx_spec hi with ⟨rfl, hempty, hopen⟩ | ⟨rfl, hall, hin⟩
  · obtain ⟨pre, post, hprobes, hocc⟩ := hopen
    refine ⟨i, ?_, ⟨pre, post, hprobes, hocc⟩, ?_⟩
    · rw [c.size]
      exact lt_of_mem_probeWindow (hprobes ▸ List.mem_append_right pre (List.mem_cons_self ..))
    · rw [hins, hempty]
      rfl
  · have hmem := hin.resolve_right fun h => by
      obtain ⟨t, ht⟩ := h
      cases ht
    obtain ⟨pre, post, hprobes⟩ := List.append_of_mem hmem
    refine ⟨i, ?_, ⟨pre, post, hprobes, fun j hj => hall j ?_⟩, ?_⟩
    · rw [c.size]
      exact lt_of_mem_probeWindow hmem
    · rw [hprobes]
      exact List.mem_append_left _ hj
    · obtain ⟨o, ho⟩ := Option.isSome_iff_exists.mp (hall i hmem)
      rw [hins, ho]
      rfl

theorem probeIdx_eq_mod (lower : CStr) (step : Nat) :
    probeIdx lower step = (hashBase lower + step) % 256 :=
  Nat.and_two_pow_sub_one_eq_mod _ 8

theorem nodup_probeWindow (lower : CStr) : (probeWindow lower).Nodup := by
  refine List.Nodup.map_on ?_ List.nodup_range
  intro s hs t ht h
  rw [probeIdx_eq_mod, probeIdx_eq_mod] at h
  have hs := List.mem_range.mp hs
  have ht := List.mem_range.mp ht
  unfold cacheProbe at hs ht
  omega

/-- A new entry goes to an empty slot, or in a full window over the entry used longest ago. -/
theorem insert_victim (c : CertCache χ κ) (lower : CStr) (pair : χ × κ) :
    ∃ i grown, i < c.cache.length ∧
      c.insert lower pair = c.store i ⟨lower, pair.1, pair.2, c.tick + 1⟩ grown ∧
      ∀ v, slot c.cache i = some v → i ∈ probeWindow lower ∧
        ∀ j ∈ probeWindow lower, ∃ e, slot c.cache j = some e ∧ v.lastUsed ≤ e.lastUsed := by
  have hsome : (insertIdx c.cache none (probeWindow lower)).isSome = true :=
    insertIdx_isSome (.inl (by simp [probeWindow, cacheProbe]))
  obtain ⟨⟨i, grown⟩, hi⟩ := Option.isSome_iff_exists.mp hsome
  have hins : c.insert lower pair = c.store i ⟨lower, pair.1, pair.2, c.tick + 1⟩ grown := by
    unfold insert
    rw [hi]
    rfl
  rcases insertIdx_spec hi with ⟨rfl, hempty, pre, post, hprobes, -⟩ | ⟨rfl, hall, hin⟩
  · have hmem : i ∈ probeWindow lower := hprobes ▸ List.mem_append_right pre (List.mem_cons_self ..)
    refine ⟨i, true, by rw [c.size]; exact lt_of_mem_probeWindow hmem, hins, fun v hv => ?_⟩
    rw [hempty] at hv
    cases hv
  · have hmem := hin.resolve_right fun h => by
      obtain ⟨t, ht⟩ := h
      cases ht
    refine ⟨i, false, by rw [c.size]; exact lt_of_mem_probeWindow hmem, hins, fun v hv => ?_⟩
    refine ⟨hmem, fun j hj => ?_⟩
    obtain ⟨t, ht, -, hold⟩ := insertIdx_oldest hi
    have htv : v.lastUsed = t := by
      rcases ht with ht | ⟨o, ho, rfl⟩
      · cases ht
      · rw [hv] at ho
        obtain rfl := Option.some.inj ho
        rfl
    obtain ⟨e, he⟩ := Option.isSome_iff_exists.mp (hall j hj)
    exact ⟨e, he, htv ▸ hold j hj e he⟩

end CertCache

end Proxiflare.Daemon
