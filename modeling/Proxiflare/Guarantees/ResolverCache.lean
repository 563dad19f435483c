import Proxiflare.Daemon.DnsResolver

/-!
# What the resolver cache returns, and for how long

For every sequence of puts and lookups on a clock that does not go back: a hit is an
answer put for the same key less than a minute ago, and an answer that fits is found
for a minute unless 512 puts follow.
-/

namespace Proxiflare.Guarantees.ResolverCache

open Lib.CString Lib
open Proxiflare.Daemon

/-- A call and its name, as long as `extract_query_key` makes it. -/
inductive CacheCall where
  | put (name : CBuf 255) (qtype : UInt16) (resp : CStr)
  | lookup (name : CBuf 255) (qtype id : UInt16) (outLen : Nat)

def CacheCall.isPut : CacheCall → Bool
  | .put .. => true
  | .lookup .. => false

/-- The cache after a call at a time; a lookup leaves it as it is. -/
def call (c : DnsCache) : Int × CacheCall → DnsCache
  | (now, .put name qtype resp) => dnsCachePut c now name.chars qtype resp
  | (_, .lookup ..) => c

def after (calls : List (Int × CacheCall)) : DnsCache := calls.foldl call .start

/-! ## Soundness -/

/-- The slot holds what some put of the run stored. -/
def StoredBy (calls : List (Int × CacheCall)) (e : DnsCacheEntry) : Prop :=
  ∃ (tp : Int) (name : CBuf 255) (resp : CStr), (tp, .put name e.qtype resp) ∈ calls ∧
    e.name.chars = name.chars ∧ 2 ≤ resp.length ∧ e.resp = resp.drop 2 ∧
    e.expires = tp + dnsCacheTtlS

theorem StoredBy.mono {calls calls' : List (Int × CacheCall)} {e : DnsCacheEntry}
    (h : StoredBy calls e) (hsub : calls ⊆ calls') : StoredBy calls' e := by
  obtain ⟨tp, name, resp, hmem, hrest⟩ := h
  exact ⟨tp, name, resp, hsub hmem, hrest⟩

/-- A name of the callers is stored whole. -/
theorem snprintf_name (name : CBuf 255) : (CBuf.snprintf name.chars : CBuf 256).chars = name.chars :=
  CBuf.snprintf_of_fits (Nat.lt_succ_of_lt name.fits) name.noNul

theorem storedBy_call {calls : List (Int × CacheCall)} {c : DnsCache} (p : Int × CacheCall)
    (h : ∀ e ∈ c.slots, e.resp ≠ [] → StoredBy calls e) :
    ∀ e ∈ (call c p).slots, e.resp ≠ [] → StoredBy (calls ++ [p]) e := by
  intro e he hne
  obtain ⟨now, op⟩ := p
  cases op with
  | lookup => exact (h e he hne).mono (List.subset_append_left _ _)
  | put name qtype resp =>
    rcases WriteRing.mem_of_mem_writes he with he | he
    · obtain ⟨hname, rfl, hlen, hresp, hexpires⟩ := putEntry_some (Option.mem_toList.mp he)
      exact ⟨now, name, resp, by simp, by rw [hname, snprintf_name], hlen, hresp, hexpires⟩
    · exact (h e he hne).mono (List.subset_append_left _ _)

theorem storedBy_after (calls : List (Int × CacheCall)) :
    ∀ e ∈ (after calls).slots, e.resp ≠ [] → StoredBy calls e := by
  induction calls using List.reverseRecOn with
  | nil =>
    intro e he hne
    obtain rfl := List.eq_of_mem_replicate he
    exact absurd rfl hne
  | append_singleton calls p ih =>
    unfold after
    rw [List.foldl_concat]
    exact storedBy_call p ih

/-! ## Retention -/

/-- The entry a call writes. -/
def written : Int × CacheCall → Option DnsCacheEntry
  | (now, .put name qtype resp) => putEntry now name.chars qtype resp
  | (_, .lookup ..) => none

theorem call_eq (c : DnsCache) (p : Int × CacheCall) :
    call c p = c.writes (written p).toList := by
  obtain ⟨now, op⟩ := p
  cases op <;> rfl

theorem calls_eq (c : DnsCache) (calls : List (Int × CacheCall)) :
    calls.foldl call c = c.writes (calls.filterMap written) := by
  induction calls generalizing c with
  | nil => rfl
  | cons p calls ih =>
    rw [List.foldl_cons, ih, call_eq, ← WriteRing.writes_append]
    cases h : written p with
    | none => rw [List.filterMap_cons_none h, Option.toList_none, List.nil_append]
    | some e => rw [List.filterMap_cons_some h, Option.toList_some, List.singleton_append]

theorem written_length_le (calls : List (Int × CacheCall)) :
    (calls.filterMap written).length ≤ calls.countP fun p => p.2.isPut := by
  induction calls with
  | nil => exact Nat.le_refl 0
  | cons p calls ih =>
    obtain ⟨now, op⟩ := p
    cases op with
    | lookup =>
      rw [List.filterMap_cons_none rfl, List.countP_cons_of_neg (by simp [CacheCall.isPut])]
      exact ih
    | put name qtype resp =>
      rw [List.countP_cons_of_pos rfl]
      cases h : written (now, .put name qtype resp) with
      | none =>
        rw [List.filterMap_cons_none h]
        exact Nat.le_succ_of_le ih
      | some e =>
        rw [List.filterMap_cons_some h]
        exact Nat.succ_le_succ ih

theorem mem_after {pre post : List (Int × CacheCall)} {p : Int × CacheCall} {e : DnsCacheEntry}
    (he : written p = some e) (hfew : (post.countP fun p => p.2.isPut) < dnsCacheSize) :
    e ∈ (after (pre ++ p :: post)).slots := by
  unfold after
  rw [List.foldl_append, List.foldl_cons, calls_eq _ post, call_eq, he]
  exact WriteRing.mem_writes e (Nat.lt_of_le_of_lt (written_length_le post) hfew)

/-! ## Both -/

/-- A hit is an answer to the same key from the last minute with the id of the query. -/
def HitsAreSound (calls : List (Int × CacheCall)) (now : Int) : Prop :=
  ∀ (name : CBuf 255) (qtype id : UInt16) (outLen : Nat) (out : CStr),
    dnsCacheLookup (after calls) now name.chars qtype id outLen = some out →
    ∃ tp resp, (tp, .put name qtype resp) ∈ calls ∧ tp ≤ now ∧ now < tp + 60 ∧
      2 ≤ resp.length ∧ out = idBytes id ++ resp.drop 2

/-- An answer of 3 to 1026 bytes is found for a minute while fewer than 512 puts follow. -/
def AnswersStay (calls : List (Int × CacheCall)) (now : Int) : Prop :=
  ∀ (pre post : List (Int × CacheCall)) (tp : Int) (name : CBuf 255) (qtype : UInt16) (resp : CStr),
    calls = pre ++ (tp, .put name qtype resp) :: post → 3 ≤ resp.length → resp.length ≤ 1026 →
    now < tp + 60 → (post.countP fun p => p.2.isPut) < 512 →
    ∀ id, (dnsCacheLookup (after calls) now name.chars qtype id 1026).isSome = true

theorem hitsAreSound {calls : List (Int × CacheCall)} {now : Int} (h : ∀ p ∈ calls, p.1 ≤ now) :
    HitsAreSound calls now := by
  intro name qtype id outLen out hlookup
  obtain ⟨e, hmem, ⟨hfresh, rfl, hne, hname⟩, rfl⟩ := lookupScan_some hlookup
  obtain ⟨tp, name', resp, hput, hchars, hlen, hresp, hexpires⟩ := storedBy_after calls e hmem hne
  obtain rfl : name' = name := by
    obtain ⟨chars, fits, noNul⟩ := name
    obtain ⟨chars', fits', noNul'⟩ := name'
    obtain rfl : chars' = chars := hchars.symm.trans hname
    rfl
  rw [hexpires, dnsCacheTtlS] at hfresh
  exact ⟨tp, resp, hput, h _ hput, hfresh, hlen, by rw [hresp]⟩

theorem answersStay (calls : List (Int × CacheCall)) (now : Int) : AnswersStay calls now := by
  rintro pre post tp name qtype resp rfl hmin hmax hfresh hfew id
  obtain ⟨e, he⟩ : ∃ e, putEntry tp name.chars qtype resp = some e :=
    putEntry_isSome (by omega) (by rw [dnsCacheRespMax]; omega)
  obtain ⟨hname, htype, -, hresp, hexpires⟩ := putEntry_some he
  have hmem : e ∈ (after (pre ++ (tp, .put name qtype resp) :: post)).slots := mem_after he hfew
  refine lookupScan_isSome hmem ⟨?_, htype, ?_, ?_⟩ (by decide)
  · rw [hexpires]
    exact hfresh
  · rw [hresp, Ne, List.drop_eq_nil_iff]
    omega
  · rw [hname, snprintf_name]

/-- For every sequence of calls and a lookup at its end, the clock never going back. -/
theorem resolver_cache_correct (calls : List (Int × CacheCall)) (now : Int)
    (hclock : (calls.map Prod.fst ++ [now]).Pairwise (· ≤ ·)) :
    HitsAreSound calls now ∧ AnswersStay calls now := by
  refine ⟨hitsAreSound ?_, answersStay calls now⟩
  intro p hp
  exact (List.pairwise_append.mp hclock).2.2 p.1 (List.mem_map_of_mem hp) now (by simp)

def anyName : CBuf 255 := ⟨lit "a.b", by decide, by decide⟩

/-- A hit in the last second. -/
theorem hit_at_fifty_nine :
    dnsCacheLookup (after [(0, .put anyName 1 [0, 0, 7])]) 59 (lit "a.b") 1 258 1026 =
      some [1, 2, 7] ∧
    HitsAreSound [(0, .put anyName 1 [0, 0, 7])] 59 ∧ AnswersStay [(0, .put anyName 1 [0, 0, 7])] 59 :=
  ⟨by decide +kernel, resolver_cache_correct _ _ (by decide)⟩

end Proxiflare.Guarantees.ResolverCache
