import Proxiflare.Daemon.Sni
import Proxiflare.Lib.WriteRing

/-!
# The resolver's answer cache

`extract_query_key`, `dns_cache_lookup`, `dns_cache_put` and the cache side of
`dns_worker` in `daemon/src/dns_resolver.c`. Every `time(NULL)` is an argument. The
exchange with the DoH server is the answer it brings, or none.
-/

namespace Proxiflare.Daemon

open Lib.CString Lib

def dnsCacheSize : Nat := 512
def dnsCacheTtlS : Int := 60
def dnsCacheRespMax : Nat := 1024

/-- `dns_cache_entry_t`; `resp` is the stored part, the first `resp_len` bytes of the array. -/
structure DnsCacheEntry where
  name : CBuf 256
  qtype : UInt16
  resp : CStr
  expires : Int
  fits : resp.length ≤ dnsCacheRespMax
  deriving DecidableEq

abbrev DnsCache := WriteRing DnsCacheEntry dnsCacheSize

def DnsCacheEntry.zero : DnsCacheEntry := ⟨.empty, 0, [], 0, Nat.zero_le _⟩

def DnsCache.start : DnsCache := .filled dnsCacheSize (by decide) .zero

/-! ## The key of a query -/

/-- Labels up to the zero byte, each lowercased and followed by a dot; at most `n` turns. -/
def queryName (nameCap : Nat) : Nat → CStr → CStr → Option (CStr × CStr)
  | 0, _, _ => none
  | _ + 1, [], _ => none
  | n + 1, lb :: q, name =>
    if lb = 0 then some (name, q)
    else if lb &&& 0xC0 ≠ 0 then none
    else if q.length < lb.toNat ∨ nameCap ≤ name.length + lb.toNat + 1 then none
    else queryName nameCap n (q.drop lb.toNat) (name ++ (q.take lb.toNat).map tolower ++ [46])

def stripDot (name : CStr) : CStr := if name.getLast? = some 46 then name.dropLast else name

/-- The name as the C string the callers read, and the type. -/
def extractQueryKey (q : CStr) (nameCap : Nat) : Option (CStr × UInt16) :=
  if q.length < 12 ∨ nameCap < 2 then none
  else (queryName nameCap q.length (q.drop 12) []).bind fun p =>
    if p.2.length < 4 then none
    else some (cstr (stripDot p.1), UInt16.ofNat (u16be p.2 0))

/-! ## The cache -/

/-- The slots are scanned in order; the first that answers the key ends the scan. -/
def lookupScan (now : Int) (name : CStr) (qtype : UInt16) (id : CStr) (outLen : Nat) :
    List DnsCacheEntry → Option CStr
  | [] => none
  | e :: es =>
    if e.expires ≤ now ∨ e.qtype ≠ qtype ∨ e.resp.length = 0 then
      lookupScan now name qtype id outLen es
    else if e.name.chars ≠ name then lookupScan now name qtype id outLen es
    else if outLen < e.resp.length + 2 then none
    else some (id ++ e.resp)

def idBytes (id : UInt16) : CStr := [UInt8.ofNat (id.toNat / 256), UInt8.ofNat id.toNat]

def dnsCacheLookup (c : DnsCache) (now : Int) (name : CStr) (qtype id : UInt16) (outLen : Nat) :
    Option CStr :=
  lookupScan now name qtype (idBytes id) outLen c.slots

/-- What `dns_cache_put` stores; `none` is its early return. -/
def putEntry (now : Int) (name : CStr) (qtype : UInt16) (resp : CStr) : Option DnsCacheEntry :=
  if h : resp.length < 2 ∨ dnsCacheRespMax < resp.length - 2 then none
  else some ⟨.snprintf name, qtype, resp.drop 2, now + dnsCacheTtlS,
    by rw [List.length_drop]; omega⟩

def dnsCachePut (c : DnsCache) (now : Int) (name : CStr) (qtype : UInt16) (resp : CStr) : DnsCache :=
  c.writes (putEntry now name qtype resp).toList

theorem putEntry_some {now : Int} {name : CStr} {qtype : UInt16} {resp : CStr} {e : DnsCacheEntry}
    (h : putEntry now name qtype resp = some e) :
    e.name = .snprintf name ∧ e.qtype = qtype ∧ 2 ≤ resp.length ∧ e.resp = resp.drop 2 ∧
      e.expires = now + dnsCacheTtlS := by
  unfold putEntry at h
  split at h
  · cases h
  · obtain rfl := Option.some.inj h
    exact ⟨rfl, rfl, by omega, rfl, rfl⟩

theorem putEntry_isSome {now : Int} {name : CStr} {qtype : UInt16} {resp : CStr}
    (hmin : 2 ≤ resp.length) (hmax : resp.length ≤ dnsCacheRespMax + 2) :
    ∃ e, putEntry now name qtype resp = some e :=
  ⟨_, dif_neg (by omega)⟩

/-! ## Keys fit their buffer -/

theorem queryName_length {nameCap n : Nat} {q name name' rest : CStr} (hname : name.length < nameCap)
    (h : queryName nameCap n q name = some (name', rest)) : name'.length < nameCap := by
  induction n generalizing q name with
  | zero => cases h
  | succ n ih =>
    cases q with
    | nil => cases h
    | cons lb q =>
      unfold queryName at h
      split at h
      · obtain ⟨rfl, -⟩ := Prod.mk.inj (Option.some.inj h)
        exact hname
      · split at h
        · cases h
        · split at h
          · cases h
          · refine ih ?_ h
            simp only [List.length_append, List.length_map, List.length_take, List.length_singleton]
            omega

theorem extractQueryKey_fits {q name : CStr} {nameCap : Nat} {qtype : UInt16}
    (h : extractQueryKey q nameCap = some (name, qtype)) : name.length < nameCap ∧ 0 ∉ name := by
  unfold extractQueryKey at h
  split at h
  · cases h
  · next hcap =>
    obtain ⟨p, hp, h⟩ := Option.bind_eq_some_iff.mp h
    split at h
    · cases h
    · obtain ⟨rfl, -⟩ := Prod.mk.inj (Option.some.inj h)
      have hpos : ([] : CStr).length < nameCap := by
        rw [List.length_nil]
        omega
      have hlen := queryName_length hpos hp
      have hstrip : (stripDot p.1).length ≤ p.1.length := by
        unfold stripDot
        split
        · exact (List.dropLast_prefix p.1).length_le
        · exact Nat.le_refl _
      refine ⟨?_, cstr_noNul _⟩
      exact Nat.lt_of_le_of_lt ((List.takeWhile_prefix _).length_le.trans hstrip) hlen

/-! ## What a scan finds -/

/-- The slot answers the key. -/
def Answers (now : Int) (name : CStr) (qtype : UInt16) (e : DnsCacheEntry) : Prop :=
  now < e.expires ∧ e.qtype = qtype ∧ e.resp ≠ [] ∧ e.name.chars = name

variable {now : Int} {name id : CStr} {qtype : UInt16} {outLen : Nat}

variable (id outLen) in
theorem lookupScan_cons (e : DnsCacheEntry) (es : List DnsCacheEntry) :
    (Answers now name qtype e ∧ lookupScan now name qtype id outLen (e :: es) =
      if outLen < e.resp.length + 2 then none else some (id ++ e.resp)) ∨
    (¬ Answers now name qtype e ∧ lookupScan now name qtype id outLen (e :: es) =
      lookupScan now name qtype id outLen es) := by
  rw [lookupScan]
  by_cases hskip : e.expires ≤ now ∨ e.qtype ≠ qtype ∨ e.resp.length = 0
  · rw [if_pos hskip]
    refine .inr ⟨?_, rfl⟩
    rintro ⟨hfresh, htype, hresp, -⟩
    rcases hskip with hold | hother | hempty
    · omega
    · exact hother htype
    · exact hresp (List.length_eq_zero_iff.mp hempty)
  · rw [if_neg hskip]
    simp only [not_or, not_not] at hskip
    obtain ⟨hfresh, htype, hresp⟩ := hskip
    by_cases hname : e.name.chars = name
    · rw [if_neg (not_not.mpr hname)]
      exact .inl ⟨⟨by omega, htype, fun h => hresp (congrArg List.length h), hname⟩, rfl⟩
    · rw [if_pos hname]
      exact .inr ⟨fun h => hname h.2.2.2, rfl⟩

theorem lookupScan_some {es : List DnsCacheEntry} {out : CStr}
    (h : lookupScan now name qtype id outLen es = some out) :
    ∃ e ∈ es, Answers now name qtype e ∧ out = id ++ e.resp := by
  induction es with
  | nil => cases h
  | cons e es ih =>
    rcases lookupScan_cons id outLen e es with ⟨hans, heq⟩ | ⟨-, heq⟩
    · rw [heq] at h
      split at h
      · cases h
      · exact ⟨e, List.mem_cons_self, hans, (Option.some.inj h).symm⟩
    · obtain ⟨e', hmem, hrest⟩ := ih (heq.symm.trans h)
      exact ⟨e', List.mem_cons_of_mem e hmem, hrest⟩

/-- With room for any stored answer, a slot that answers the key makes a hit. -/
theorem lookupScan_isSome {es : List DnsCacheEntry} {e : DnsCacheEntry} (hmem : e ∈ es)
    (hans : Answers now name qtype e) (hroom : dnsCacheRespMax + 2 ≤ outLen) :
    (lookupScan now name qtype id outLen es).isSome = true := by
  induction es with
  | nil => cases hmem
  | cons e' es ih =>
    rcases lookupScan_cons id outLen e' es with ⟨-, heq⟩ | ⟨hno, heq⟩
    · have hfits := e'.fits
      rw [heq, if_neg (by omega)]
      rfl
    · rw [heq]
      rcases List.mem_cons.mp hmem with rfl | hmem
      · exact absurd hans hno
      · exact ih hmem

/-! ## The workers -/

/-- The cache, the queries whose exchange is under way, and every answer handed to the cache with
the query it came for. -/
structure Resolver where
  cache : DnsCache
  jobs : List CStr
  fetched : List (CStr × CStr)

/-- A worker starts on a query, gets the server's answer to job `i`, or gives it up. -/
inductive ResolverEvent where
  | query (now : Int) (q : CStr)
  | answer (now : Int) (i : Nat) (body : CStr)
  | giveUp (i : Nat)

def Resolver.start : Resolver := ⟨.start, [], []⟩

/-- The answer `dns_worker` sends without asking the server. -/
def cachedAnswer (c : DnsCache) (now : Int) (q : CStr) : Option CStr :=
  (extractQueryKey q 256).bind fun key =>
    dnsCacheLookup c now key.1 key.2 (UInt16.ofNat (u16be q 0)) (dnsCacheRespMax + 2)

/-- `if (have_key) dns_cache_put(...)`. -/
def putAnswer (c : DnsCache) (now : Int) (q body : CStr) : DnsCache :=
  match extractQueryKey q 256 with
  | none => c
  | some key => dnsCachePut c now key.1 key.2 body

def Resolver.step (s : Resolver) : ResolverEvent → Option Resolver
  | .query now q =>
    some (if (cachedAnswer s.cache now q).isSome then s else { s with jobs := s.jobs ++ [q] })
  | .answer now i body =>
    match s.jobs[i]? with
    | none => none
    | some q =>
      if 0 < body.length ∧ body.length ≤ 4096 then
        some ⟨putAnswer s.cache now q body, s.jobs.eraseIdx i, s.fetched ++ [(q, body)]⟩
      else none
  | .giveUp i => if i < s.jobs.length then some { s with jobs := s.jobs.eraseIdx i } else none

end Proxiflare.Daemon
