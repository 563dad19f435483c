import Mathlib.Data.List.TakeDrop
import Mathlib.Data.List.TakeWhile
import Mathlib.Data.Option.Basic
import Proxiflare.Lib.HttpRequest
import Proxiflare.Lib.UrlForm

/-!
# Parsing an http or https URL

The generic syntax of RFC 3986: a URL is cut at its separators into scheme, authority (user
information, host, port), path, query and fragment, each of which holds only the characters it may.
A host is a registered name, with its percent escapes decoded, or an IPv6 address in brackets; the
other parts are kept as they are written. A port that is not written is the scheme's own.
-/

namespace Lib.HttpUrl

open Lib.CString Lib.HttpRequest Lib.UrlForm

inductive Scheme where
  | http
  | https
  deriving DecidableEq

def Scheme.text : Scheme → CStr
  | .http => lit "http"
  | .https => lit "https"

def Scheme.port : Scheme → Nat
  | .http => 80
  | .https => 443

/-- What a request to a URL needs of it. -/
structure Url where
  scheme : Scheme
  host : CStr
  port : Nat
  path : CStr
  query : Option CStr
  deriving DecidableEq

/-- Before the first `c`. -/
def upTo (c : UInt8) (s : CStr) : CStr := s.takeWhile (· ≠ c)

/-- From the first `c` on. -/
def since (c : UInt8) (s : CStr) : CStr := s.dropWhile (· ≠ c)

/-- The bytes that end an authority: `/`, `?` and `#`. -/
def endsAuthority (c : UInt8) : Bool := c = 47 || c = 63 || c = 35

/-! ## What a part may hold -/

/-- Plain bytes and percent escapes. -/
def isEscaped (plain : UInt8 → Bool) : CStr → Bool
  | [] => true
  | 37 :: a :: b :: rest => isHexDigit a && isHexDigit b && isEscaped plain rest
  | c :: rest => plain c && isEscaped plain rest

def isUserByte (c : UInt8) : Bool := isNameByte c || c = 58

def isPathByte (c : UInt8) : Bool := isNameByte c || c = 58 || c = 64 || c = 47

def isQueryByte (c : UInt8) : Bool := isPathByte c || c = 63

def portValue (digits : CStr) : Nat := digits.foldl (fun v d => 10 * v + (d.toNat - 48)) 0

/-- `h16`. -/
def isH16 (s : CStr) : Bool := s ≠ [] && s.length ≤ 4 && s.all isHexDigit

/-- `dec-octet`: no zero in front. -/
def isDecOctet (s : CStr) : Bool :=
  s ≠ [] && s.all isDigit && (s.length = 1 || s.head? ≠ some 48) && portValue s ≤ 255

def isIpv4 (s : CStr) : Bool := (s.splitOn 46).length = 4 && (s.splitOn 46).all isDecOctet

/-- The number of 16-bit pieces; the last two may be written as an IPv4 address. -/
def pieceCount : List CStr → Option Nat
  | [] => some 0
  | [last] => if isH16 last then some 1 else if isIpv4 last then some 2 else none
  | piece :: rest => if isH16 piece then (pieceCount rest).map (· + 1) else none

def piecesOf (s : CStr) : List CStr := if s = [] then [] else s.splitOn 58

/-- Eight pieces, or fewer and one `::` for those that are left out. -/
def isIpv6 (s : CStr) : Bool :=
  s.all (fun c => isHexDigit c || c = 58 || c = 46) &&
    match (List.range s.length).find? fun i => (s.drop i).take 2 = [58, 58] with
    | none => pieceCount (piecesOf s) = some 8
    | some i => (piecesOf (s.take i)).all isH16 &&
        (pieceCount (piecesOf (s.drop (i + 2)))).any ((piecesOf (s.take i)).length + · ≤ 7)

/-! ## The parts -/

/-- The authority behind its user information. -/
def dropUser (authority : CStr) : Option CStr :=
  if 64 ∈ authority then
    if isEscaped isUserByte (upTo 64 authority) then some (since 64 authority).tail else none
  else some authority

/-- A host and what follows it. One in brackets may hold colons. -/
def cutHost (s : CStr) : Option (CStr × CStr) :=
  if s.head? = some 91 then
    if 93 ∈ s then some (upTo 93 s ++ [93], (since 93 s).tail) else none
  else some (upTo 58 s, since 58 s)

/-- In brackets stands an IPv6 address; no later version of addresses is read. -/
def readHost (s : CStr) : Option CStr :=
  if s.head? = some 91 then
    if s.getLast? = some 93 ∧ isIpv6 s.tail.dropLast = true then some s else none
  else if s ≠ [] ∧ isEscaped isNameByte s = true then some (percentDecode s) else none

/-- What follows a host. -/
def readPort (scheme : Scheme) (s : CStr) : Option Nat :=
  match s with
  | [] => some scheme.port
  | c :: ds =>
    if c = 58 ∧ ds.all isDigit = true then
      if ds = [] then some scheme.port
      else if portValue ds < 65536 then some (portValue ds) else none
    else none

def readAuthority (scheme : Scheme) (authority : CStr) : Option (CStr × Nat) := do
  let s ← dropUser authority
  let (text, rest) ← cutHost s
  let host ← readHost text
  let port ← readPort scheme rest
  pure (host, port)

def pathOf (target : CStr) : CStr := upTo 63 target

def queryOf (target : CStr) : Option CStr := if 63 ∈ target then some (since 63 target).tail else none

/-- Path and query hold what they may. -/
def IsTarget (target : CStr) : Prop :=
  isEscaped isPathByte (pathOf target) = true ∧
    ∀ query, queryOf target = some query → isEscaped isQueryByte query = true

instance (target : CStr) : Decidable (IsTarget target) :=
  inferInstanceAs (Decidable (_ ∧ ∀ query ∈ queryOf target, isEscaped isQueryByte query = true))

/-- A URL from behind its `://` on. -/
def readRest (scheme : Scheme) (s : CStr) : Option Url := do
  let rest := s.dropWhile (!endsAuthority ·)
  let target := upTo 35 rest
  let (host, port) ← readAuthority scheme (s.takeWhile (!endsAuthority ·))
  guard (IsTarget target ∧ isEscaped isQueryByte (since 35 rest).tail)
  pure ⟨scheme, host, port, pathOf target, queryOf target⟩

def parse (s : CStr) : Option Url :=
  if s.take 8 = lit "https://" then readRest .https (s.drop 8)
  else if s.take 7 = lit "http://" then readRest .http (s.drop 7)
  else none

/-! ## Percent escapes -/

section Escaped

variable {plain : UInt8 → Bool} {s : CStr}

theorem hexByte_of_hex {a b : UInt8} (ha : isHexDigit a = true) (hb : isHexDigit b = true) :
    (hexByte a b).isSome = true := by
  have hvalue : ∀ c, (!isHexDigit c || (hexValue c).isSome) = true :=
    forall_byte (p := fun c => !isHexDigit c || (hexValue c).isSome) (by decide +kernel)
  have hhi := hvalue a
  have hlo := hvalue b
  rw [ha, Bool.not_true, Bool.false_or] at hhi
  rw [hb, Bool.not_true, Bool.false_or] at hlo
  obtain ⟨hi, hhi⟩ := Option.isSome_iff_exists.mp hhi
  obtain ⟨lo, hlo⟩ := Option.isSome_iff_exists.mp hlo
  rw [hexByte, hhi, hlo]
  rfl

/-- An escaped text is a plain one or has an escape in it. -/
theorem isEscaped_induct {P : CStr → Prop} (hplain : plain 37 = false) (hnil : P [])
    (hbyte : ∀ c s, plain c = true → c ≠ 37 → isEscaped plain s = true → P s → P (c :: s))
    (hescape : ∀ a b s, isHexDigit a = true → isHexDigit b = true → isEscaped plain s = true →
      P s → P (37 :: a :: b :: s))
    (h : isEscaped plain s = true) : P s := by
  induction s using isEscaped.induct with
  | case1 => exact hnil
  | case2 a b rest ih =>
    rw [isEscaped, Bool.and_eq_true, Bool.and_eq_true] at h
    exact hescape a b rest h.1.1 h.1.2 h.2 (ih h.2)
  | case3 c rest hno ih =>
    rw [isEscaped, Bool.and_eq_true] at h
    · refine hbyte c rest h.1 (fun hc => ?_) h.2 (ih h.2)
      rw [hc, hplain] at h
      cases h.1
    · exact hno

theorem mem_of_isEscaped (hplain : plain 37 = false) (h : isEscaped plain s = true) :
    ∀ c ∈ s, plain c = true ∨ isHexDigit c = true ∨ c = 37 := by
  refine isEscaped_induct (P := fun s => ∀ c ∈ s, plain c = true ∨ isHexDigit c = true ∨ c = 37)
    hplain (List.forall_mem_nil _) ?_ ?_ h
  · exact fun c s hc _ _ ih => List.forall_mem_cons.mpr ⟨.inl hc, ih⟩
  · exact fun a b s ha hb _ ih => List.forall_mem_cons.mpr ⟨.inr (.inr rfl),
      List.forall_mem_cons.mpr ⟨.inr (.inl ha), List.forall_mem_cons.mpr ⟨.inr (.inl hb), ih⟩⟩⟩

theorem percentDecode_hex {a b : UInt8} (ha : isHexDigit a = true) (hb : isHexDigit b = true)
    (s : CStr) : ∃ c, percentDecode (37 :: a :: b :: s) = c :: percentDecode s := by
  obtain ⟨c, hc⟩ := Option.isSome_iff_exists.mp (hexByte_of_hex ha hb)
  refine ⟨c, ?_⟩
  rw [percentDecode, if_pos rfl]
  simp only [hc]

/-- Decoding an escape takes two bytes away. -/
theorem length_percentDecode (hplain : plain 37 = false) (h : isEscaped plain s = true) :
    (percentDecode s).length ≤ s.length ∧
      (s.length ≤ (percentDecode s).length → percentDecode s = s ∧ s.all plain = true) := by
  refine isEscaped_induct (P := fun s => (percentDecode s).length ≤ s.length ∧
    (s.length ≤ (percentDecode s).length → percentDecode s = s ∧ s.all plain = true))
    hplain ⟨Nat.le_refl 0, fun _ => ⟨rfl, rfl⟩⟩ ?_ ?_ h
  · intro c s hc hne _ ih
    rw [percentDecode_plain hne, List.length_cons, List.length_cons, List.all_cons, hc,
      Bool.true_and]
    refine ⟨Nat.succ_le_succ ih.1, fun hle => ?_⟩
    obtain ⟨heq, hall⟩ := ih.2 (Nat.le_of_succ_le_succ hle)
    exact ⟨congrArg _ heq, hall⟩
  · intro a b s ha hb _ ih
    obtain ⟨c, hc⟩ := percentDecode_hex ha hb s
    rw [hc]
    simp only [List.length_cons]
    have hle := ih.1
    exact ⟨by omega, fun _ => by omega⟩

theorem isEscaped_of_all (hplain : plain 37 = false) (h : s.all plain = true) :
    isEscaped plain s = true ∧ percentDecode s = s := by
  induction s with
  | nil => exact ⟨rfl, rfl⟩
  | cons c s ih =>
    rw [List.all_cons, Bool.and_eq_true] at h
    have hne : c ≠ 37 := fun hc => by
      rw [hc, hplain] at h
      cases h.1
    obtain ⟨hescaped, hdecode⟩ := ih h.2
    rw [percentDecode_plain hne, hdecode, isEscaped]
    · rw [h.1, hescaped]
      exact ⟨rfl, rfl⟩
    · exact fun _ _ _ hc _ => hne hc

end Escaped

/-! ## Hosts that are read back -/

theorem upTo_append_since (c : UInt8) (s : CStr) : upTo c s ++ since c s = s :=
  List.takeWhile_append_dropWhile

theorem since_of_mem {c : UInt8} {s : CStr} (h : c ∈ s) : since c s = c :: (since c s).tail := by
  induction s with
  | nil => cases h
  | cons d s ih =>
    by_cases hd : d = c
    · subst hd
      simp [since]
    · have hs : c ∈ s := (List.mem_cons.mp h).resolve_left (Ne.symm hd)
      have hcons : since c (d :: s) = since c s := by simp [since, hd]
      rw [hcons]
      exact ih hs

theorem upTo_eq_self_iff {c : UInt8} {s : CStr} : upTo c s = s ↔ c ∉ s := by
  rw [upTo, List.takeWhile_eq_self_iff]
  simp only [decide_eq_true_eq]
  exact ⟨fun h hc => h c hc rfl, fun h d hd hdc => h (hdc ▸ hd)⟩

theorem cutHost_append {s host rest : CStr} (h : cutHost s = some (host, rest)) :
    host ++ rest = s := by
  rw [cutHost] at h
  split at h
  · split at h
    · next hclose =>
      obtain ⟨rfl, rfl⟩ := Prod.mk.inj (Option.some.inj h)
      rw [List.append_assoc, List.singleton_append, ← since_of_mem hclose, upTo_append_since]
    · cases h
  · obtain ⟨rfl, rfl⟩ := Prod.mk.inj (Option.some.inj h)
    exact upTo_append_since 58 s

/-- A name of plain bytes, or an IPv6 address in brackets: a text that is a host and nothing else
where an authority stands. -/
def IsHost (s : CStr) : Prop :=
  (s ≠ [] ∧ s.all isNameByte = true) ∨ ∃ address, isIpv6 address = true ∧ s = 91 :: (address ++ [93])

theorem mem_address {address : CStr} (h : isIpv6 address = true) :
    ∀ c ∈ address, isHexDigit c = true ∨ c = 58 ∨ c = 46 := by
  rw [isIpv6, Bool.and_eq_true, List.all_eq_true] at h
  intro c hc
  simpa [or_assoc] using h.1 c hc

/-- A separator of URLs, other than the colon. -/
theorem IsHost.not_mem {s : CStr} (h : IsHost s) {c : UInt8} (hc : c ∈ [64, 47, 63, 35]) : c ∉ s := by
  have hsep : ∀ c ∈ [(64 : UInt8), 47, 63, 35], isNameByte c = false ∧ isHexDigit c = false ∧
      c ≠ 58 ∧ c ≠ 46 ∧ c ≠ 91 ∧ c ≠ 93 := by decide +kernel
  obtain ⟨hname, hhex, hcolon, hdot, hopen, hclose⟩ := hsep c hc
  rcases h with ⟨-, hall⟩ | ⟨address, haddress, rfl⟩
  · intro hmem
    rw [List.all_eq_true.mp hall c hmem] at hname
    cases hname
  · intro hmem
    rcases List.mem_cons.mp hmem with h | hmem
    · exact hopen h
    · rcases List.mem_append.mp hmem with hmem | hmem
      · rcases mem_address haddress c hmem with h | h | h
        · rw [h] at hhex
          cases hhex
        · exact hcolon h
        · exact hdot h
      · exact hclose (List.mem_singleton.mp hmem)

/-- What is read is no longer than its text, and as long only where it is the text. -/
theorem readHost_length {s host : CStr} (h : readHost s = some host) :
    host.length ≤ s.length ∧ (s.length ≤ host.length → host = s ∧ IsHost s) := by
  unfold readHost at h
  split at h
  · next hopen =>
    obtain ⟨⟨hclose, haddress⟩, hhost⟩ := Option.ite_none_right_eq_some.mp h
    obtain rfl := Option.some.inj hhost
    obtain ⟨t, rfl⟩ := List.head?_eq_some_iff.mp hopen
    refine ⟨Nat.le_refl _, fun _ => ⟨rfl, .inr ⟨t.dropLast, haddress, ?_⟩⟩⟩
    cases t with
    | nil => exact absurd hclose (by decide)
    | cons c t => exact (List.dropLast_append_getLast? 93 hclose).symm
  · obtain ⟨⟨hne, hescaped⟩, hdecode⟩ := Option.ite_none_right_eq_some.mp h
    obtain rfl := Option.some.inj hdecode
    obtain ⟨hle, hself⟩ := length_percentDecode (by decide) hescaped
    exact ⟨hle, fun hge => ⟨(hself hge).1, .inl ⟨hne, (hself hge).2⟩⟩⟩

theorem readHost_self {s : CStr} (h : IsHost s) : readHost s = some s := by
  rcases h with ⟨hne, hall⟩ | ⟨address, haddress, rfl⟩
  · have hopen : s.head? ≠ some 91 := by
      intro hopen
      obtain ⟨t, rfl⟩ := List.head?_eq_some_iff.mp hopen
      rw [List.all_cons, show isNameByte 91 = false by decide] at hall
      cases hall
    obtain ⟨hescaped, hdecode⟩ := isEscaped_of_all (by decide) hall
    rw [readHost, if_neg hopen, if_pos ⟨hne, hescaped⟩, hdecode]
  · have hopen : (91 :: (address ++ [93])).head? = some 91 := rfl
    have hclose : (91 :: (address ++ [93])).getLast? = some 93 := by
      rw [← List.cons_append, List.getLast?_concat]
    have hinside : (91 :: (address ++ [93])).tail.dropLast = address := List.dropLast_concat
    unfold readHost
    rw [if_pos hopen, if_pos ⟨hclose, hinside.symm ▸ haddress⟩]

theorem cutHost_self {s : CStr} (h : IsHost s) : cutHost s = some (s, []) := by
  rcases h with ⟨-, hall⟩ | ⟨address, haddress, rfl⟩
  · have hno : ∀ c, isNameByte c = false → c ∉ s := fun c hc hmem => by
      rw [List.all_eq_true.mp hall c hmem] at hc
      cases hc
    have hopen : s.head? ≠ some 91 := fun hopen =>
      hno 91 (by decide) (List.mem_of_head? hopen)
    have hhost : upTo 58 s = s := upTo_eq_self_iff.mpr (hno 58 (by decide))
    have hrest : since 58 s = [] := by
      have happend := upTo_append_since 58 s
      rw [hhost] at happend
      simpa using happend
    rw [cutHost, if_neg hopen, hhost, hrest]
  · have hkept : ∀ c ∈ 91 :: address, (fun c : UInt8 => decide (c ≠ 93)) c = true := by
      refine List.forall_mem_cons.mpr ⟨by decide, fun c hc => decide_eq_true fun h93 => ?_⟩
      subst h93
      rcases mem_address haddress 93 hc with h | h | h
      · exact absurd h (by decide)
      · exact absurd h (by decide)
      · exact absurd h (by decide)
    have htake : upTo 93 (91 :: address ++ [93]) = 91 :: address := by
      rw [upTo, List.takeWhile_append_of_pos hkept]
      simp
    have hdrop : since 93 (91 :: address ++ [93]) = [93] := by
      rw [since, List.dropWhile_append_of_pos hkept]
      simp
    have hopen : (91 :: address ++ [93]).head? = some 91 := rfl
    show cutHost (91 :: address ++ [93]) = some (91 :: address ++ [93], [])
    unfold cutHost
    rw [if_pos hopen, if_pos (by simp), htake, hdrop]
    rfl

theorem dropUser_length {s authority : CStr} (h : dropUser authority = some s) :
    s.length ≤ authority.length ∧ (authority.length ≤ s.length → s = authority) := by
  unfold dropUser at h
  split at h
  · next hmem =>
    obtain ⟨-, hs⟩ := Option.ite_none_right_eq_some.mp h
    obtain rfl := Option.some.inj hs
    have hlen := congrArg List.length (upTo_append_since 64 authority)
    rw [since_of_mem hmem] at hlen
    simp only [List.length_append, List.length_cons] at hlen
    exact ⟨by omega, fun _ => by omega⟩
  · obtain rfl := Option.some.inj h
    exact ⟨Nat.le_refl _, fun _ => rfl⟩

variable {scheme : Scheme} {host rest authority : CStr} {port : Nat}

/-- A host is no longer than its authority, and as long only where it is all of it. -/
theorem readAuthority_length (h : readAuthority scheme authority = some (host, port)) :
    host.length ≤ authority.length ∧ (authority.length ≤ host.length →
      host = authority ∧ IsHost authority ∧ port = scheme.port) := by
  obtain ⟨s, huser, h⟩ := Option.bind_eq_some_iff.mp h
  obtain ⟨⟨text, rest⟩, hcut, h⟩ := Option.bind_eq_some_iff.mp h
  obtain ⟨host', hhost, h⟩ := Option.bind_eq_some_iff.mp h
  obtain ⟨port', hport, h⟩ := Option.bind_eq_some_iff.mp h
  obtain ⟨rfl, rfl⟩ := Prod.mk.inj (Option.some.inj h)
  obtain ⟨hle, hself⟩ := dropUser_length huser
  obtain ⟨hle', hself'⟩ := readHost_length hhost
  have happend := cutHost_append hcut
  have hlen := congrArg List.length happend
  rw [List.length_append] at hlen
  refine ⟨by omega, fun hge => ?_⟩
  obtain rfl := hself (by omega)
  obtain ⟨rfl, hhost'⟩ := hself' (by omega)
  obtain rfl : rest = [] := List.eq_nil_of_length_eq_zero (by omega)
  rw [List.append_nil] at happend
  subst happend
  exact ⟨rfl, hhost', (Option.some.inj hport).symm⟩

theorem readAuthority_self_iff (s : CStr) :
    readAuthority scheme s = some (s, port) ↔ port = scheme.port ∧ IsHost s := by
  constructor
  · intro h
    obtain ⟨-, hhost, hport⟩ := (readAuthority_length h).2 (Nat.le_refl _)
    exact ⟨hport, hhost⟩
  · rintro ⟨rfl, hhost⟩
    have huser : dropUser s = some s := if_neg (hhost.not_mem (by decide))
    unfold readAuthority
    simp only [huser, cutHost_self hhost, readHost_self hhost, readPort, Option.bind_eq_bind,
      Option.bind_some, Option.pure_def]

/-! ## URLs that are read back -/

theorem pathOf_append_queryOf (target : CStr) :
    pathOf target ++ (queryOf target).elim [] (63 :: ·) = target := by
  rw [pathOf, queryOf]
  by_cases hquery : 63 ∈ target
  · rw [if_pos hquery, Option.elim_some, ← since_of_mem hquery, upTo_append_since]
  · rw [if_neg hquery, Option.elim_none, List.append_nil, upTo_eq_self_iff.mpr hquery]

theorem target_eq_iff {s t : CStr} : s = t ↔ pathOf s = pathOf t ∧ queryOf s = queryOf t := by
  refine ⟨fun h => h ▸ ⟨rfl, rfl⟩, fun ⟨hpath, hquery⟩ => ?_⟩
  rw [← pathOf_append_queryOf s, hpath, hquery, pathOf_append_queryOf]

/-- A `#` is in no path and no query. -/
theorem IsTarget.not_mem {target : CStr} (h : IsTarget target) : 35 ∉ target := by
  have hno : ∀ plain s, plain 37 = false → plain 35 = false → isEscaped plain s = true → 35 ∉ s := by
    intro plain s hescape hmark hescaped hmem
    rcases mem_of_isEscaped hescape hescaped 35 hmem with h | h | h
    · rw [hmark] at h
      cases h
    · exact absurd h (by decide)
    · exact absurd h (by decide)
  intro hmem
  rw [← pathOf_append_queryOf target] at hmem
  rcases List.mem_append.mp hmem with hpath | hquery
  · exact hno _ _ (by decide) (by decide) h.1 hpath
  · cases heq : queryOf target with
    | none =>
      rw [heq] at hquery
      cases hquery
    | some query =>
      rw [heq, Option.elim_some] at hquery
      have hmark := (List.mem_cons.mp hquery).resolve_left (by decide)
      exact hno _ _ (by decide) (by decide) (h.2 query heq) hmark

theorem IsHost.not_endsAuthority {s : CStr} (h : IsHost s) : ∀ c ∈ s, endsAuthority c = false := by
  intro c hc
  have h47 : c ≠ 47 := fun heq => h.not_mem (c := 47) (by decide) (heq ▸ hc)
  have h63 : c ≠ 63 := fun heq => h.not_mem (c := 63) (by decide) (heq ▸ hc)
  have h35 : c ≠ 35 := fun heq => h.not_mem (c := 35) (by decide) (heq ▸ hc)
  simp [endsAuthority, h47, h63, h35]

/-- A text before a target that starts with a slash is read as the host, and the target as what is
asked for, exactly when they are such; the port is then the scheme's. -/
theorem readRest_eq_iff {target : CStr} (hslash : target.head? = some 47) :
    readRest scheme (host ++ target) = some ⟨scheme, host, port, pathOf target, queryOf target⟩ ↔
      port = scheme.port ∧ IsHost host ∧ IsTarget target := by
  obtain ⟨t, rfl⟩ := List.head?_eq_some_iff.mp hslash
  by_cases hclear : ∀ c ∈ host, endsAuthority c = false
  · have hkept : ∀ c ∈ host, (!endsAuthority c) = true := fun c hc => by simp [hclear c hc]
    have hauthority : (host ++ 47 :: t).takeWhile (!endsAuthority ·) = host := by
      rw [List.takeWhile_append_of_pos hkept]
      simp [endsAuthority]
    have htarget : (host ++ 47 :: t).dropWhile (!endsAuthority ·) = 47 :: t := by
      rw [List.dropWhile_append_of_pos hkept]
      simp [endsAuthority]
    rw [readRest, hauthority, htarget]
    constructor
    · intro h
      obtain ⟨⟨host', port'⟩, hread, h⟩ := Option.bind_eq_some_iff.mp h
      obtain ⟨_, hguard, h⟩ := Option.bind_eq_some_iff.mp h
      obtain ⟨-, rfl, rfl, hpath, hquery⟩ := Url.mk.inj (Option.some.inj h)
      obtain ⟨hport, hhost⟩ := (readAuthority_self_iff host').mp hread
      have htarget := ((Option.guard_eq_some' ()).mp hguard).1
      rw [target_eq_iff.mpr ⟨hpath, hquery⟩] at htarget
      exact ⟨hport, hhost, htarget⟩
    · rintro ⟨hport, hhost, htarget⟩
      have hread := (readAuthority_self_iff host).mpr ⟨hport, hhost⟩
      have hmark : upTo 35 (47 :: t) = 47 :: t := upTo_eq_self_iff.mpr htarget.not_mem
      have hend : since 35 (47 :: t) = [] := by
        have happend := upTo_append_since 35 (47 :: t)
        rw [hmark] at happend
        simpa using happend
      rw [hmark, hend, hread]
      simp [htarget, isEscaped, guard]
  · refine iff_of_false (fun h => ?_) fun h => hclear h.2.1.not_endsAuthority
    obtain ⟨⟨host', port'⟩, hread, h⟩ := Option.bind_eq_some_iff.mp h
    obtain ⟨_, -, h⟩ := Option.bind_eq_some_iff.mp h
    obtain ⟨-, rfl, -⟩ := Url.mk.inj (Option.some.inj h)
    have hlen := (readAuthority_length hread).1
    have hpre := List.takeWhile_prefix (fun c => !endsAuthority c) (l := host')
    have hne : (host'.takeWhile (!endsAuthority ·)).length ≠ host'.length := by
      intro heq
      have hall := List.takeWhile_eq_self_iff.mp (hpre.eq_of_length heq)
      exact hclear fun c hc => by simpa using hall c hc
    rw [List.takeWhile_append, if_neg hne] at hlen
    exact hne (Nat.le_antisymm hpre.length_le hlen)

theorem parse_text (scheme : Scheme) (s : CStr) :
    parse (scheme.text ++ lit "://" ++ s) = readRest scheme s := by
  cases scheme with
  | http => simp [parse, Scheme.text, lit]
  | https => simp [parse, Scheme.text, lit]

example : parse (lit "http://me@[::ffff:10.0.0.1]:8080/a%20b?c=d#e") =
    some ⟨.http, lit "[::ffff:10.0.0.1]", 8080, lit "/a%20b", some (lit "c=d")⟩ := by
  decide +kernel

example : [lit "https://a b/", lit "https://a\\b/", lit "https://[zz]/", lit "https:///"].map parse =
    [none, none, none, none] := by
  decide +kernel

end Lib.HttpUrl
