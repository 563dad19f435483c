import Proxiflare.Lib.CString
import Mathlib.Data.List.Basic

/-!
# `fnmatch`, `basename` and `inet_pton`

The C library functions the rule matchers fall back on, in the C locale. A
pattern is first cut into tokens, then matched by recursion on the tokens.
-/

namespace Proxiflare.Daemon

open Lib.CString

/-! ## `fnmatch` -/

inductive BracketItem where
  | chr (c : UInt8)
  | range (lo hi : UInt8)
  | cls (name : CStr)
  /-- `FNM_NOMATCH`, if no member before it matches. -/
  | stop
  deriving DecidableEq

inductive GlobTok where
  | any
  | star
  | chr (c : UInt8)
  | set (negated : Bool) (items : List BracketItem)
  /-- A trailing backslash: no string matches. -/
  | never
  deriving DecidableEq

/-- The POSIX character classes; `none` for an unknown name. -/
def charClass (name : CStr) : Option (UInt8 → Bool) :=
  let upper (c : UInt8) : Bool := 65 ≤ c && c ≤ 90
  let lower (c : UInt8) : Bool := 97 ≤ c && c ≤ 122
  let graph (c : UInt8) : Bool := 33 ≤ c && c ≤ 126
  let alnum (c : UInt8) : Bool := upper c || lower c || isDigit c
  if name = lit "upper" then some upper
  else if name = lit "lower" then some lower
  else if name = lit "alpha" then some fun c => upper c || lower c
  else if name = lit "digit" then some isDigit
  else if name = lit "alnum" then some alnum
  else if name = lit "xdigit" then
    some fun c => isDigit c || (65 ≤ c && c ≤ 70) || (97 ≤ c && c ≤ 102)
  else if name = lit "space" then some isSpace
  else if name = lit "blank" then some fun c => c = 32 || c = 9
  else if name = lit "graph" then some graph
  else if name = lit "print" then some fun c => graph c || c = 32
  else if name = lit "punct" then some fun c => graph c && !alnum c
  else if name = lit "cntrl" then some fun c => c < 32 || c = 127
  else none

/-- The name before `:]`, and what follows. -/
def className : CStr → Option (CStr × CStr)
  | 58 :: 93 :: rest => some ([], rest)
  | c :: rest =>
    if 97 ≤ c && c < 122 then (className rest).map fun (name, rest) => (c :: name, rest) else none
  | [] => none

/-- The collating symbol before `.]`, and what follows. -/
def symbolName : CStr → Option (CStr × CStr)
  | 46 :: 93 :: rest => some ([], rest)
  | c :: rest => (symbolName rest).map fun (name, rest) => (c :: name, rest)
  | [] => none

/-- `[:name:]` or `[=c=]`. -/
def bracketClass (c : UInt8) (p : CStr) : Option (BracketItem × CStr) :=
  if c ≠ 91 then none
  else match p with
    | 58 :: q => (className q).map fun (name, rest) => (.cls name, rest)
    | 61 :: d :: 61 :: 93 :: rest => some (.chr d, rest)
    | _ => none

/-- A member by itself or an end of a range: a byte, an escaped one, or a symbol `[.c.]`, which has
no other names in the C locale. -/
def bracketElement (c : UInt8) (p : CStr) : Option UInt8 × CStr :=
  if c = 92 then (p.head?, p.tail)
  else if c = 91 && p.head? = some 46 then
    match symbolName p.tail with
    | some ([d], rest) => (some d, rest)
    | some (_, rest) => (none, rest)
    | none => (none, [])
  else (some c, p)

def bracketItem (c : UInt8) (p : CStr) : BracketItem × CStr :=
  match bracketClass c p with
  | some item => item
  | none =>
    match bracketElement c p with
    | (none, rest) => (.stop, rest)
    | (some _, [45]) => (.stop, [])
    | (some lo, 45 :: hi :: rest) =>
      if hi = 93 then (.chr lo, 45 :: hi :: rest)
      else match bracketElement hi rest with
        | (some hi, rest) => (.range lo hi, rest)
        | (none, rest) => (.stop, rest)
    | (some lo, rest) => (.chr lo, rest)

/-- Bracket members up to the closing `]`, which is a member when it comes first, and what follows
it; `none` when the bracket is not closed. -/
def bracketItems : Nat → Bool → CStr → List BracketItem × Option CStr
  | 0, _, _ => ([], none)
  | _ + 1, _, [] => ([], none)
  | n + 1, first, c :: p =>
    if c = 93 && !first then ([], some p)
    else
      let (item, p) := bracketItem c p
      let (items, rest) := bracketItems n false p
      (item :: items, rest)

/-- `none` where nothing matches, as of a class that does not exist. -/
def bracketHas (c : UInt8) : BracketItem → Option Bool
  | .chr d => some (d = c)
  | .range lo hi => some (lo ≤ c && c ≤ hi)
  | .cls name => (charClass name).map fun p => p c
  | .stop => none

/-- The first member that has the byte decides, and what stands behind it is not looked at. -/
def bracketScan (c : UInt8) : List BracketItem → Option Bool
  | [] => some false
  | item :: items =>
    match bracketHas c item with
    | none => none
    | some true => some true
    | some false => bracketScan c items

def setHas (negated : Bool) (items : List BracketItem) (c : UInt8) : Bool :=
  ((bracketScan c items).map fun found => found != negated).getD false

/-- The pattern as tokens. An unclosed `[` stands for itself, if no member has it. -/
def globToks : Nat → CStr → List GlobTok
  | 0, _ => []
  | _ + 1, [] => []
  | n + 1, 63 :: p => .any :: globToks n p
  | n + 1, 42 :: p => .star :: globToks n p
  | _ + 1, [92] => [.never]
  | n + 1, 92 :: c :: p => .chr c :: globToks n p
  | n + 1, 91 :: p =>
    let negated := p.head? = some 33 || p.head? = some 94
    match bracketItems (n + 1) true (if negated then p.tail else p) with
    | (items, some rest) => .set negated items :: globToks n rest
    | (items, none) => (if bracketScan 91 items = some false then .chr 91 else .never) :: globToks n p
  | n + 1, c :: p => .chr c :: globToks n p

def globMatch : List GlobTok → CStr → Bool
  | [], s => s.isEmpty
  | .never :: _, _ => false
  | .star :: ts, s => s.tails.any (globMatch ts)
  | .any :: ts, s => match s with
    | _ :: s => globMatch ts s
    | [] => false
  | .chr c :: ts, s => match s with
    | d :: s => c = d && globMatch ts s
    | [] => false
  | .set negated items :: ts, s => match s with
    | d :: s => setHas negated items d && globMatch ts s
    | [] => false

/-- `fnmatch(pattern, s, 0) == 0`. -/
def fnmatch (pattern s : CStr) : Bool := globMatch (globToks (pattern.length) pattern) s

/-! ## `basename` and `inet_pton` -/

/-- The last component after a `/`, or the whole string. -/
def afterLastSlash (s : CStr) : CStr := ((strrchr s 47).map List.tail).getD s

/-- `basename` of `<libgen.h>`: trailing slashes do not count. -/
def basename (path : CStr) : CStr :=
  let trimmed := (path.reverse.dropWhile (· = 47)).reverse
  if path = [] then lit "."
  else if trimmed = [] then lit "/"
  else afterLastSlash trimmed

/-- One decimal octet without leading zeros. -/
def octet (s : CStr) : Option Nat :=
  let v := (strtol s).toNat
  if s ≠ [] ∧ s.length ≤ 3 ∧ s.all isDigit ∧ (s.length = 1 ∨ s.head? ≠ some 48) ∧ v ≤ 255
  then some v else none

/-- `inet_pton(AF_INET, s, &addr)` followed by `ntohl`. -/
def inetPton4 (s : CStr) : Option UInt32 :=
  match (s.splitOn 46).map octet with
  | [some a, some b, some c, some d] =>
    some (UInt32.ofNat (((a * 256 + b) * 256 + c) * 256 + d))
  | _ => none

def isXDigit (c : UInt8) : Bool :=
  isDigit c || (65 ≤ c && c ≤ 70) || (97 ≤ c && c ≤ 102)

/-- Eight words are there, or fewer with a `::` to fill. -/
def inet6Complete (words : Nat) (gap : Bool) (digits : Nat) : Bool :=
  let total := if digits = 0 then words else words + 1
  total ≤ 8 && (if gap then total ≠ 8 else total = 8)

/-- `curtok` starts after the last colon; a dotted quad there takes the place of two words. -/
def inet6Loop : CStr → CStr → Nat → Bool → Nat → Bool
  | _, [], words, gap, digits => inet6Complete words gap digits
  | curtok, c :: src, words, gap, digits =>
    if isXDigit c then digits < 4 && inet6Loop curtok src words gap (digits + 1)
    else if c = 58 then
      if digits = 0 then !gap && inet6Loop src src words true 0
      else src ≠ [] && words < 8 && inet6Loop src src (words + 1) gap 0
    else c = 46 && words ≤ 6 && (inetPton4 curtok).isSome && inet6Complete (words + 2) gap 0

/-- `inet_pton(AF_INET6, s, &addr) == 1`. -/
def isInet6 (s : CStr) : Bool :=
  match s with
  | [] => false
  | 58 :: src => src.head? = some 58 && inet6Loop src src 0 false 0
  | s => inet6Loop s s 0 false 0

/-! ## Printing addresses -/

/-- The parts with `sep` between them. -/
def joinWith (sep : UInt8) : List CStr → CStr
  | [] => []
  | [p] => p
  | p :: q :: ps => p ++ sep :: joinWith sep (q :: ps)

/-- `inet_ntop(AF_INET, ...)` of four bytes. -/
def inetNtop4 (addr : CStr) : CStr := joinWith 46 (addr.map fun b => decimal b.toNat)

def hexDigit (d : Nat) : UInt8 := UInt8.ofNat (if d < 10 then 48 + d else 87 + d)

/-- `%x`. -/
def hexWord (n : Nat) : CStr := if n = 0 then [48] else (Nat.digits 16 n).reverse.map hexDigit

/-- The big-endian words of an address. -/
def addrWords : CStr → List Nat
  | a :: b :: rest => (a.toNat * 256 + b.toNat) :: addrWords rest
  | _ => []

/-- Where the longest run of zero words starts, the first of equal ones, and its length. -/
def longestZeros (ws : List Nat) : Nat × Nat :=
  (List.range ws.length).foldl (fun best i =>
    let len := ((ws.drop i).takeWhile (· = 0)).length
    if best.2 < len then (i, len) else best) (0, 0)

/-- `inet_ntop(AF_INET6, ...)` of sixteen bytes: the longest run of two or more zero words is `::`,
and an address embedding an IPv4 one ends in its dotted form. -/
def inetNtop6 (addr : CStr) : CStr :=
  let ws := addrWords addr
  let best := longestZeros ws
  if best.2 < 2 then joinWith 58 (ws.map hexWord)
  else if best = (0, 6) then lit "::" ++ inetNtop4 (addr.drop 12)
  else if best = (0, 5) ∧ ws.getD 5 0 = 0xffff then lit "::ffff:" ++ inetNtop4 (addr.drop 12)
  else joinWith 58 ((ws.take best.1).map hexWord) ++ lit "::" ++
    joinWith 58 ((ws.drop (best.1 + best.2)).map hexWord)

/-! ## Address texts fit `char[46]` -/

/-- A text that fits and is not empty. -/
structure AddrText (s : CStr) : Prop where
  ne_nil : s ≠ []
  fits : s.length < 46
  noNul : 0 ∉ s

theorem joinWith_length (sep : UInt8) {parts : List CStr} {k : Nat} (h : ∀ p ∈ parts, p.length ≤ k) :
    (joinWith sep parts).length ≤ parts.length * (k + 1) := by
  fun_induction joinWith sep parts with
  | case1 => exact Nat.zero_le _
  | case2 p =>
    have hp := h p List.mem_cons_self
    rw [List.length_singleton]
    omega
  | case3 p q ps ih =>
    have hp := h p List.mem_cons_self
    have hrest := ih fun r hr => h r (List.mem_cons_of_mem p hr)
    simp only [List.length_append, List.length_cons, Nat.succ_mul] at hrest ⊢
    omega

theorem joinWith_noNul {sep : UInt8} {parts : List CStr} (hsep : sep ≠ 0)
    (h : ∀ p ∈ parts, (0 : UInt8) ∉ p) : (0 : UInt8) ∉ joinWith sep parts := by
  fun_induction joinWith sep parts with
  | case1 => exact List.not_mem_nil
  | case2 p => exact h p List.mem_cons_self
  | case3 p q ps ih =>
    have hp := h p List.mem_cons_self
    have hrest := ih fun r hr => h r (List.mem_cons_of_mem p hr)
    simp [hp, hrest, Ne.symm hsep]

theorem joinWith_ne_nil {sep : UInt8} {parts : List CStr} (hparts : parts ≠ [])
    (h : ∀ p ∈ parts, p ≠ []) : joinWith sep parts ≠ [] := by
  fun_induction joinWith sep parts with
  | case1 => exact absurd rfl hparts
  | case2 p => exact h p List.mem_cons_self
  | case3 p q ps ih => simp

theorem decimal_noNul (n : Nat) : (0 : UInt8) ∉ decimal n := by
  intro h
  exact absurd (isDigit_of_mem_decimal h) (by decide)

theorem inetNtop4_text (addr : CStr) (h : addr.length = 4) :
    (inetNtop4 addr).length ≤ 16 ∧ AddrText (inetNtop4 addr) := by
  have hpart : ∀ p ∈ addr.map fun b => decimal b.toNat, p.length ≤ 3 := by
    intro p hp
    obtain ⟨b, -, rfl⟩ := List.mem_map.mp hp
    have hlt := b.toNat_lt
    exact decimal_length_le (by decide) (by omega)
  have hlen : (inetNtop4 addr).length ≤ 16 := by
    have hjoin := joinWith_length 46 hpart
    rwa [List.length_map, h] at hjoin
  refine ⟨hlen, joinWith_ne_nil ?_ ?_, by omega, joinWith_noNul (by decide) ?_⟩
  · rw [Ne, List.map_eq_nil_iff]
    exact List.ne_nil_of_length_pos (by omega)
  · intro p hp
    obtain ⟨b, -, rfl⟩ := List.mem_map.mp hp
    exact decimal_ne_nil _
  · intro p hp
    obtain ⟨b, -, rfl⟩ := List.mem_map.mp hp
    exact decimal_noNul _

theorem hexWord_ne_nil (n : Nat) : hexWord n ≠ [] := by
  unfold hexWord
  split
  · simp
  · next h => simpa [Nat.digits_ne_nil_iff_ne_zero] using h

theorem hexWord_length {n : Nat} (h : n < 65536) : (hexWord n).length ≤ 4 := by
  unfold hexWord
  split
  · decide
  · rw [List.length_map, List.length_reverse]
    exact (Nat.digits_length_le_iff (by decide) n).mpr h

theorem hexWord_noNul (n : Nat) : (0 : UInt8) ∉ hexWord n := by
  unfold hexWord
  split
  · decide
  · intro h
    obtain ⟨d, hd, hz⟩ := List.mem_map.mp h
    have hlt : d < 16 := Nat.digits_lt_base (by decide) (List.mem_reverse.mp hd)
    unfold hexDigit at hz
    interval_cases d <;> cases hz

theorem addrWords_lt (addr : CStr) : ∀ w ∈ addrWords addr, w < 65536 := by
  fun_induction addrWords addr with
  | case1 a b rest ih =>
    have ha := a.toNat_lt
    have hb := b.toNat_lt
    intro w hw
    rcases List.mem_cons.mp hw with rfl | hw
    · omega
    · exact ih w hw
  | case2 => exact List.forall_mem_nil _

theorem addrWords_length {addr : CStr} {n : Nat} (h : addr.length = 2 * n) :
    (addrWords addr).length = n := by
  induction n generalizing addr with
  | zero =>
    rw [List.length_eq_zero_iff.mp h]
    rfl
  | succ n ih =>
    obtain ⟨a, addr, rfl⟩ := List.exists_cons_of_length_eq_add_one (n := 2 * n + 1) h
    obtain ⟨b, addr, rfl⟩ := List.exists_cons_of_length_eq_add_one (Nat.succ.inj h)
    rw [addrWords, List.length_cons, ih (Nat.succ.inj (Nat.succ.inj h))]

/-- Hexadecimal words with colons between them. -/
theorem joinWords (ws : List Nat) (h : ∀ w ∈ ws, w < 65536) :
    (joinWith 58 (ws.map hexWord)).length ≤ ws.length * 5 ∧
      (0 : UInt8) ∉ joinWith 58 (ws.map hexWord) := by
  constructor
  · have hpart : ∀ p ∈ ws.map hexWord, p.length ≤ 4 := by
      intro p hp
      obtain ⟨w, hw, rfl⟩ := List.mem_map.mp hp
      exact hexWord_length (h w hw)
    have hjoin := joinWith_length 58 hpart
    rwa [List.length_map] at hjoin
  · refine joinWith_noNul (by decide) fun p hp => ?_
    obtain ⟨w, -, rfl⟩ := List.mem_map.mp hp
    exact hexWord_noNul w

theorem inetNtop6_text {addr : CStr} (h : addr.length = 16) : AddrText (inetNtop6 addr) := by
  have hlt := addrWords_lt addr
  have hlen : (addrWords addr).length = 8 := addrWords_length h
  obtain ⟨h4, htext4⟩ := inetNtop4_text (addr.drop 12) (by rw [List.length_drop, h])
  unfold inetNtop6
  dsimp only
  split
  · obtain ⟨hjoin, hnul⟩ := joinWords _ hlt
    refine ⟨joinWith_ne_nil ?_ ?_, by omega, hnul⟩
    · rw [Ne, List.map_eq_nil_iff]
      exact List.ne_nil_of_length_pos (by omega)
    · intro p hp
      obtain ⟨w, -, rfl⟩ := List.mem_map.mp hp
      exact hexWord_ne_nil w
  · split
    · refine ⟨by simp [lit], ?_, ?_⟩
      · rw [List.length_append, show (lit "::").length = 2 from rfl]
        omega
      · have hsep : (0 : UInt8) ∉ lit "::" := by decide
        simp [hsep, htext4.noNul]
    · split
      · refine ⟨by simp [lit], ?_, ?_⟩
        · rw [List.length_append, show (lit "::ffff:").length = 7 from rfl]
          omega
        · have hsep : (0 : UInt8) ∉ lit "::ffff:" := by decide
          simp [hsep, htext4.noNul]
      · obtain ⟨hleft, hnul⟩ := joinWords ((addrWords addr).take (longestZeros (addrWords addr)).1)
          fun w hw => hlt w (List.mem_of_mem_take hw)
        obtain ⟨hright, hnul'⟩ := joinWords
          ((addrWords addr).drop ((longestZeros (addrWords addr)).1 +
            (longestZeros (addrWords addr)).2)) fun w hw => hlt w (List.mem_of_mem_drop hw)
        have hsep : (0 : UInt8) ∉ lit "::" := by decide
        refine ⟨by simp [lit], ?_, ?_⟩
        · simp only [List.length_take, List.length_drop] at hleft hright
          simp only [List.length_append, show (lit "::").length = 2 from rfl]
          omega
        · simp only [List.mem_append, not_or]
          exact ⟨⟨hnul, hsep⟩, hnul'⟩

/-! ## How long an address literal can be -/

theorem octet_length {s : CStr} {v : Nat} (h : octet s = some v) : s.length ≤ 3 := by
  simp only [octet] at h
  split at h
  · next hok => exact hok.2.1
  · cases h

theorem inetPton4_length {s : CStr} (h : (inetPton4 s).isSome) : s.length ≤ 15 := by
  unfold inetPton4 at h
  split at h
  · next a b c d hparts =>
    obtain ⟨p, q, r, t, hsplit⟩ : ∃ p q r t, s.splitOn 46 = [p, q, r, t] := by
      have hlen := congrArg List.length hparts
      rw [List.length_map] at hlen
      exact List.length_eq_four.mp hlen
    rw [hsplit] at hparts
    simp only [List.map_cons, List.map_nil, List.cons.injEq, and_true] at hparts
    obtain ⟨hp, hq, hr, ht⟩ := hparts
    have hs : [46].intercalate [p, q, r, t] = s := hsplit ▸ List.intercalate_splitOn 46
    have hlen := congrArg List.length hs
    simp [List.intercalate] at hlen
    have := octet_length hp
    have := octet_length hq
    have := octet_length hr
    have := octet_length ht
    omega
  · cases h

/-- Each word still to come takes five characters at most; one `::` and a dotted tail add to that. -/
theorem inet6Loop_length {curtok src : CStr} {words digits : Nat} {gap : Bool}
    (hcur : curtok.length = digits + src.length) (hdigits : digits ≤ 4)
    (h : inet6Loop curtok src words gap digits = true) :
    src.length + digits ≤ 5 * (8 - words) + (!gap).toNat + 15 := by
  fun_induction inet6Loop curtok src words gap digits with
  | case1 curtok words gap digits =>
    rw [List.length_nil]
    omega
  | case2 curtok words gap digits c src hx ih =>
    simp only [Bool.and_eq_true, decide_eq_true_eq] at h
    rw [List.length_cons] at hcur ⊢
    have hrest := ih (by omega) (by omega) h.2
    omega
  | case3 curtok words gap src hx ih =>
    simp only [Bool.and_eq_true, Bool.not_eq_true'] at h
    have hrest := ih (by omega) (by omega) h.2
    rw [h.1, List.length_cons]
    simp only [Bool.not_true, Bool.not_false, Bool.toNat_false, Bool.toNat_true] at hrest ⊢
    omega
  | case4 curtok words gap digits src hx hne ih =>
    simp only [Bool.and_eq_true, decide_eq_true_eq] at h
    have hrest := ih (by omega) (by omega) h.2
    rw [List.length_cons]
    omega
  | case5 curtok words gap digits c src hx hcolon =>
    simp only [Bool.and_eq_true, decide_eq_true_eq] at h
    have hdotted := inetPton4_length h.1.2
    omega

theorem isInet6_length {s : CStr} (h : isInet6 s = true) : s.length ≤ 57 := by
  unfold isInet6 at h
  split at h
  · exact Nat.zero_le _
  · next src =>
    simp only [Bool.and_eq_true] at h
    have hrest := inet6Loop_length (by omega) (by omega) h.2
    rw [List.length_cons]
    simp only [Bool.not_false, Bool.toNat_true] at hrest
    omega
  · have hrest := inet6Loop_length (by omega) (by omega) h
    simp only [Bool.not_false, Bool.toNat_true] at hrest
    omega

end Proxiflare.Daemon
