import Mathlib.Data.List.Basic
import Proxiflare.Lib.CString

/-!
# String literals of target languages

What a text must look like in a source file for the language to read it back as that
text: between quotes, with a backslash before the bytes that need one, or verbatim up to
a line that holds a closing label.
-/

namespace Lib.StringLiteral

open Lib.CString

/-! ## Quoted literals -/

/-- A quoting style: `escapes` pairs a byte with the letter that stands for it after a
backslash, and the bytes of `raw` may stand as they are. -/
structure Quoting where
  quote : UInt8
  escapes : List (UInt8 × UInt8)
  raw : UInt8 → Bool
  quote_ne : (92 : UInt8) ≠ quote
  letters : escapes.all (fun p => escapes.find? (·.2 == p.2) == some p) = true
  special : [quote, 92].all (fun c => (escapes.find? (·.1 == c)).isSome) = true

namespace Quoting

variable (q : Quoting)

def escapeByte (c : UInt8) : CStr :=
  match q.escapes.find? (·.1 == c) with
  | some p => [92, p.2]
  | none => [c]

def write (s : CStr) : CStr := q.quote :: (s.flatMap q.escapeByte ++ [q.quote])

/-- The text up to the closing quote, which must be the end. Escapes outside the table are
not read. -/
def readTail : CStr → Option CStr
  | [] => none
  | c :: s =>
    if c = q.quote then (if s = [] then some [] else none)
    else if c = 92 then
      match s with
      | [] => none
      | e :: t =>
        match q.escapes.find? (·.2 == e) with
        | some p => (readTail t).map (p.1 :: ·)
        | none => none
    else if q.raw c then (readTail s).map (c :: ·)
    else none

def read : CStr → Option CStr
  | [] => none
  | c :: s => if c = q.quote then q.readTail s else none

/-- Whether a literal can hold the byte. -/
def holds (c : UInt8) : Bool := (q.escapes.find? (·.1 == c)).isSome || q.raw c

variable {q}

theorem readTail_escapeByte (c : UInt8) (s : CStr) :
    q.readTail (q.escapeByte c ++ s) = if q.holds c then (q.readTail s).map (c :: ·) else none := by
  have hspecial := q.special
  simp only [List.all_cons, List.all_nil, Bool.and_true, Bool.and_eq_true] at hspecial
  obtain ⟨hquote, hslash⟩ := hspecial
  rw [escapeByte, holds]
  cases hfind : q.escapes.find? (·.1 == c) with
  | some p =>
    have hmem := List.mem_of_find?_eq_some hfind
    have hc : p.1 = c := by simpa using List.find?_some hfind
    have hletter : q.escapes.find? (·.2 == p.2) = some p := by
      simpa using List.all_eq_true.mp q.letters p hmem
    simp [readTail, q.quote_ne, hletter, hc]
  | none =>
    have hq : c ≠ q.quote := by
      rintro rfl
      simp [hfind] at hquote
    have hs : c ≠ 92 := by
      rintro rfl
      simp [hfind] at hslash
    simp only [Option.isSome_none, Bool.false_or, List.cons_append, List.nil_append]
    cases s <;> simp [readTail, hq, hs]

theorem readTail_flatMap (s : CStr) :
    q.readTail (s.flatMap q.escapeByte ++ [q.quote]) = if s.all q.holds then some s else none := by
  induction s with
  | nil => simp [readTail]
  | cons c s ih =>
    rw [List.flatMap_cons, List.append_assoc, readTail_escapeByte, ih, List.all_cons]
    by_cases hc : q.holds c <;> by_cases hs : s.all q.holds <;> simp [hc, hs]

/-- A literal is read back as the text it was written for, if it can hold every byte of it. -/
theorem read_write (s : CStr) : q.read (q.write s) = if s.all q.holds then some s else none := by
  rw [write, read, if_pos rfl, readTail_flatMap]

end Quoting

/-! ## Verbatim literals

The text stands on lines of its own and ends before the first line that starts, after
blanks, with the label and goes on with no byte of a name. The line break before that
line is no part of it. An indented label, which takes its indentation off every line, is
not read. -/

section Nowdoc

def isNameByte (c : UInt8) : Bool :=
  isDigit c || (65 ≤ c && c ≤ 90) || c == 95 || (97 ≤ c && c ≤ 122) || 128 ≤ c

def isBlank (c : UInt8) : Bool := c == 32 || c == 9

def isBreak (c : UInt8) : Bool := c == 10 || c == 13

/-- What follows a line break that starts with `c`. -/
def afterBreak (c : UInt8) (s : CStr) : CStr := if c = 13 ∧ s.head? = some 10 then s.tail else s

variable (label : CStr)

/-- The indentation of a closing label at the start of `s` and what follows it. -/
def closer (s : CStr) : Option (CStr × CStr) :=
  let t := s.dropWhile isBlank
  let rest := t.drop label.length
  if t.take label.length = label && !rest.head?.any isNameByte
  then some (s.takeWhile isBlank, rest) else none

/-- The text of the line `s` begins in and of the lines after it, and what follows the
closing label. -/
def readLines : CStr → Option (CStr × CStr)
  | [] => none
  | c :: s =>
    if isBreak c then
      match closer label (afterBreak c s) with
      | some ([], rest) => some ([], rest)
      | some (_ :: _, _) => none
      | none => (readLines s).map fun p => (c :: p.1, p.2)
    else (readLines s).map fun p => (c :: p.1, p.2)

/-- A literal from the line after its opening label on. -/
def nowdoc (s : CStr) : Option (CStr × CStr) :=
  match closer label s with
  | some ([], rest) => some ([], rest)
  | some (_ :: _, _) => none
  | none => readLines label s

def closesLater : CStr → Bool
  | [] => false
  | c :: s => (isBreak c && (closer label s).isSome) || closesLater s

/-- Some line of `s` closes a literal. -/
def closes (s : CStr) : Bool := (closer label s).isSome || closesLater label s

/-- `s` without a carriage return at its end, which belongs to a line break after it. -/
def chopReturn (s : CStr) : CStr := if s.getLast? = some 13 then s.dropLast else s

variable {label}

theorem closer_blank {c : UInt8} (hc : isBlank c = true) (s : CStr) :
    closer label (c :: s) = (closer label s).map fun p => (c :: p.1, p.2) := by
  simp only [closer, List.dropWhile_cons_of_pos hc, List.takeWhile_cons_of_pos hc]
  split <;> rfl

theorem closer_of_head {s : CStr} (h : ∀ c ∈ s.head?, isBlank c = false) :
    closer label s = if s.take label.length = label && !(s.drop label.length).head?.any isNameByte
      then some ([], s.drop label.length) else none := by
  cases s with
  | nil => rfl
  | cons c s =>
    have hc : ¬ isBlank c = true := by simpa using h c rfl
    simp only [closer, List.dropWhile_cons_of_neg hc, List.takeWhile_cons_of_neg hc]

/-- A line break after `s` takes no part in a closing label. -/
theorem closer_append (hlabel : label ≠ []) (hbreak : 10 ∉ label) (s more : CStr) :
    closer label (s ++ 10 :: more) = (closer label s).map fun p => (p.1, p.2 ++ 10 :: more) := by
  induction s with
  | nil =>
    obtain ⟨l, ls, rfl⟩ := List.exists_cons_of_ne_nil hlabel
    have hl : 10 ≠ l := fun h => hbreak (h ▸ List.mem_cons_self)
    rw [closer_of_head (by simp [isBlank]), closer_of_head (by simp)]
    simp [hl]
  | cons c s ih =>
    by_cases hc : isBlank c = true
    · rw [List.cons_append, closer_blank hc, closer_blank hc, ih, Option.map_map, Option.map_map]
      rfl
    · have hhead : ∀ (t : CStr), ∀ d ∈ (c :: t).head?, isBlank d = false := by
        intro t d hd
        obtain rfl : c = d := by simpa using hd
        simpa using hc
      rw [List.cons_append, closer_of_head (hhead _), closer_of_head (hhead _), ← List.cons_append]
      rcases Nat.lt_or_ge (c :: s).length label.length with hlen | hlen
      · -- the label would reach over the break
        have hl : (c :: s).take label.length ≠ label := by
          intro h
          have h' := congrArg List.length h
          simp only [List.length_take] at h'
          omega
        have hr : (c :: s ++ 10 :: more).take label.length ≠ label := by
          intro h
          apply hbreak
          have h10 : 10 ∈ (10 :: more).take (label.length - (c :: s).length) := by
            rw [List.take_cons (by omega)]
            exact List.mem_cons_self
          rw [← h, List.take_append]
          exact List.mem_append_right _ h10
        simp only [hl, hr, decide_false, Bool.false_and, Bool.false_eq_true, if_false,
          Option.map_none]
      · rw [List.take_append_of_le_length hlen, List.drop_append_of_le_length hlen]
        have hhead' : ((c :: s).drop label.length ++ 10 :: more).head?.any isNameByte
            = ((c :: s).drop label.length).head?.any isNameByte := by
          cases (c :: s).drop label.length <;> rfl
        rw [hhead']
        split <;> rfl

theorem closer_nil (hlabel : label ≠ []) : closer label [] = none := by
  rw [closer_of_head (by simp), List.take_nil]
  simp [hlabel.symm]

theorem closer_break (hlabel : label ≠ []) (hbreak : 10 ∉ label) (s : CStr) :
    closer label (10 :: s) = none := by
  have h := closer_append hlabel hbreak [] s
  rwa [closer_nil hlabel] at h

theorem afterBreak_append (c d : UInt8) (s t : CStr) :
    afterBreak c (d :: s ++ t) = afterBreak c (d :: s) ++ t := by
  by_cases h : c = 13 ∧ d = 10 <;> simp [afterBreak, h]

theorem closer_afterBreak {c : UInt8} {s : CStr}
    (hc : isBreak c = true) (h : closesLater label (c :: s) = false) :
    closer label (afterBreak c s) = none := by
  simp only [closesLater, hc, Bool.true_and, Bool.or_eq_false_iff, Option.isSome_eq_false_iff,
    Option.isNone_iff_eq_none] at h
  rw [afterBreak]
  split
  · next hcrlf =>
    -- the second half of the break starts the next line
    cases s with
    | nil => exact h.1
    | cons d s =>
      have hd : d = 10 := by simp_all
      have hlater := h.2
      simp only [closesLater, hd, isBreak] at hlater
      simpa using (Bool.or_eq_false_iff.mp hlater).1
  · exact h.1

theorem chopReturn_cons {c : UInt8} {s : CStr} (h : c ≠ 13 ∨ s ≠ []) :
    chopReturn (c :: s) = c :: chopReturn s := by
  cases s with
  | nil =>
    have hc : c ≠ 13 := h.resolve_right (fun h => h rfl)
    simp [chopReturn, hc]
  | cons d s =>
    rw [chopReturn, chopReturn, List.getLast?_cons_cons, List.dropLast_cons_cons]
    split <;> rfl

theorem closer_length {s : CStr} {p : CStr × CStr} (h : closer label s = some p) :
    p.2.length ≤ s.length := by
  rw [closer] at h
  split at h
  · obtain rfl := Option.some.inj h
    have hs := (List.dropWhile_suffix isBlank (l := s)).length_le
    simp only [List.length_drop]
    omega
  · cases h

variable {more rest : CStr}

theorem readLines_of_not_closes (hlabel : label ≠ []) (hbreak : 10 ∉ label)
    (hmore : closer label more = some ([], rest)) {s : CStr} (h : closesLater label s = false) :
    readLines label (s ++ 10 :: more) = some (chopReturn s, rest) := by
  induction s with
  | nil =>
    have hafter : afterBreak 10 more = more := rfl
    simp [readLines, isBreak, hafter, hmore, chopReturn]
  | cons c s ih =>
    have hs : closesLater label s = false := (Bool.or_eq_false_iff.mp h).2
    rw [List.cons_append, readLines, ih hs]
    by_cases hc : isBreak c = true
    · rw [if_pos hc]
      cases s with
      | nil =>
        by_cases h13 : c = 13
        · subst h13
          have hafter : afterBreak 13 (10 :: more) = more := rfl
          simp [hafter, hmore, chopReturn]
        · have hafter : afterBreak c (10 :: more) = 10 :: more := by simp [afterBreak, h13]
          simp [hafter, closer_break hlabel hbreak, chopReturn, h13]
      | cons d s =>
        rw [afterBreak_append, closer_append hlabel hbreak, closer_afterBreak hc h,
          chopReturn_cons (.inr (List.cons_ne_nil d s))]
        rfl
    · rw [if_neg hc, chopReturn_cons (.inl (by rintro rfl; exact hc rfl))]
      rfl

/-- A line of the text that closes the literal leaves more text over. -/
theorem readLines_of_closes (hlabel : label ≠ []) (hbreak : 10 ∉ label) {s : CStr}
    (h : closesLater label s = true) {p : CStr × CStr}
    (hp : readLines label (s ++ 10 :: more) = some p) : more.length < p.2.length := by
  induction s generalizing p with
  | nil => simp [closesLater] at h
  | cons c s ih =>
    rw [List.cons_append, readLines] at hp
    by_cases hc : isBreak c = true
    · rw [if_pos hc] at hp
      cases s with
      | nil => simp [closesLater, closer_nil hlabel] at h
      | cons d s =>
        rw [afterBreak_append, closer_append hlabel hbreak] at hp
        cases hcl : closer label (afterBreak c (d :: s)) with
        | some q =>
          obtain ⟨indent, r⟩ := q
          rw [hcl, Option.map_some] at hp
          cases indent with
          | nil =>
            obtain rfl := Option.some.inj hp
            simp only [List.length_append, List.length_cons]
            omega
          | cons b bs => cases hp
        | none =>
          have hnone : closer label (d :: s) = none := by
            by_cases hcrlf : c = 13 ∧ d = 10
            · rw [hcrlf.2]
              exact closer_break hlabel hbreak s
            · simpa [afterBreak, hcrlf] using hcl
          have hs : closesLater label (d :: s) = true := by
            rw [closesLater, hnone] at h
            simpa using h
          rw [hcl, Option.map_none] at hp
          obtain ⟨q, hq, rfl⟩ := Option.map_eq_some_iff.mp hp
          exact ih hs (p := q) hq
    · have hs : closesLater label s = true := by simpa [closesLater, hc] using h
      rw [if_neg hc] at hp
      obtain ⟨q, hq, rfl⟩ := Option.map_eq_some_iff.mp hp
      exact ih hs (p := q) hq

/-- A literal that is written on lines of its own is read back without a carriage return
at its end, unless it holds a line that closes it: then more than the text after it is
left over. -/
theorem nowdoc_eq_some_iff (hlabel : label ≠ []) (hbreak : 10 ∉ label)
    (hrest : closer label more = some ([], rest)) (s v : CStr) :
    nowdoc label (s ++ 10 :: more) = some (v, rest) ↔
      closes label s = false ∧ v = chopReturn s := by
  have hlen : rest.length ≤ more.length := closer_length hrest
  rw [nowdoc, closer_append hlabel hbreak, closes]
  cases hcl : closer label s with
  | some q =>
    obtain ⟨indent, r⟩ := q
    cases indent with
    | nil =>
      have hne : r ++ 10 :: more ≠ rest := by
        rintro rfl
        simp only [List.length_append, List.length_cons] at hlen
        omega
      simp [hne]
    | cons b bs => simp
  | none =>
    rw [Option.map_none, Option.isSome_none, Bool.false_or]
    cases hlater : closesLater label s with
    | true =>
      have hne : readLines label (s ++ 10 :: more) ≠ some (v, rest) := by
        intro h
        have hlt : more.length < rest.length := readLines_of_closes hlabel hbreak hlater h
        omega
      simp [hne]
    | false =>
      rw [readLines_of_not_closes hlabel hbreak hrest hlater]
      simp [eq_comm]

theorem chopReturn_eq_self_iff (s : CStr) : chopReturn s = s ↔ s.getLast? ≠ some 13 := by
  rw [chopReturn]
  split
  · next hlast =>
    obtain ⟨t, rfl⟩ := List.getLast?_eq_some_iff.mp hlast
    simp
  · next hlast => simpa using hlast

/-- A closing label and what follows it fit in the line and the lines after it. -/
theorem closer_fits {s : CStr} {p : CStr × CStr} (h : closer label s = some p) :
    label.length + p.2.length ≤ s.length := by
  rw [closer] at h
  split at h
  · next hlabel =>
    obtain rfl := Option.some.inj h
    have htake : (s.dropWhile isBlank).take label.length = label := by
      simpa using (Bool.and_eq_true_iff.mp hlabel).1
    have hlen := congrArg List.length htake
    have hs := (List.dropWhile_suffix isBlank (l := s)).length_le
    simp only [List.length_take, List.length_drop] at hlen ⊢
    omega
  · cases h

theorem readLines_fits {s : CStr} {p : CStr × CStr} (h : readLines label s = some p) :
    p.1.length + label.length + p.2.length < s.length := by
  induction s generalizing p with
  | nil => cases h
  | cons c s ih =>
    have hmore : ∀ {q : CStr × CStr}, (readLines label s).map (fun q => (c :: q.1, q.2)) = some q →
        q.1.length + label.length + q.2.length < (c :: s).length := by
      intro q hq
      obtain ⟨t, ht, rfl⟩ := Option.map_eq_some_iff.mp hq
      have hlen := ih ht
      simp only [List.length_cons]
      omega
    rw [readLines] at h
    split at h
    · split at h
      · next hcloser =>
        obtain rfl := Option.some.inj h
        have hfits := closer_fits hcloser
        have hafter : (afterBreak c s).length ≤ s.length := by
          rw [afterBreak]
          split
          · rw [List.length_tail]
            omega
          · exact le_rfl
        simp only [List.length_nil, List.length_cons] at hfits ⊢
        omega
      · cases h
      · exact hmore h
    · exact hmore h

/-- A literal on lines of its own has its text for its value unless a line of it closes it or
it ends in a carriage return. -/
theorem nowdoc_eq_self_iff (hlabel : label ≠ []) (hbreak : 10 ∉ label)
    (hrest : closer label more = some ([], rest)) (hmore : more.length = label.length + rest.length)
    (s : CStr) :
    (∃ r, nowdoc label (s ++ 10 :: more) = some (s, r)) ↔
      closes label s = false ∧ s.getLast? ≠ some 13 := by
  rw [← chopReturn_eq_self_iff, eq_comm (b := s), ← nowdoc_eq_some_iff hlabel hbreak hrest]
  refine ⟨?_, fun h => ⟨rest, h⟩⟩
  rintro ⟨r, hr⟩
  have hpos : 0 < label.length := List.length_pos_iff.mpr hlabel
  have hopen : closes label s = false := by
    by_contra hcloses
    rw [nowdoc, closer_append hlabel hbreak] at hr
    cases hcl : closer label s with
    | some q =>
      obtain ⟨indent, t⟩ := q
      rw [hcl, Option.map_some] at hr
      cases indent with
      | nil =>
        have hs : [] = s := congrArg Prod.fst (Option.some.inj hr)
        rw [← hs, closer_nil hlabel] at hcl
        cases hcl
      | cons b bs => cases hr
    | none =>
      rw [hcl, Option.map_none] at hr
      have hlater : closesLater label s = true := by
        rw [closes, hcl] at hcloses
        simpa using hcloses
      have hlong := readLines_of_closes hlabel hbreak hlater hr
      have hfits := readLines_fits hr
      simp only [List.length_append, List.length_cons] at hfits hlong
      omega
  have hv := (nowdoc_eq_some_iff hlabel hbreak hrest s (chopReturn s)).mpr ⟨hopen, rfl⟩
  obtain ⟨hs, -⟩ := Prod.mk.inj (Option.some.inj (hr.symm.trans hv))
  rwa [← hs] at hv

end Nowdoc

end Lib.StringLiteral
