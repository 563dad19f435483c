import Proxiflare.Daemon.CjsonParse
import Proxiflare.Gui.ReadJson

/-!
# What `cJSON_Parse` makes of a JSON text

The value the text spells, when it is nested at most `CJSON_NESTING_LIMIT` deep, and nothing when it
is nested deeper. With the printer this gives the round trip of a value.
-/

namespace Proxiflare.Guarantees.JsonTexts

open Lib.CString Lib.JsonDoc
open Lib.JsonText (Number)
open Lib.JsonValue (Blank)
open Proxiflare.Daemon CjsonParse

variable {ν : Type} {strtod : CStr → Option (ν × Nat)} {number : CStr → ν}

mutual

/-- The value of a document. -/
def ofDoc (number : CStr → ν) : Doc → Cjson ν
  | .null => .null
  | .bool b => .bool b
  | .num text => .num (number text)
  | .str s => .str s
  | .arr items => .arr (ofDocs number items)
  | .obj members => .obj (ofMembers number members)

def ofDocs (number : CStr → ν) : List Doc → List (Cjson ν)
  | [] => []
  | d :: ds => ofDoc number d :: ofDocs number ds

def ofMembers (number : CStr → ν) : List (CStr × Doc) → List (CStr × Cjson ν)
  | [] => []
  | (name, d) :: ms => (name, ofDoc number d) :: ofMembers number ms

end

/-- `strtod` reads the text of a JSON number to its end. -/
def ReadsNumbers (strtod : CStr → Option (ν × Nat)) (number : CStr → ν) : Prop :=
  ∀ s, Number s → strtod s = some (number s, s.length)

/-- The numbers of a document fit the buffer of `parse_number`. -/
def ShortNumbers (d : Doc) : Prop := ∀ s ∈ d.numbers, s.length ≤ 63

/-! ## One turn of the loops -/

section Turns

variable {value : CStr → Option (Cjson ν × CStr)} {v : Cjson ν} {b b' b'' rest : CStr} {turns : Nat}

theorem parseElements_last (hv : value (skipWhitespace b) = some (v, b'))
    (hend : skipWhitespace b' = 93 :: rest) :
    parseElements value (turns + 1) b = some ([v], rest) := by
  rw [parseElements, hv]
  dsimp only [Option.bind_eq_bind, Option.bind_some]
  rw [hend]
  rfl

theorem parseElements_next (hv : value (skipWhitespace b) = some (v, b'))
    (hnext : skipWhitespace b' = 44 :: b'') :
    parseElements value (turns + 1) b =
      (parseElements value turns b'').map fun q => (v :: q.1, q.2) := by
  rw [parseElements, hv]
  dsimp only [Option.bind_eq_bind, Option.bind_some]
  rw [hnext]
  change Option.bind (parseElements value turns b'') _ = _
  cases parseElements value turns b'' with
  | none => rfl
  | some q => rfl

theorem parseElements_none (hv : value (skipWhitespace b) = none) :
    parseElements value (turns + 1) b = none := by
  rw [parseElements, hv]
  rfl

variable {name k : CStr}

theorem parseMembers_last (hb : b ≠ []) (hk : parseString (skipWhitespace b) = some (name, k))
    (hcolon : skipWhitespace k = 58 :: b') (hv : value (skipWhitespace b') = some (v, b''))
    (hend : skipWhitespace b'' = 125 :: rest) :
    parseMembers value (turns + 1) b = some ([(name, v)], rest) := by
  rw [parseMembers, if_neg hb, hk]
  dsimp only [Option.bind_eq_bind, Option.bind_some]
  rw [hcolon]
  change Option.bind (value (skipWhitespace b')) _ = _
  rw [hv, Option.bind_some]
  dsimp only
  rw [hend]
  rfl

theorem parseMembers_next (hb : b ≠ []) (hk : parseString (skipWhitespace b) = some (name, k))
    (hcolon : skipWhitespace k = 58 :: b') (hv : value (skipWhitespace b') = some (v, b''))
    (hnext : skipWhitespace b'' = 44 :: rest) :
    parseMembers value (turns + 1) b =
      (parseMembers value turns rest).map fun q => ((name, v) :: q.1, q.2) := by
  rw [parseMembers, if_neg hb, hk]
  dsimp only [Option.bind_eq_bind, Option.bind_some]
  rw [hcolon]
  change Option.bind (value (skipWhitespace b')) _ = _
  rw [hv, Option.bind_some]
  dsimp only
  rw [hnext]
  change Option.bind (parseMembers value turns rest) _ = _
  cases parseMembers value turns rest with
  | none => rfl
  | some q => rfl

theorem parseMembers_none (hb : b ≠ []) (hk : parseString (skipWhitespace b) = some (name, k))
    (hcolon : skipWhitespace k = 58 :: b') (hv : value (skipWhitespace b') = none) :
    parseMembers value (turns + 1) b = none := by
  rw [parseMembers, if_neg hb, hk]
  dsimp only [Option.bind_eq_bind, Option.bind_some]
  rw [hcolon]
  change Option.bind (value (skipWhitespace b')) _ = _
  rw [hv]
  rfl

end Turns

/-! ## What stands between the tokens -/

/-- What follows a value ends a number. -/
def Stops (rest : CStr) : Prop := ∀ c ∈ rest.head?, isNumberByte c = false

theorem stops_blanks {r x : CStr} {c : UInt8} (hr : Blank r) (hc : isNumberByte c = false) :
    Stops (r ++ c :: x) := by
  cases r with
  | nil => exact fun b hb => Option.some.inj hb ▸ hc
  | cons b r =>
    intro b' hb'
    obtain rfl := Option.some.inj hb'
    have hmem := hr b List.mem_cons_self
    simp only [List.mem_cons, List.not_mem_nil, or_false] at hmem
    rcases hmem with rfl | rfl | rfl | rfl <;> rfl

theorem skip_byte {r x : CStr} {c : UInt8} (hr : Blank r) (hc : 32 < c) :
    skipWhitespace (r ++ c :: x) = c :: x :=
  skipWhitespace_of_blanks (blank_le hr) hc

theorem skip_spells {d : Doc} {l t : CStr} (hl : Blank l) (ht : Spells d t) (x : CStr) :
    skipWhitespace (l ++ (t ++ x)) = t ++ x := by
  obtain ⟨c, t, rfl, hc, -⟩ := ht.head
  exact skip_byte hl hc

theorem skip_quoted {name l t : CStr} (hl : Blank l) (ht : Quoted name t) (x : CStr) :
    skipWhitespace (l ++ (t ++ x)) = t ++ x := by
  obtain ⟨cs, -, rfl⟩ := ht
  exact skip_byte hl (by decide)

/-! ## Which branch `parse_value` takes -/

section Branches

variable {array object : CStr → Option (Cjson ν × CStr)} {c : UInt8} {rest : CStr}

theorem parseValueWith_literal {s : CStr} {v : Cjson ν}
    (h : s = lit "null" ∧ v = .null ∨ s = lit "false" ∧ v = .bool false ∨
      s = lit "true" ∧ v = .bool true) :
    parseValueWith strtod array object (s ++ rest) = some (v, rest) := by
  rcases h with ⟨rfl, rfl⟩ | ⟨rfl, rfl⟩ | ⟨rfl, rfl⟩
  · rfl
  · rfl
  · rfl

/-- The three literals begin with letters of their own. -/
theorem parseValueWith_cons (hc : c ≠ 110 ∧ c ≠ 102 ∧ c ≠ 116) :
    parseValueWith strtod array object (c :: rest) =
      if c = 34 then (parseString (c :: rest)).map fun p => (.str p.1, p.2)
      else if c = 45 || isDigit c then parseNumber strtod (c :: rest)
      else if c = 91 then array rest
      else if c = 123 then object rest
      else none := by
  have hlit : ∀ (a : UInt8) (s : CStr), c ≠ a → (a :: s).isPrefixOf (c :: rest) = false := by
    intro a s hne
    rw [List.isPrefixOf, beq_eq_false_iff_ne.mpr hne.symm, Bool.false_and]
  have hnull : (lit "null").isPrefixOf (c :: rest) = false := hlit 110 (lit "ull") hc.1
  have hfalse : (lit "false").isPrefixOf (c :: rest) = false := hlit 102 (lit "alse") hc.2.1
  have htrue : (lit "true").isPrefixOf (c :: rest) = false := hlit 116 (lit "rue") hc.2.2
  rw [parseValueWith, hnull, hfalse, htrue]
  rfl

end Branches

/-! ## Documents -/

theorem isNumberByte_of_isDigit {c : UInt8} (h : isDigit c = true) : isNumberByte c = true := by
  rw [isNumberByte, h]
  rfl

/-- Every byte of a number is copied. -/
theorem isNumberByte_of_number {s : CStr} (h : Number s) : ∀ c ∈ s, isNumberByte c = true := by
  obtain ⟨sign, i, f, e, hsign, hi, hf, he, rfl⟩ := h
  have hdigits : ∀ ds, Lib.JsonText.Digits ds → ∀ c ∈ ds, isNumberByte c = true :=
    fun ds hds c hc => isNumberByte_of_isDigit (hds.2 c hc)
  have hsign' : ∀ c ∈ sign, isNumberByte c = true := by
    simp only [List.mem_cons, List.not_mem_nil, or_false] at hsign
    rcases hsign with rfl | rfl
    · exact List.forall_mem_nil _
    · exact List.forall_mem_singleton.mpr rfl
  have hf' : ∀ c ∈ f, isNumberByte c = true := by
    rcases hf with rfl | ⟨ds, hds, rfl⟩
    · exact List.forall_mem_nil _
    · exact List.forall_mem_cons.mpr ⟨rfl, hdigits ds hds⟩
  have he' : ∀ c ∈ e, isNumberByte c = true := by
    rcases he with rfl | ⟨b, sg, ds, hb, hsg, hds, rfl⟩
    · exact List.forall_mem_nil _
    · simp only [List.mem_cons, List.not_mem_nil, or_false] at hb hsg
      refine List.forall_mem_cons.mpr ⟨?_, List.forall_mem_append.mpr ⟨?_, hdigits ds hds⟩⟩
      · rcases hb with rfl | rfl <;> rfl
      · rcases hsg with rfl | rfl | rfl
        · exact List.forall_mem_nil _
        · exact List.forall_mem_singleton.mpr rfl
        · exact List.forall_mem_singleton.mpr rfl
  simp only [List.forall_mem_append]
  exact ⟨⟨⟨hsign', hdigits i hi.1⟩, hf'⟩, he'⟩

theorem parse_number (hnum : ReadsNumbers strtod number) {s rest : CStr} (hs : Number s)
    (hshort : s.length ≤ 63) (hrest : Stops rest) {array object : CStr → Option (Cjson ν × CStr)} :
    parseValueWith strtod array object (s ++ rest) = some (.num (number s), rest) := by
  have hcopied := numberCString_append hshort (isNumberByte_of_number hs) hrest
  have hread : parseNumber strtod (s ++ rest) = some (.num (number s), rest) := by
    rw [parseNumber, hcopied, hnum s hs, Option.map_some]
    dsimp only
    rw [List.drop_left' rfl]
  obtain ⟨c, s, rfl, hc⟩ := Number.head hs
  have hfirst : (c = 45 || isDigit c) = true := by
    rcases hc with rfl | hdigit
    · rfl
    · rw [hdigit, Bool.or_true]
  have hbounds : 45 ≤ c.toNat ∧ c.toNat ≤ 57 := by
    rcases hc with rfl | hdigit
    · decide
    · have h := isDigit_iff.mp hdigit
      omega
  have hne : ∀ b : UInt8, b.toNat < 45 ∨ 57 < b.toNat → c ≠ b := by
    rintro b hb rfl
    omega
  rw [List.cons_append] at hread ⊢
  rw [parseValueWith_cons ⟨hne _ (by decide), hne _ (by decide), hne _ (by decide)⟩,
    if_neg (hne _ (by decide)), if_pos hfirst, hread]

/-- `parse_value` on a text that spells a document, with any number of levels left. -/
def ReadsDoc (strtod : CStr → Option (ν × Nat)) (number : CStr → ν) (d : Doc) : Prop :=
  ∀ {s}, Spells d s → ShortNumbers d → ∀ levels {rest}, Stops rest →
    parseValue strtod levels (s ++ rest) =
      if d.depth ≤ levels then some (ofDoc number d, rest) else none

/-- The loop of `parse_array` from an element on, when all elements are read so. -/
theorem parseElements_spells (levels : Nat) :
    ∀ (ds : List Doc) {d : Doc} {e s : CStr}, (∀ d' ∈ d :: ds, ReadsDoc strtod number d') →
      (∀ d' ∈ d :: ds, ShortNumbers d') → Padded (Spells d) e → SpellsItems ds s →
      ∀ (turns : Nat) (rest : CStr), ds.length < turns →
        parseElements (parseValue strtod levels) turns (e ++ s ++ 93 :: rest) =
          if depthItems (d :: ds) ≤ levels then some (ofDocs number (d :: ds), rest) else none := by
  intro ds
  induction ds with
  | nil =>
    intro d e s hreads hshort he hs turns rest hturns
    obtain ⟨turns, rfl⟩ := Nat.exists_eq_add_of_lt hturns
    obtain ⟨l, t, r, hl, ht, hr, rfl⟩ := he
    rw [SpellsItems] at hs
    subst hs
    have hvalue := hreads d List.mem_cons_self ht (hshort d List.mem_cons_self) levels
      (stops_blanks (x := rest) hr (c := 93) rfl)
    have hskip := skip_spells hl ht (r ++ 93 :: rest)
    have htext : l ++ t ++ r ++ [] ++ 93 :: rest = l ++ (t ++ (r ++ 93 :: rest)) := by simp
    rw [htext, depthItems, depthItems, Nat.max_zero]
    by_cases hd : d.depth ≤ levels
    · rw [if_pos hd] at hvalue ⊢
      exact parseElements_last (by rw [hskip, hvalue]) (skip_byte hr (by decide))
    · rw [if_neg hd] at hvalue ⊢
      exact parseElements_none (by rw [hskip, hvalue])
  | cons d' ds ih =>
    intro d e s hreads hshort he hs turns rest hturns
    obtain ⟨turns, rfl⟩ := Nat.exists_eq_add_of_lt hturns
    obtain ⟨l, t, r, hl, ht, hr, rfl⟩ := he
    rw [SpellsItems] at hs
    obtain ⟨e', s', he', hs', rfl⟩ := hs
    have hvalue := hreads d List.mem_cons_self ht (hshort d List.mem_cons_self) levels
      (stops_blanks (x := e' ++ s' ++ 93 :: rest) hr (c := 44) rfl)
    have hskip := skip_spells hl ht (r ++ 44 :: (e' ++ s' ++ 93 :: rest))
    have htext : l ++ t ++ r ++ 44 :: (e' ++ s') ++ 93 :: rest =
        l ++ (t ++ (r ++ 44 :: (e' ++ s' ++ 93 :: rest))) := by simp
    rw [htext, depthItems]
    by_cases hd : d.depth ≤ levels
    · have hrest := ih (fun x hx => hreads x (List.mem_cons_of_mem _ hx))
        (fun x hx => hshort x (List.mem_cons_of_mem _ hx)) he' hs'
        ((d' :: ds).length + turns) rest (by simp; omega)
      rw [if_pos hd] at hvalue
      rw [parseElements_next (by rw [hskip, hvalue]) (skip_byte hr (by decide)), hrest]
      by_cases hds : depthItems (d' :: ds) ≤ levels
      · rw [if_pos hds, if_pos (by omega)]
        rfl
      · rw [if_neg hds, if_neg (by omega)]
        rfl
    · rw [if_neg hd] at hvalue
      rw [parseElements_none (by rw [hskip, hvalue]), if_neg (by omega)]

theorem parseMembers_spells (levels : Nat) :
    ∀ (ms : List (CStr × Doc)) {name : CStr} {d : Doc} {k e s : CStr},
      (∀ m ∈ (name, d) :: ms, ReadsDoc strtod number m.2) →
      (∀ m ∈ (name, d) :: ms, ShortNumbers m.2) → Padded (Quoted name) k → Padded (Spells d) e →
      SpellsMembers ms s → ∀ (turns : Nat) (rest : CStr), ms.length < turns →
        parseMembers (parseValue strtod levels) turns (k ++ 58 :: (e ++ s ++ 125 :: rest)) =
          if depthMembers ((name, d) :: ms) ≤ levels then
            some (ofMembers number ((name, d) :: ms), rest) else none := by
  intro ms
  induction ms with
  | nil =>
    intro name d k e s hreads hshort hk he hs turns rest hturns
    obtain ⟨turns, rfl⟩ := Nat.exists_eq_add_of_lt hturns
    obtain ⟨l, q, r, hl, hq, hr, rfl⟩ := hk
    obtain ⟨l', t, r', hl', ht, hr', rfl⟩ := he
    rw [SpellsMembers] at hs
    subst hs
    have hvalue := hreads _ List.mem_cons_self ht (hshort _ List.mem_cons_self) levels
      (stops_blanks (x := rest) hr' (c := 125) rfl)
    have hskip := skip_quoted hl hq (r ++ 58 :: (l' ++ (t ++ (r' ++ 125 :: rest))))
    have hskip' := skip_spells hl' ht (r' ++ 125 :: rest)
    have htext : l ++ q ++ r ++ 58 :: (l' ++ t ++ r' ++ [] ++ 125 :: rest) =
        l ++ (q ++ (r ++ 58 :: (l' ++ (t ++ (r' ++ 125 :: rest))))) := by simp
    rw [htext, depthMembers, depthMembers, Nat.max_zero]
    by_cases hd : d.depth ≤ levels
    · rw [if_pos hd] at hvalue ⊢
      exact parseMembers_last (by simp) (by rw [hskip, parseString_quoted hq])
        (skip_byte hr (by decide)) (by rw [hskip', hvalue]) (skip_byte hr' (by decide))
    · rw [if_neg hd] at hvalue ⊢
      exact parseMembers_none (by simp) (by rw [hskip, parseString_quoted hq])
        (skip_byte hr (by decide)) (by rw [hskip', hvalue])
  | cons m ms ih =>
    intro name d k e s hreads hshort hk he hs turns rest hturns
    obtain ⟨turns, rfl⟩ := Nat.exists_eq_add_of_lt hturns
    obtain ⟨l, q, r, hl, hq, hr, rfl⟩ := hk
    obtain ⟨l', t, r', hl', ht, hr', rfl⟩ := he
    rw [SpellsMembers] at hs
    obtain ⟨k', e', s', hk', he', hs', rfl⟩ := hs
    have hvalue := hreads _ List.mem_cons_self ht (hshort _ List.mem_cons_self) levels
      (stops_blanks (x := k' ++ 58 :: (e' ++ s' ++ 125 :: rest)) hr' (c := 44) rfl)
    have hskip := skip_quoted hl hq
      (r ++ 58 :: (l' ++ (t ++ (r' ++ 44 :: (k' ++ 58 :: (e' ++ s' ++ 125 :: rest))))))
    have hskip' := skip_spells hl' ht (r' ++ 44 :: (k' ++ 58 :: (e' ++ s' ++ 125 :: rest)))
    have htext : l ++ q ++ r ++ 58 :: (l' ++ t ++ r' ++ 44 :: (k' ++ 58 :: (e' ++ s')) ++ 125 :: rest) =
        l ++ (q ++ (r ++ 58 :: (l' ++ (t ++ (r' ++ 44 :: (k' ++ 58 :: (e' ++ s' ++ 125 :: rest))))))) := by
      simp
    rw [htext, depthMembers]
    by_cases hd : d.depth ≤ levels
    · have hrest := ih (fun x hx => hreads x (List.mem_cons_of_mem _ hx))
        (fun x hx => hshort x (List.mem_cons_of_mem _ hx)) hk' he' hs'
        ((m :: ms).length + turns) rest (by simp; omega)
      rw [if_pos hd] at hvalue
      rw [parseMembers_next (by simp) (by rw [hskip, parseString_quoted hq])
        (skip_byte hr (by decide)) (by rw [hskip', hvalue]) (skip_byte hr' (by decide)), hrest]
      by_cases hms : depthMembers (m :: ms) ≤ levels
      · rw [if_pos hms, if_pos (by omega)]
        rfl
      · rw [if_neg hms, if_neg (by omega)]
        rfl
    · rw [if_neg hd] at hvalue
      rw [parseMembers_none (by simp) (by rw [hskip, parseString_quoted hq])
        (skip_byte hr (by decide)) (by rw [hskip', hvalue]), if_neg (by omega)]

theorem parseValue_eq (strtod : CStr → Option (ν × Nat)) (levels : Nat) :
    ∃ array object, parseValue strtod levels = parseValueWith strtod array object := by
  cases levels with
  | zero => exact ⟨_, _, rfl⟩
  | succ levels => exact ⟨_, _, rfl⟩

/-- A text that `parse_value` reads whatever follows it is read with any number of levels. -/
theorem readsDoc_scalar {d : Doc} (hdepth : d.depth = 0)
    (hread : ∀ {s}, Spells d s → ShortNumbers d → ∀ {rest array object}, Stops rest →
      parseValueWith strtod array object (s ++ rest) = some (ofDoc number d, rest)) :
    ReadsDoc strtod number d := by
  intro s hs hshort levels rest hrest
  obtain ⟨array, object, heq⟩ := parseValue_eq strtod levels
  rw [heq, hread hs hshort hrest, if_pos (by omega)]

/-- An array or an object takes one level. -/
theorem readsDoc_nested {d : Doc} (opening : UInt8) (n : Nat) (hdepth : d.depth = n + 1)
    (hopening : opening = 91 ∨ opening = 123)
    (hread : ∀ {s}, Spells d s → ShortNumbers d → ∃ inner, s = opening :: inner ∧
      ∀ levels {rest}, Stops rest →
        (if opening = 91 then parseArray (parseValue strtod levels) (inner ++ rest)
          else parseObject (parseValue strtod levels) (inner ++ rest)) =
          if n ≤ levels then some (ofDoc number d, rest) else none) :
    ReadsDoc strtod number d := by
  intro s hs hshort levels rest hrest
  obtain ⟨inner, rfl, hinner⟩ := hread hs hshort
  have hbranch : ∀ array object : CStr → Option (Cjson ν × CStr),
      parseValueWith strtod array object (opening :: inner ++ rest) =
        if opening = 91 then array (inner ++ rest) else object (inner ++ rest) := by
    intro array object
    rw [List.cons_append]
    rcases hopening with rfl | rfl
    · rw [parseValueWith_cons (by decide)]
      rfl
    · rw [parseValueWith_cons (by decide)]
      rfl
  cases levels with
  | zero =>
    rw [parseValue, hbranch, hdepth, if_neg (Nat.not_succ_le_zero n)]
    exact ite_self none
  | succ levels =>
    rw [parseValue, hbranch, hinner levels hrest]
    by_cases hn : n ≤ levels
    · rw [if_pos hn, if_pos (by omega)]
    · rw [if_neg hn, if_neg (by omega)]

theorem skip_head {w x : CStr} {c : UInt8} (hw : Blank w) (hc : 32 < c) :
    skipWhitespace (w ++ [c] ++ x) = c :: x := by
  rw [List.append_assoc, List.singleton_append, skip_byte hw hc]

theorem parseArray_of_skip {value : CStr → Option (Cjson ν × CStr)} {b x : CStr} {c : UInt8}
    (h : skipWhitespace b = c :: x) (hc : c ≠ 93) :
    parseArray value b =
      (parseElements value (c :: x).length (c :: x)).map fun p => (.arr p.1, p.2) := by
  rw [parseArray, h]
  split
  · next heq => cases heq
  · next heq => exact absurd (List.cons.inj heq).1 hc
  · rfl

theorem parseObject_of_skip {value : CStr → Option (Cjson ν × CStr)} {b x : CStr} {c : UInt8}
    (h : skipWhitespace b = c :: x) (hc : c ≠ 125) :
    parseObject value b =
      (parseMembers value (c :: x).length (c :: x)).map fun p => (.obj p.1, p.2) := by
  rw [parseObject, h]
  split
  · next heq => cases heq
  · next heq => exact absurd (List.cons.inj heq).1 hc
  · rfl

theorem length_le_items {ds : List Doc} {s : CStr} (h : SpellsItems ds s) :
    ds.length ≤ s.length := by
  induction ds generalizing s with
  | nil => exact Nat.zero_le _
  | cons d ds ih =>
    rw [SpellsItems] at h
    obtain ⟨e, rest, -, hrest, rfl⟩ := h
    have hlen := ih hrest
    simp
    omega

theorem length_le_members {ms : List (CStr × Doc)} {s : CStr} (h : SpellsMembers ms s) :
    ms.length ≤ s.length := by
  induction ms generalizing s with
  | nil => exact Nat.zero_le _
  | cons m ms ih =>
    rw [SpellsMembers] at h
    obtain ⟨k, e, rest, -, -, hrest, rfl⟩ := h
    have hlen := ih hrest
    simp
    omega

theorem blank_nil : Blank [] := List.forall_mem_nil _

theorem readsDoc_arr {items : List Doc} (hreads : ∀ d ∈ items, ReadsDoc strtod number d) :
    ReadsDoc strtod number (.arr items) := by
  refine readsDoc_nested 91 (depthItems items) rfl (.inl rfl) ?_
  intro s hs hshort
  have hnumbers : ∀ d ∈ items, ShortNumbers d := fun d hd t ht =>
    hshort t (mem_numbersItems.mpr ⟨d, hd, ht⟩)
  cases items with
  | nil =>
    rw [Spells] at hs
    obtain ⟨w, hw, rfl⟩ := hs
    refine ⟨w ++ [93], rfl, fun levels rest _ => ?_⟩
    rw [if_pos rfl, parseArray, skip_head hw (by decide), depthItems, if_pos (Nat.zero_le levels)]
    rfl
  | cons d ds =>
    rw [Spells] at hs
    obtain ⟨e, tail, ⟨l, t, r, hl, ht, hr, rfl⟩, htail, rfl⟩ := hs
    refine ⟨l ++ t ++ r ++ tail ++ [93], rfl, fun levels rest _ => ?_⟩
    have htext : l ++ t ++ r ++ tail ++ [93] ++ rest = l ++ (t ++ (r ++ tail ++ 93 :: rest)) := by
      simp
    have hskip := skip_spells hl ht (r ++ tail ++ 93 :: rest)
    obtain ⟨c, t', ht', -, -, hc, -⟩ := ht.head
    have hstart : t ++ (r ++ tail ++ 93 :: rest) = [] ++ t ++ r ++ tail ++ 93 :: rest := by simp
    have hlen := length_le_items htail
    have hloop := parseElements_spells levels ds hreads hnumbers
      ⟨[], t, r, blank_nil, ht, hr, rfl⟩ htail
      (t ++ (r ++ tail ++ 93 :: rest)).length rest (by simp; omega)
    have harray : parseArray (parseValue strtod levels) (l ++ (t ++ (r ++ tail ++ 93 :: rest))) =
        (parseElements (parseValue strtod levels) (t ++ (r ++ tail ++ 93 :: rest)).length
          (t ++ (r ++ tail ++ 93 :: rest))).map fun p => (.arr p.1, p.2) := by
      rw [ht', List.cons_append] at hskip ⊢
      exact parseArray_of_skip hskip hc
    rw [← hstart] at hloop
    rw [if_pos rfl, htext, harray, hloop]
    by_cases hdepth : depthItems (d :: ds) ≤ levels
    · rw [if_pos hdepth, if_pos hdepth]
      rfl
    · rw [if_neg hdepth, if_neg hdepth]
      rfl

theorem readsDoc_obj {members : List (CStr × Doc)}
    (hreads : ∀ m ∈ members, ReadsDoc strtod number m.2) :
    ReadsDoc strtod number (.obj members) := by
  refine readsDoc_nested 123 (depthMembers members) rfl (.inr rfl) ?_
  intro s hs hshort
  have hnumbers : ∀ m ∈ members, ShortNumbers m.2 := fun m hm t ht =>
    hshort t (mem_numbersMembers.mpr ⟨m, hm, ht⟩)
  cases members with
  | nil =>
    rw [Spells] at hs
    obtain ⟨w, hw, rfl⟩ := hs
    refine ⟨w ++ [125], rfl, fun levels rest _ => ?_⟩
    rw [if_neg (by decide), parseObject, skip_head hw (by decide), depthMembers,
      if_pos (Nat.zero_le levels)]
    rfl
  | cons m ms =>
    obtain ⟨name, d⟩ := m
    rw [Spells] at hs
    obtain ⟨k, e, tail, ⟨l, q, r, hl, hq, hr, rfl⟩, he, htail, rfl⟩ := hs
    refine ⟨l ++ q ++ r ++ 58 :: (e ++ tail ++ [125]), rfl, fun levels rest _ => ?_⟩
    have htext : l ++ q ++ r ++ 58 :: (e ++ tail ++ [125]) ++ rest =
        l ++ (q ++ (r ++ 58 :: (e ++ tail ++ 125 :: rest))) := by
      simp
    have hskip := skip_quoted hl hq (r ++ 58 :: (e ++ tail ++ 125 :: rest))
    have hstart : q ++ (r ++ 58 :: (e ++ tail ++ 125 :: rest)) =
        [] ++ q ++ r ++ 58 :: (e ++ tail ++ 125 :: rest) := by simp
    have hlen := length_le_members htail
    have hloop := parseMembers_spells levels ms hreads hnumbers
      ⟨[], q, r, blank_nil, hq, hr, rfl⟩ he htail
      (q ++ (r ++ 58 :: (e ++ tail ++ 125 :: rest))).length rest (by simp; omega)
    have hobject : parseObject (parseValue strtod levels)
        (l ++ (q ++ (r ++ 58 :: (e ++ tail ++ 125 :: rest)))) =
        (parseMembers (parseValue strtod levels) (q ++ (r ++ 58 :: (e ++ tail ++ 125 :: rest))).length
          (q ++ (r ++ 58 :: (e ++ tail ++ 125 :: rest)))).map fun p => (.obj p.1, p.2) := by
      obtain ⟨cs, -, rfl⟩ := hq
      exact parseObject_of_skip hskip (by decide)
    rw [← hstart] at hloop
    rw [if_neg (by decide), htext, hobject, hloop]
    by_cases hdepth : depthMembers ((name, d) :: ms) ≤ levels
    · rw [if_pos hdepth, if_pos hdepth]
      rfl
    · rw [if_neg hdepth, if_neg hdepth]
      rfl

mutual

theorem readsDoc (hnum : ReadsNumbers strtod number) : ∀ d, ReadsDoc strtod number d
  | .null => readsDoc_scalar rfl fun hs _ _ _ _ _ => by
    rw [Spells] at hs
    exact parseValueWith_literal (.inl ⟨hs, rfl⟩)
  | .bool true => readsDoc_scalar rfl fun hs _ _ _ _ _ => by
    rw [Spells] at hs
    exact parseValueWith_literal (.inr (.inr ⟨hs, rfl⟩))
  | .bool false => readsDoc_scalar rfl fun hs _ _ _ _ _ => by
    rw [Spells] at hs
    exact parseValueWith_literal (.inr (.inl ⟨hs, rfl⟩))
  | .num text => readsDoc_scalar rfl fun hs hshort _ _ _ hrest => by
    rw [Spells] at hs
    obtain ⟨hnumber, rfl⟩ := hs
    exact parse_number hnum hnumber (hshort _ (List.mem_singleton_self _)) hrest
  | .str content => readsDoc_scalar rfl fun hs _ rest _ _ _ => by
    rw [Spells] at hs
    have hread := parseString_quoted hs rest
    obtain ⟨cs, -, rfl⟩ := hs
    rw [List.cons_append] at hread ⊢
    rw [parseValueWith_cons (by decide), if_pos rfl, hread]
    rfl
  | .arr items => readsDoc_arr (readsDocs hnum items)
  | .obj members => readsDoc_obj (readsMembers hnum members)

theorem readsDocs (hnum : ReadsNumbers strtod number) :
    ∀ ds : List Doc, ∀ d ∈ ds, ReadsDoc strtod number d
  | [] => List.forall_mem_nil _
  | d :: ds => List.forall_mem_cons.mpr ⟨readsDoc hnum d, readsDocs hnum ds⟩

theorem readsMembers (hnum : ReadsNumbers strtod number) :
    ∀ ms : List (CStr × Doc), ∀ m ∈ ms, ReadsDoc strtod number m.2
  | [] => List.forall_mem_nil _
  | (_, d) :: ms => List.forall_mem_cons.mpr ⟨readsDoc hnum d, readsMembers hnum ms⟩

end

/-- The texts `skip_utf8_bom` finds a byte order mark in front of. -/
theorem skipUtf8Bom_append {bom s : CStr} (hbom : bom = [] ∨ bom = [0xEF, 0xBB, 0xBF])
    (hlen : 1 < s.length) (hs : ∀ c ∈ s.head?, c < 128) : skipUtf8Bom (bom ++ s) = s := by
  obtain ⟨c, s, rfl⟩ := List.exists_cons_of_length_pos (Nat.zero_lt_of_lt hlen)
  rcases hbom with rfl | rfl
  · have hne : c ≠ 0xEF := by
      rintro rfl
      exact absurd (hs 0xEF rfl) (by decide)
    have hprefix : ([0xEF, 0xBB, 0xBF] : CStr).isPrefixOf ([] ++ c :: s) = false := by
      rw [List.nil_append, List.isPrefixOf, beq_eq_false_iff_ne.mpr hne.symm, Bool.false_and]
    rw [skipUtf8Bom, hprefix, Bool.and_false]
    rfl
  · have hlong : decide (4 < ([0xEF, 0xBB, 0xBF] ++ c :: s : CStr).length) = true := by
      rw [List.length_cons] at hlen
      simp
      omega
    rw [skipUtf8Bom, hlong]
    rfl

/-- A JSON text is read as the document it spells, and refused where the document is nested deeper
than `CJSON_NESTING_LIMIT`. -/
theorem json_text_is_read (hnum : ReadsNumbers strtod number) {d : Doc} {bom s : CStr}
    (hbom : bom = [] ∨ bom = [0xEF, 0xBB, 0xBF]) (hs : Text d s) (hshort : ShortNumbers d) :
    cjsonParse strtod (bom ++ s) =
      if d.depth ≤ nestingLimit then some (ofDoc number d) else none := by
  obtain ⟨l, t, r, hl, ht, hr, rfl⟩ := hs
  have hread := readsDoc hnum d ht hshort nestingLimit (stops_blanks (x := []) hr (c := 0) rfl)
  have hskip := skip_spells hl ht (r ++ [0])
  have htext : bom ++ (l ++ t ++ r) ++ [0] = bom ++ (l ++ (t ++ (r ++ [0]))) := by simp
  have hfirst : ∀ c ∈ (l ++ (t ++ (r ++ [0]))).head?, c < 128 := by
    obtain ⟨c, t, rfl, -, hc, -⟩ := ht.head
    cases l with
    | nil => exact fun b hb => Option.some.inj hb ▸ hc
    | cons b l =>
      intro b' hb'
      obtain rfl := Option.some.inj hb'
      have hblank : b.toNat ≤ 32 := blank_le hl b List.mem_cons_self
      show b.toNat < 128
      omega
  have hlen : 1 < (l ++ (t ++ (r ++ [0]))).length := by
    obtain ⟨c, t, rfl, -⟩ := ht.head
    simp
    omega
  rw [cjsonParse, htext, skipUtf8Bom_append hbom hlen hfirst, hskip, hread]
  split <;> rfl

def requestText : CStr := lit "\x7b\"id\": 7\x7d"

def requestDoc : Doc := .obj [(lit "id", .num (lit "7"))]

theorem text_request : Text requestDoc requestText := by
  have hname : Quoted (lit "id") (lit "\"id\"") :=
    ⟨lit "id", .plain (by decide) (.plain (by decide) .nil), rfl⟩
  have hnumber : Spells (.num (lit "7")) (lit "7") := by
    rw [Spells]
    exact ⟨Lib.JsonText.number_decimal 7, rfl⟩
  have hobject : Spells requestDoc requestText := by
    rw [requestDoc, Spells]
    exact ⟨lit "\"id\"", lit " 7", [], ⟨[], lit "\"id\"", [], blank_nil, hname, blank_nil, rfl⟩,
      ⟨lit " ", lit "7", [], forall_of_all rfl, hnumber, blank_nil, rfl⟩, by rw [SpellsMembers], rfl⟩
  exact ⟨[], requestText, [], blank_nil, hobject, blank_nil, (List.append_nil _).symm⟩

/-- Numbers are kept as their texts here. -/
theorem request_text_is_read :
    cjsonParse (fun s => some (s, s.length)) ([] ++ requestText) =
      if requestDoc.depth ≤ nestingLimit then some (ofDoc id requestDoc) else none :=
  json_text_is_read (fun _ _ => rfl) (.inl rfl) text_request
    (List.forall_mem_singleton.mpr (by decide))

/-! ## The printer -/

mutual

/-- The document a value is printed as. -/
def docOf (printNumber : ν → CStr) : Cjson ν → Doc
  | .null => .null
  | .bool b => .bool b
  | .num n => if printNumber n = lit "null" then .null else .num (printNumber n)
  | .str s => .str (cstr s)
  | .arr items => .arr (docsOf printNumber items)
  | .obj members => .obj (memberDocs printNumber members)

def docsOf (printNumber : ν → CStr) : List (Cjson ν) → List Doc
  | [] => []
  | v :: vs => docOf printNumber v :: docsOf printNumber vs

def memberDocs (printNumber : ν → CStr) : List (CStr × Cjson ν) → List (CStr × Doc)
  | [] => []
  | (name, v) :: ms => (cstr name, docOf printNumber v) :: memberDocs printNumber ms

end

mutual

/-- A value printed and read again: its strings end at their first NUL, its numbers are what
`strtod` makes of their text, and one that is not finite has become `null`. -/
def reread (printNumber : ν → CStr) (number : CStr → ν) : Cjson ν → Cjson ν
  | .null => .null
  | .bool b => .bool b
  | .num n => if printNumber n = lit "null" then .null else .num (number (printNumber n))
  | .str s => .str (cstr s)
  | .arr items => .arr (rereadItems printNumber number items)
  | .obj members => .obj (rereadMembers printNumber number members)

def rereadItems (printNumber : ν → CStr) (number : CStr → ν) : List (Cjson ν) → List (Cjson ν)
  | [] => []
  | v :: vs => reread printNumber number v :: rereadItems printNumber number vs

def rereadMembers (printNumber : ν → CStr) (number : CStr → ν) :
    List (CStr × Cjson ν) → List (CStr × Cjson ν)
  | [] => []
  | (name, v) :: ms => (cstr name, reread printNumber number v) :: rereadMembers printNumber number ms

end

/-- A printed byte is itself, an escape of one letter, or its code. -/
def spelledAs (c : UInt8) (s : CStr) : Bool :=
  (32 ≤ c && c ≠ 34 && c ≠ 92 && s = [c]) ||
    (Lib.JsonValue.escapes.any fun p => UInt8.ofNat p.2 = c && s = [92, p.1]) ||
    (c < 128 && s.take 2 = [92, 117] && s.length = 6 && (s.drop 2).all Lib.JsonText.isHex &&
      (s.drop 2).foldl (fun n x => 16 * n + Lib.JsonValue.hexDigitValue x) 0 = c.toNat)

theorem spelledAs_escapeByte (c : UInt8) : spelledAs c (Cjson.escapeByte c) = true :=
  forall_byte (p := fun c => spelledAs c (Cjson.escapeByte c)) (by decide +kernel) c

theorem chars_escapeByte (c : UInt8) {cs s : CStr} (h : Chars cs s) :
    Chars (Cjson.escapeByte c ++ cs) (c :: s) := by
  have hspelled := spelledAs_escapeByte c
  generalize Cjson.escapeByte c = e at hspelled
  simp only [spelledAs, Bool.or_eq_true, Bool.and_eq_true, decide_eq_true_eq, List.any_eq_true,
    and_assoc] at hspelled
  rcases hspelled with (⟨h32, hquote, hslash, rfl⟩ | ⟨p, hp, rfl, rfl⟩) | ⟨hc, hu, hlen, hhex, hvalue⟩
  · exact .plain ⟨h32, hquote, hslash⟩ h
  · exact .escape hp h
  · obtain ⟨ds, rfl⟩ : ∃ ds, e = 92 :: 117 :: ds := ⟨e.drop 2, by
      rw [← List.take_append_drop 2 e, hu]
      rfl⟩
    have hchar : (Char.ofNat c.toNat).toNat = c.toNat := by
      have hlt : c.toNat < 128 := hc
      rw [Char.ofNat, dif_pos (Or.inl (by omega))]
      rfl
    have hunit : HexUnit ds (Char.ofNat c.toNat).toNat :=
      ⟨by simpa using hlen, hhex, hvalue.trans hchar.symm⟩
    have hchars := Chars.unicode hunit h
    rwa [Lib.Utf8.utf8EncodeChar_ascii hc] at hchars

theorem quoted_printString (s : CStr) : Quoted (cstr s) (Cjson.printString s) := by
  refine ⟨(cstr s).flatMap Cjson.escapeByte, ?_, rfl⟩
  induction cstr s with
  | nil => exact .nil
  | cons c s ih => exact chars_escapeByte c ih

theorem padded_self {p : CStr → Prop} {s : CStr} (h : p s) : Padded p s :=
  ⟨[], s, [], blank_nil, h, blank_nil, (List.append_nil s).symm⟩

section Printed

variable {printNumber : ν → CStr}

mutual

theorem spells_print (h : Cjson.PrintsNumbers printNumber) :
    ∀ v, Spells (docOf printNumber v) (Cjson.print printNumber v)
  | .null => by rw [docOf, Spells, Cjson.print]
  | .bool b => by rw [docOf, Spells, Cjson.print]
  | .num n => by
    rw [docOf, Cjson.print]
    by_cases hnull : printNumber n = lit "null"
    · rw [if_pos hnull, Spells]
      exact hnull
    · rw [if_neg hnull, Spells]
      exact ⟨(h n).resolve_right hnull, rfl⟩
  | .str s => by
    rw [docOf, Spells, Cjson.print]
    exact quoted_printString s
  | .arr [] => by
    rw [docOf, docsOf, Spells]
    exact ⟨[], blank_nil, rfl⟩
  | .arr (v :: vs) => by
    rw [docOf, docsOf, Spells, Cjson.print]
    exact ⟨_, _, padded_self (spells_print h v), spellsItems_print h vs, rfl⟩
  | .obj [] => by
    rw [docOf, memberDocs, Spells]
    exact ⟨[], blank_nil, rfl⟩
  | .obj ((name, v) :: ms) => by
    rw [docOf, memberDocs, Spells, Cjson.print]
    exact ⟨_, _, _, padded_self (quoted_printString name), padded_self (spells_print h v),
      spellsMembers_print h ms, rfl⟩

theorem spellsItems_print (h : Cjson.PrintsNumbers printNumber) :
    ∀ vs, SpellsItems (docsOf printNumber vs) (Cjson.printItems printNumber vs)
  | [] => by rw [docsOf, SpellsItems, Cjson.printItems]
  | v :: vs => by
    rw [docsOf, SpellsItems, Cjson.printItems]
    exact ⟨_, _, padded_self (spells_print h v), spellsItems_print h vs, rfl⟩

theorem spellsMembers_print (h : Cjson.PrintsNumbers printNumber) :
    ∀ ms, SpellsMembers (memberDocs printNumber ms) (Cjson.printMembers printNumber ms)
  | [] => by rw [memberDocs, SpellsMembers, Cjson.printMembers]
  | (name, v) :: ms => by
    rw [memberDocs, SpellsMembers, Cjson.printMembers]
    exact ⟨_, _, _, padded_self (quoted_printString name), padded_self (spells_print h v),
      spellsMembers_print h ms, rfl⟩

end

mutual

theorem depth_docOf : ∀ v : Cjson ν, (docOf printNumber v).depth = v.depth
  | .null => rfl
  | .bool _ => rfl
  | .num n => by
    rw [docOf]
    split <;> rfl
  | .str _ => rfl
  | .arr items => by rw [docOf, Doc.depth, Cjson.depth, depthItems_docsOf items]
  | .obj members => by rw [docOf, Doc.depth, Cjson.depth, depthMembers_memberDocs members]

theorem depthItems_docsOf : ∀ vs : List (Cjson ν),
    depthItems (docsOf printNumber vs) = Cjson.depthItems vs
  | [] => rfl
  | v :: vs => by rw [docsOf, depthItems, Cjson.depthItems, depth_docOf v, depthItems_docsOf vs]

theorem depthMembers_memberDocs : ∀ ms : List (CStr × Cjson ν),
    depthMembers (memberDocs printNumber ms) = Cjson.depthMembers ms
  | [] => rfl
  | (name, v) :: ms => by
    rw [memberDocs, depthMembers, Cjson.depthMembers, depth_docOf v, depthMembers_memberDocs ms]

end

mutual

theorem ofDoc_docOf : ∀ v : Cjson ν,
    ofDoc number (docOf printNumber v) = reread printNumber number v
  | .null => rfl
  | .bool _ => rfl
  | .num n => by
    rw [docOf, reread]
    split <;> rfl
  | .str _ => rfl
  | .arr items => by rw [docOf, ofDoc, reread, ofDocs_docsOf items]
  | .obj members => by rw [docOf, ofDoc, reread, ofMembers_memberDocs members]

theorem ofDocs_docsOf : ∀ vs : List (Cjson ν),
    ofDocs number (docsOf printNumber vs) = rereadItems printNumber number vs
  | [] => rfl
  | v :: vs => by rw [docsOf, ofDocs, rereadItems, ofDoc_docOf v, ofDocs_docsOf vs]

theorem ofMembers_memberDocs : ∀ ms : List (CStr × Cjson ν),
    ofMembers number (memberDocs printNumber ms) = rereadMembers printNumber number ms
  | [] => rfl
  | (name, v) :: ms => by
    rw [memberDocs, ofMembers, rereadMembers, ofDoc_docOf v, ofMembers_memberDocs ms]

end

mutual

theorem shortNumbers_docOf (h : ∀ n, (printNumber n).length ≤ 63) :
    ∀ v : Cjson ν, ShortNumbers (docOf printNumber v)
  | .null => List.forall_mem_nil _
  | .bool _ => List.forall_mem_nil _
  | .num n => by
    rw [docOf]
    split
    · exact List.forall_mem_nil _
    · exact List.forall_mem_singleton.mpr (h n)
  | .str _ => List.forall_mem_nil _
  | .arr items => fun t ht => by
    obtain ⟨d, hd, hmem⟩ := mem_numbersItems.mp ht
    exact shortNumbers_docsOf h items d hd t hmem
  | .obj members => fun t ht => by
    obtain ⟨m, hm, hmem⟩ := mem_numbersMembers.mp ht
    exact shortNumbers_memberDocs h members m hm t hmem

theorem shortNumbers_docsOf (h : ∀ n, (printNumber n).length ≤ 63) :
    ∀ vs : List (Cjson ν), ∀ d ∈ docsOf printNumber vs, ShortNumbers d
  | [] => List.forall_mem_nil _
  | v :: vs => List.forall_mem_cons.mpr ⟨shortNumbers_docOf h v, shortNumbers_docsOf h vs⟩

theorem shortNumbers_memberDocs (h : ∀ n, (printNumber n).length ≤ 63) :
    ∀ ms : List (CStr × Cjson ν), ∀ m ∈ memberDocs printNumber ms, ShortNumbers m.2
  | [] => List.forall_mem_nil _
  | (_, v) :: ms => List.forall_mem_cons.mpr ⟨shortNumbers_docOf h v, shortNumbers_memberDocs h ms⟩

end

/-- What `cJSON_PrintUnformatted` writes, `cJSON_Parse` reads again. -/
theorem printed_value_is_read (hprint : Cjson.PrintsNumbers printNumber)
    (hlen : ∀ n, (printNumber n).length ≤ 63) (hnum : ReadsNumbers strtod number) (v : Cjson ν) :
    cjsonParse strtod (v.print printNumber) =
      if v.depth ≤ nestingLimit then some (reread printNumber number v) else none := by
  have hread := json_text_is_read hnum (.inl rfl) (padded_self (spells_print hprint v))
    (shortNumbers_docOf hlen v)
  rwa [List.nil_append, depth_docOf, ofDoc_docOf] at hread

end Printed

def printByte (n : UInt8) : CStr := decimal n.toNat

def readByte (s : CStr) : UInt8 := UInt8.ofNat (atoi s).toNat

/-- A string that holds a NUL, and a number. -/
def pair : Cjson UInt8 := .arr [.str [65, 10, 0, 66], .num 7]

theorem printsNumbers_byte : Cjson.PrintsNumbers printByte :=
  fun n => .inl (Lib.JsonText.number_decimal n.toNat)

theorem length_printByte_le (n : UInt8) : (printByte n).length ≤ 63 :=
  (decimal_length_le (k := 3) (by decide) (n.toNat_lt.trans (by decide))).trans (by decide)

theorem readsNumbers_byte : ReadsNumbers (fun s => some (readByte s, s.length)) readByte :=
  fun _ _ => rfl

theorem printed_pair_is_read :
    cjsonParse (fun s => some (readByte s, s.length)) (pair.print printByte) =
      if pair.depth ≤ nestingLimit then some (reread printByte readByte pair) else none :=
  printed_value_is_read printsNumbers_byte length_printByte_le readsNumbers_byte pair

end Proxiflare.Guarantees.JsonTexts
