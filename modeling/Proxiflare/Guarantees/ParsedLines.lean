import Proxiflare.Guarantees.JsonTexts
import Proxiflare.Guarantees.LineFraming

/-!
# What `cJSON_Parse` accepts, and how it is answered

Whatever bytes a client sends: the value is nested at most `CJSON_NESTING_LIMIT` deep, and every
string in it is UTF-8 as C reads it if the text is. An escape with a wrong digit may take bytes out
of the middle of a character, but it writes a NUL first. A client that writes documents is answered
document by document.
-/

namespace Proxiflare.Guarantees.ParsedLines

open Lib.CString Lib.Utf8
open Proxiflare.Daemon CjsonParse

variable {ν : Type} {strtod : CStr → Option (ν × Nat)}

/-! ## One induction over the parser -/

/-- A property `R` of what is left of the buffer, which gives a property `S` of the strings read
from it. -/
structure Keeps (strtod : CStr → Option (ν × Nat)) (R S : CStr → Prop) : Prop where
  skip : ∀ {b}, R b → R (skipWhitespace b)
  tail : ∀ {c b}, c < 128 → R (c :: b) → R b
  string : ∀ {b s rest}, R b → parseString b = some (s, rest) → S s ∧ R rest
  number : ∀ {b v rest}, R b → parseNumber strtod b = some (v, rest) → (∃ n, v = .num n) ∧ R rest

/-- A property `P` of the values with so many levels, given that of the strings. -/
structure Builds (S : CStr → Prop) (P : Nat → Cjson ν → Prop) : Prop where
  null : ∀ l, P l .null
  bool : ∀ l b, P l (.bool b)
  num : ∀ l n, P l (.num n)
  str : ∀ l {s}, S s → P l (.str s)
  arr : ∀ {l items}, (∀ v ∈ items, P l v) → P (l + 1) (.arr items)
  obj : ∀ {l members}, (∀ m ∈ members, S m.1 ∧ P l m.2) → P (l + 1) (.obj members)

section Induction

variable {R S : CStr → Prop} {P : Nat → Cjson ν → Prop} {Q : Cjson ν → Prop}
variable {value : CStr → Option (Cjson ν × CStr)}

/-- `value` reads values with `Q` and keeps `R`. -/
def Reads (R : CStr → Prop) (Q : Cjson ν → Prop) (value : CStr → Option (Cjson ν × CStr)) : Prop :=
  ∀ b v rest, R b → value b = some (v, rest) → Q v ∧ R rest

theorem parseElements_keeps (hk : Keeps strtod R S) (hv : Reads R Q value) :
    ∀ {turns : Nat} {b : CStr} {vs : List (Cjson ν)} {rest : CStr}, R b →
      parseElements value turns b = some (vs, rest) → (∀ v ∈ vs, Q v) ∧ R rest := by
  intro turns
  induction turns with
  | zero =>
    intro b vs rest _ h
    cases h
  | succ turns ih =>
    intro b vs rest hb h
    rw [parseElements] at h
    obtain ⟨⟨v, b₁⟩, hvalue, h⟩ := Option.bind_eq_some_iff.mp h
    obtain ⟨hq, hb₁⟩ := hv _ _ _ (hk.skip hb) hvalue
    have hb₂ := hk.skip hb₁
    dsimp only at h
    split at h
    · next b₂ heq =>
      rw [heq] at hb₂
      obtain ⟨⟨vs', b₃⟩, hloop, h⟩ := Option.bind_eq_some_iff.mp h
      obtain ⟨hall, hrest⟩ := ih (hk.tail (by decide) hb₂) hloop
      cases h
      exact ⟨List.forall_mem_cons.mpr ⟨hq, hall⟩, hrest⟩
    · next b₂ heq =>
      rw [heq] at hb₂
      cases h
      exact ⟨List.forall_mem_singleton.mpr hq, hk.tail (by decide) hb₂⟩
    · cases h

theorem parseMembers_keeps (hk : Keeps strtod R S) (hv : Reads R Q value) :
    ∀ {turns : Nat} {b : CStr} {ms : List (CStr × Cjson ν)} {rest : CStr}, R b →
      parseMembers value turns b = some (ms, rest) → (∀ m ∈ ms, S m.1 ∧ Q m.2) ∧ R rest := by
  intro turns
  induction turns with
  | zero =>
    intro b ms rest _ h
    cases h
  | succ turns ih =>
    intro b ms rest hb h
    rw [parseMembers] at h
    split at h
    · cases h
    · obtain ⟨⟨name, b₁⟩, hname, h⟩ := Option.bind_eq_some_iff.mp h
      obtain ⟨hs, hb₁⟩ := hk.string (hk.skip hb) hname
      have hb₂ := hk.skip hb₁
      dsimp only at h
      split at h
      · next b₂ heq =>
        rw [heq] at hb₂
        obtain ⟨⟨v, b₃⟩, hvalue, h⟩ := Option.bind_eq_some_iff.mp h
        obtain ⟨hq, hb₃⟩ := hv _ _ _ (hk.skip (hk.tail (by decide) hb₂)) hvalue
        have hb₄ := hk.skip hb₃
        dsimp only at h
        split at h
        · next b₅ heq =>
          rw [heq] at hb₄
          obtain ⟨⟨ms', b₆⟩, hloop, h⟩ := Option.bind_eq_some_iff.mp h
          obtain ⟨hall, hrest⟩ := ih (hk.tail (by decide) hb₄) hloop
          cases h
          exact ⟨List.forall_mem_cons.mpr ⟨⟨hs, hq⟩, hall⟩, hrest⟩
        · next b₅ heq =>
          rw [heq] at hb₄
          cases h
          exact ⟨List.forall_mem_singleton.mpr ⟨hs, hq⟩, hk.tail (by decide) hb₄⟩
        · cases h
      · cases h

theorem parseArray_keeps (hk : Keeps strtod R S) (hv : Reads R Q value) {b rest : CStr}
    {v : Cjson ν} (hb : R b) (h : parseArray value b = some (v, rest)) :
    (∃ items, v = .arr items ∧ ∀ x ∈ items, Q x) ∧ R rest := by
  have hskip := hk.skip hb
  rw [parseArray] at h
  split at h
  · cases h
  · next b₁ heq =>
    rw [heq] at hskip
    cases h
    exact ⟨⟨[], rfl, List.forall_mem_nil _⟩, hk.tail (by decide) hskip⟩
  · obtain ⟨⟨items, b₁⟩, hloop, h⟩ := Option.map_eq_some_iff.mp h
    obtain ⟨hall, hrest⟩ := parseElements_keeps hk hv hskip hloop
    cases h
    exact ⟨⟨items, rfl, hall⟩, hrest⟩

theorem parseObject_keeps (hk : Keeps strtod R S) (hv : Reads R Q value) {b rest : CStr}
    {v : Cjson ν} (hb : R b) (h : parseObject value b = some (v, rest)) :
    (∃ members, v = .obj members ∧ ∀ m ∈ members, S m.1 ∧ Q m.2) ∧ R rest := by
  have hskip := hk.skip hb
  rw [parseObject] at h
  split at h
  · cases h
  · next b₁ heq =>
    rw [heq] at hskip
    cases h
    exact ⟨⟨[], rfl, List.forall_mem_nil _⟩, hk.tail (by decide) hskip⟩
  · obtain ⟨⟨members, b₁⟩, hloop, h⟩ := Option.map_eq_some_iff.mp h
    obtain ⟨hall, hrest⟩ := parseMembers_keeps hk hv hskip hloop
    cases h
    exact ⟨⟨members, rfl, hall⟩, hrest⟩

/-- A literal is taken off byte by byte. -/
theorem keeps_drop (hk : Keeps strtod R S) {pre b : CStr} (hpre : ∀ c ∈ pre, c < 128)
    (h : pre.isPrefixOf b = true) (hb : R b) : R (b.drop pre.length) := by
  obtain ⟨t, rfl⟩ := List.isPrefixOf_iff_prefix.mp h
  rw [List.drop_left' rfl]
  induction pre with
  | nil => exact hb
  | cons c pre ih =>
    obtain ⟨hc, hpre⟩ := List.forall_mem_cons.mp hpre
    exact ih hpre (List.isPrefixOf_iff_prefix.mpr (List.prefix_append pre t)) (hk.tail hc hb)

theorem parseValueWith_keeps (hk : Keeps strtod R S) {l : Nat} (hbuild : Builds S P)
    {array object : CStr → Option (Cjson ν × CStr)} (harray : Reads R (P l) array)
    (hobject : Reads R (P l) object) : Reads R (P l) (parseValueWith strtod array object) := by
  intro b v rest hb h
  unfold parseValueWith at h
  split at h
  · next hlit =>
    cases h
    exact ⟨hbuild.null l, keeps_drop hk (forall_of_all rfl) hlit hb⟩
  · split at h
    · next hlit =>
      cases h
      exact ⟨hbuild.bool l false, keeps_drop hk (forall_of_all rfl) hlit hb⟩
    · split at h
      · next hlit =>
        cases h
        exact ⟨hbuild.bool l true, keeps_drop hk (forall_of_all rfl) hlit hb⟩
      · split at h
        · cases h
        · next c t =>
          split at h
          · obtain ⟨⟨s, b₁⟩, hstring, h⟩ := Option.map_eq_some_iff.mp h
            obtain ⟨hs, hrest⟩ := hk.string hb hstring
            cases h
            exact ⟨hbuild.str l hs, hrest⟩
          · split at h
            · obtain ⟨⟨n, rfl⟩, hrest⟩ := hk.number hb h
              exact ⟨hbuild.num l n, hrest⟩
            · split at h
              · next hc => exact harray _ _ _ (hk.tail (hc ▸ by decide) hb) h
              · split at h
                · next hc => exact hobject _ _ _ (hk.tail (hc ▸ by decide) hb) h
                · cases h

theorem parseValue_keeps (hk : Keeps strtod R S) (hbuild : Builds S P) :
    ∀ levels, Reads R (P levels) (parseValue strtod levels) := by
  intro levels
  induction levels with
  | zero =>
    have hnone : Reads R (P 0) fun _ => none := by
      intro b v rest _ h
      cases h
    exact parseValueWith_keeps hk hbuild hnone hnone
  | succ levels ih =>
    refine parseValueWith_keeps hk hbuild ?_ ?_
    · intro b v rest hb h
      obtain ⟨⟨items, rfl, hall⟩, hrest⟩ := parseArray_keeps hk ih hb h
      exact ⟨hbuild.arr hall, hrest⟩
    · intro b v rest hb h
      obtain ⟨⟨members, rfl, hall⟩, hrest⟩ := parseObject_keeps hk ih hb h
      exact ⟨hbuild.obj hall, hrest⟩

end Induction

/-! ## UTF-8 of a string -/

theorem hexNibble_spec {c : UInt8} {d : Nat} (h : hexNibble c = some d) : Ascii c ∧ d < 16 := by
  have hbounds : c.toNat ≤ 102 ∧ d < 16 := by
    unfold hexNibble at h
    simp only [Bool.and_eq_true, decide_eq_true_eq, UInt8.le_iff_toNat_le] at h
    have h57 : (57 : UInt8).toNat = 57 := rfl
    have h65 : (65 : UInt8).toNat = 65 := rfl
    have h70 : (70 : UInt8).toNat = 70 := rfl
    have h97 : (97 : UInt8).toNat = 97 := rfl
    have h102 : (102 : UInt8).toNat = 102 := rfl
    split at h
    · cases h
      omega
    · split at h
      · cases h
        omega
      · split at h
        · cases h
          omega
        · cases h
  refine ⟨?_, hbounds.2⟩
  show c.toNat < 128
  omega

theorem ascii_of_parseHex4 {s : CStr} (h : parseHex4 s ≠ 0) : ∀ c ∈ s.take 4, Ascii c := by
  rw [parseHex4] at h
  generalize s.take 4 = ds at h
  obtain ⟨n, hn⟩ : ∃ n, ds.foldlM (fun h c => (hexNibble c).map fun d => h <<< 4 + d) 0 = some n := by
    cases hfold : ds.foldlM (fun h c => (hexNibble c).map fun d => h <<< 4 + d) 0 with
    | none => exact absurd (by rw [hfold]; rfl) h
    | some n => exact ⟨n, rfl⟩
  clear h
  generalize (0 : Nat) = h₀ at hn
  induction ds generalizing h₀ with
  | nil => exact List.forall_mem_nil _
  | cons d ds ih =>
    rw [List.foldlM_cons] at hn
    obtain ⟨h₁, hd, hrest⟩ := Option.bind_eq_some_iff.mp hn
    obtain ⟨x, hx, -⟩ := Option.map_eq_some_iff.mp hd
    exact List.forall_mem_cons.mpr ⟨(hexNibble_spec hx).1, ih h₁ hrest⟩

theorem parseHex4_lt (s : CStr) : parseHex4 s < 65536 := by
  have hfold : ∀ (ds : CStr) (h₀ n : Nat),
      ds.foldlM (fun h c => (hexNibble c).map fun d => h <<< 4 + d) h₀ = some n →
        n < 16 ^ ds.length * (h₀ + 1) := by
    intro ds
    induction ds with
    | nil =>
      intro h₀ n h
      cases h
      simp
    | cons d ds ih =>
      intro h₀ n h
      rw [List.foldlM_cons] at h
      obtain ⟨h₁, hd, hrest⟩ := Option.bind_eq_some_iff.mp h
      obtain ⟨x, hx, rfl⟩ := Option.map_eq_some_iff.mp hd
      have hlt := ih _ _ hrest
      have hx' := (hexNibble_spec hx).2
      rw [Nat.shiftLeft_eq] at hlt
      rw [List.length_cons, Nat.pow_succ, Nat.mul_assoc]
      exact hlt.trans_le (Nat.mul_le_mul_left _ (by omega))
  rw [parseHex4]
  cases h : (s.take 4).foldlM (fun h c => (hexNibble c).map fun d => h <<< 4 + d) 0 with
  | none => decide
  | some n =>
    have hlt := hfold _ _ _ h
    have hpow : 16 ^ (s.take 4).length ≤ 16 ^ 4 :=
      Nat.pow_le_pow_right (by decide) (List.length_take_le 4 s)
    rw [Option.getD_some]
    omega

/-- A code point that is no surrogate is written as its character. -/
theorem utf8Bytes_scalar {n : Nat} (hn : n < 0xD800 ∨ 0xDFFF < n ∧ n < 0x110000) :
    utf8Bytes n = some (String.utf8EncodeChar (Char.ofNat n)) := by
  have hchar : (Char.ofNat n).toNat = n := by
    rw [Char.ofNat, dif_pos hn]
    rfl
  have h := utf8Bytes_char (Char.ofNat n)
  rwa [hchar] at h

theorem zero_notMem_utf8EncodeChar {c : Char} (h0 : c.toNat ≠ 0) :
    0 ∉ String.utf8EncodeChar c := by
  have hv : c.val.toNat = c.toNat := rfl
  rcases utf8EncodeChar_cases c with ⟨b, -, heq⟩ | hnot
  · rw [heq, List.mem_singleton]
    rintro rfl
    unfold String.utf8EncodeChar at heq
    dsimp only at heq
    split at heq
    · have hb := congrArg UInt8.toNat (List.cons.inj heq).1
      rw [UInt8.toNat_ofNat', UInt8.toNat_zero] at hb
      omega
    · split at heq
      · simp at heq
      · split at heq <;> simp at heq
  · exact fun h => hnot 0 h (by decide)

/-- What one `\u` literal writes: a NUL first, or a character, and then every byte it takes is
ASCII. -/
theorem utf16LiteralToUtf8_cases {t bytes : CStr} {len : Nat}
    (h : utf16LiteralToUtf8 (92 :: 117 :: t) = some (bytes, len)) :
    (∃ rest, bytes = 0 :: rest) ∨
      (Valid bytes ∧ 0 ∉ bytes ∧ ∀ c ∈ (92 :: 117 :: t).take len, Ascii c) := by
  have hcharacter : ∀ {n : Nat} {bytes : CStr}, n < 0xD800 ∨ 0xDFFF < n ∧ n < 0x110000 → n ≠ 0 →
      utf8Bytes n = some bytes → Valid bytes ∧ 0 ∉ bytes := by
    intro n bytes hn hne hbytes
    rw [utf8Bytes_scalar hn] at hbytes
    cases hbytes
    have hchar : (Char.ofNat n).toNat = n := by
      rw [Char.ofNat, dif_pos hn]
      rfl
    exact ⟨⟨[Char.ofNat n], by simp⟩, zero_notMem_utf8EncodeChar (by rw [hchar]; exact hne)⟩
  have hfirstLt := parseHex4_lt t
  have hcode : parseHex4 ((92 :: 117 :: t).drop 2) = parseHex4 t := rfl
  have hsecond : (92 :: 117 :: t).drop 6 = t.drop 4 := rfl
  unfold utf16LiteralToUtf8 at h
  dsimp only at h
  rw [hcode, hsecond] at h
  split at h
  · cases h
  · split at h
    · cases h
    · split at h
      · next hsurrogate =>
        split at h
        · cases h
        · split at h
          · cases h
          · next hescape =>
            split at h
            · cases h
            · next hlow =>
              obtain ⟨bytes', hbytes, h⟩ := Option.map_eq_some_iff.mp h
              cases h
              have hmod : ∀ n, n &&& 0x3FF = n % 1024 := fun n => Nat.and_two_pow_sub_one_eq_mod n 10
              have hjoined : 0x10000 + (((parseHex4 t &&& 0x3FF) <<< 10) |||
                  (parseHex4 ((t.drop 4).drop 2) &&& 0x3FF)) =
                  0x10000 + (parseHex4 t % 1024 * 1024 + parseHex4 ((t.drop 4).drop 2) % 1024) := by
                rw [hmod, hmod, ← Nat.shiftLeft_add_eq_or_of_lt (Nat.mod_lt _ (by decide)),
                  Nat.shiftLeft_eq]
              rw [hjoined] at hbytes
              obtain ⟨hvalid, hzero⟩ := hcharacter (by omega) (by omega) hbytes
              have htake : (92 :: 117 :: t).take 12 = 92 :: 117 :: (t.take 4 ++
                  ((t.drop 4).take 2 ++ ((t.drop 4).drop 2).take 4)) := by
                rw [← List.take_add, ← List.take_add]
                rfl
              have hhigh := ascii_of_parseHex4 (show parseHex4 t ≠ 0 by omega)
              have hlast := ascii_of_parseHex4 (show parseHex4 ((t.drop 4).drop 2) ≠ 0 by omega)
              rw [htake, not_not.mp hescape]
              refine .inr ⟨hvalid, hzero, ?_⟩
              simp only [List.forall_mem_cons, List.forall_mem_append]
              exact ⟨by decide, by decide, hhigh, ⟨by decide, by decide, List.forall_mem_nil _⟩, hlast⟩
      · obtain ⟨bytes', hbytes, h⟩ := Option.map_eq_some_iff.mp h
        cases h
        by_cases h0 : parseHex4 t = 0
        · rw [h0] at hbytes
          cases hbytes
          exact .inl ⟨[], rfl⟩
        · have hascii := ascii_of_parseHex4 h0
          obtain ⟨hvalid, hzero⟩ := hcharacter (by omega) h0 hbytes
          refine .inr ⟨hvalid, hzero, ?_⟩
          exact List.forall_mem_cons.mpr ⟨by decide, List.forall_mem_cons.mpr ⟨by decide, hascii⟩⟩

theorem cstr_append_of_noNul {s : CStr} (h : 0 ∉ s) (t : CStr) : cstr (s ++ t) = s ++ cstr t :=
  List.takeWhile_append_of_pos fun _ hc => decide_eq_true (ne_of_mem_of_not_mem hc h)

theorem ascii_of_shortEscape {c b : UInt8} (h : shortEscape c = some b) :
    Ascii c ∧ Ascii b ∧ b ≠ 0 := by
  unfold shortEscape at h
  split at h
  all_goals first
    | cases h; decide
    | cases h

/-- The second loop of `parse_string`: `p` holds the bytes written since the last cut. -/
theorem valid_unescape : ∀ {turns : Nat} {p input output : CStr} {n : Nat},
    Valid (p ++ input.take n) → unescape turns input n = some output → Valid (p ++ cstr output) := by
  intro turns
  induction turns with
  | zero =>
    intro p input output n hvalid h
    cases n with
    | zero =>
      cases h
      simpa [cstr] using hvalid
    | succ n => cases h
  | succ turns ih =>
    intro p input output n hvalid h
    cases n with
    | zero =>
      cases h
      simpa [cstr] using hvalid
    | succ n =>
      rw [unescape] at h
      obtain ⟨⟨bytes, len⟩, hturn, h⟩ := Option.bind_eq_some_iff.mp h
      obtain ⟨rest, hrest, h⟩ := Option.bind_eq_some_iff.mp h
      cases h
      cases input with
      | nil => cases hturn
      | cons c input =>
        rw [List.take_succ_cons] at hvalid
        unfold unescapeTurn at hturn
        dsimp only at hturn
        split at hturn
        · cases hturn
          by_cases h0 : c = 0
          · subst h0
            have hp := ((valid_append_ascii (by decide)).mp hvalid).1
            simpa [cstr] using hp
          · have hcut : Valid (p ++ [c] ++ input.take n) := by simpa using hvalid
            rw [cstr_append_of_noNul (by simpa using Ne.symm h0), ← List.append_assoc]
            exact ih hcut hrest
        · next hslash =>
          obtain rfl := not_not.mp hslash
          obtain ⟨hp, hinput⟩ := (valid_append_ascii (by decide)).mp hvalid
          split at hturn
          · next hu =>
            obtain ⟨t, rfl⟩ := List.head?_eq_some_iff.mp hu
            cases n with
            | zero => cases hturn
            | succ n =>
              rw [List.take_succ_cons, List.take_succ_cons] at hturn
              rcases utf16LiteralToUtf8_cases hturn with ⟨bytes, rfl⟩ | ⟨hbytes, hzero, hascii⟩
              · simpa [cstr] using hp
              · have hleft : Valid (((92 :: 117 :: t).drop len).take (n + 1 + 1 - len)) := by
                  rw [← List.drop_take, List.take_succ_cons, List.take_succ_cons]
                  rw [← valid_cons_ascii (b := 92) (by decide), List.take_succ_cons,
                    ← List.take_append_drop len (92 :: 117 :: t.take n)] at hinput
                  exact (valid_ascii_append hascii).mp hinput
                rw [cstr_append_of_noNul hzero, ← List.append_assoc]
                exact ih ((hp.append hbytes).append hleft) hrest
          · obtain ⟨b, hshort, hturn⟩ := Option.map_eq_some_iff.mp hturn
            cases hturn
            obtain ⟨e, he, hshort⟩ := Option.bind_eq_some_iff.mp hshort
            obtain ⟨t, rfl⟩ := List.head?_eq_some_iff.mp he
            obtain ⟨heAscii, hbAscii, hb0⟩ := ascii_of_shortEscape hshort
            have hb : Valid [b] := valid_of_ascii (List.forall_mem_singleton.mpr hbAscii)
            have hleft : Valid (t.take (n - 1)) := by
              cases n with
              | zero => exact valid_nil
              | succ n =>
                rw [List.take_succ_cons, valid_cons_ascii heAscii] at hinput
                exact hinput
            rw [cstr_append_of_noNul (by simpa using Ne.symm hb0), ← List.append_assoc]
            exact ih ((hp.append hb).append hleft) hrest

theorem closingQuote_spec {s : CStr} {n : Nat} (h : closingQuote s = some n) :
    ∃ rest, s.drop n = 34 :: rest := by
  induction s using closingQuote.induct generalizing n with
  | case1 => cases h
  | case2 rest =>
    rw [closingQuote.eq_def] at h
    cases h
    exact ⟨rest, rfl⟩
  | case3 => cases h
  | case4 b rest _ ih =>
    rw [closingQuote_slash] at h
    obtain ⟨m, hm, rfl⟩ := Option.map_eq_some_iff.mp h
    exact ih hm
  | case5 c rest hquote hslash ih =>
    rw [closingQuote.eq_def] at h
    dsimp only at h
    rw [if_neg hquote, if_neg hslash] at h
    obtain ⟨m, hm, rfl⟩ := Option.map_eq_some_iff.mp h
    exact ih hm

theorem parseString_valid {b s rest : CStr} (hb : Valid b) (h : parseString b = some (s, rest)) :
    Valid (cstr s) ∧ Valid rest := by
  unfold parseString at h
  split at h
  · next input =>
    obtain ⟨n, hn, h⟩ := Option.bind_eq_some_iff.mp h
    obtain ⟨output, hout, h⟩ := Option.bind_eq_some_iff.mp h
    cases h
    obtain ⟨t, ht⟩ := closingQuote_spec hn
    have hinput : Valid (input.take n ++ 34 :: t) := by
      rw [← ht, List.take_append_drop]
      exact (valid_cons_ascii (by decide)).mp hb
    obtain ⟨hraw, hrest⟩ := (valid_append_ascii (by decide)).mp hinput
    have hdrop : input.drop (n + 1) = t := by
      rw [← List.drop_drop, ht]
      rfl
    rw [hdrop]
    exact ⟨valid_unescape (p := []) hraw hout, hrest⟩
  · cases h

/-! ## UTF-8 of the rest of the buffer -/

theorem valid_skipWhitespace {b : CStr} (hb : Valid b) : Valid (skipWhitespace b) := by
  have hblank : ∀ c ∈ b.takeWhile (· ≤ 32), Ascii c := by
    intro c hc
    have hle := List.mem_takeWhile_imp hc
    rw [decide_eq_true_eq, UInt8.le_iff_toNat_le] at hle
    have h32 : (32 : UInt8).toNat = 32 := rfl
    show c.toNat < 128
    omega
  have hsplit := List.takeWhile_append_dropWhile (p := (· ≤ (32 : UInt8))) (l := b)
  unfold skipWhitespace
  split
  · next hnil =>
    rw [hnil, List.append_nil] at hsplit
    rw [hsplit] at hblank
    exact valid_of_ascii fun c hc => hblank c (List.mem_of_mem_drop hc)
  · rw [← hsplit] at hb
    exact (valid_ascii_append hblank).mp hb

theorem ascii_of_isNumberByte {c : UInt8} (h : isNumberByte c = true) : Ascii c := by
  simp only [isNumberByte, isDigit, Bool.or_eq_true, Bool.and_eq_true, decide_eq_true_eq] at h
  rcases h with ((((h | rfl) | rfl) | rfl) | rfl) | rfl
  · have hle : c.toNat ≤ 57 := h.2
    show c.toNat < 128
    omega
  all_goals decide

/-- `strtod` stays inside the text it is given. -/
def StaysInside (strtod : CStr → Option (ν × Nat)) : Prop :=
  ∀ s n len, strtod s = some (n, len) → len ≤ s.length

theorem parseNumber_valid (hstrtod : StaysInside strtod) {b rest : CStr} {v : Cjson ν}
    (hb : Valid b) (h : parseNumber strtod b = some (v, rest)) : Valid rest := by
  obtain ⟨⟨n, len⟩, hread, h⟩ := Option.map_eq_some_iff.mp h
  cases h
  have hlen := hstrtod _ _ _ hread
  have hfirst : numberCString b <+: b :=
    (List.takeWhile_prefix isNumberByte).trans (List.take_prefix 63 b)
  have hascii : ∀ c ∈ b.take len, Ascii c := by
    obtain ⟨t, ht⟩ := hfirst
    intro c hc
    rw [← ht, List.take_append_of_le_length hlen] at hc
    exact ascii_of_isNumberByte (List.mem_takeWhile_imp (List.mem_of_mem_take hc))
  rw [← List.take_append_drop len b] at hb
  exact (valid_ascii_append hascii).mp hb

/-- The byte order mark is a character. -/
theorem valid_after_bom {t : CStr} (h : Valid (0xEF :: 0xBB :: 0xBF :: t)) : Valid t := by
  obtain ⟨cs, hcs⟩ := h
  cases cs with
  | nil => cases hcs
  | cons c cs =>
    rw [List.flatMap_cons] at hcs
    have hhead : ∀ {n : Nat}, n < 256 → n ≠ 0xEF → UInt8.ofNat n ≠ 0xEF := by
      intro n hn hne h
      have h' := congrArg UInt8.toNat h
      rw [UInt8.toNat_ofNat', Nat.mod_eq_of_lt hn] at h'
      exact hne h'
    unfold String.utf8EncodeChar at hcs
    dsimp only at hcs
    split at hcs
    · exact absurd (List.cons.inj hcs).1 (hhead (by omega) (by omega))
    · split at hcs
      · exact absurd (List.cons.inj hcs).1 (hhead (by omega) (by omega))
      · split at hcs
        · injection hcs with _ hcs
          injection hcs with _ hcs
          injection hcs with _ hcs
          exact ⟨cs, hcs⟩
        · exact absurd (List.cons.inj hcs).1 (hhead (by omega) (by omega))

theorem valid_skipUtf8Bom {b : CStr} (hb : Valid b) : Valid (skipUtf8Bom b) := by
  unfold skipUtf8Bom
  split
  · next hbom =>
    obtain ⟨t, rfl⟩ := List.isPrefixOf_iff_prefix.mp ((Bool.and_eq_true _ _).mp hbom).2
    exact valid_after_bom hb
  · exact hb

/-! ## Every value -/

theorem parseNumber_num {b rest : CStr} {v : Cjson ν} (h : parseNumber strtod b = some (v, rest)) :
    ∃ n, v = .num n := by
  obtain ⟨⟨n, len⟩, -, h⟩ := Option.map_eq_some_iff.mp h
  exact ⟨n, (Prod.mk.inj h).1.symm⟩

theorem keeps_anything : Keeps strtod (fun _ => True) (fun _ => True) where
  skip := fun _ => trivial
  tail := fun _ _ => trivial
  string := fun _ _ => ⟨trivial, trivial⟩
  number := fun _ h => ⟨parseNumber_num h, trivial⟩

theorem keeps_valid (hstrtod : StaysInside strtod) :
    Keeps strtod Valid fun s => Valid (cstr s) where
  skip := valid_skipWhitespace
  tail := fun hc hb => (valid_cons_ascii hc).mp hb
  string := parseString_valid
  number := fun hb h => ⟨parseNumber_num h, parseNumber_valid hstrtod hb h⟩

theorem depth_arr_le {items : List (Cjson ν)} {n : Nat} (h : ∀ v ∈ items, v.depth ≤ n) :
    (Cjson.arr items).depth ≤ n + 1 := by
  rw [Cjson.depth]
  apply Nat.succ_le_succ
  induction items with
  | nil => exact Nat.zero_le n
  | cons v items ih =>
    obtain ⟨hv, hitems⟩ := List.forall_mem_cons.mp h
    rw [Cjson.depthItems]
    exact Nat.max_le.mpr ⟨hv, ih hitems⟩

theorem builds_depth : Builds (fun _ => True) fun l (v : Cjson ν) => v.depth ≤ l where
  null := Nat.zero_le
  bool := fun l _ => Nat.zero_le l
  num := fun l _ => Nat.zero_le l
  str := fun l _ _ => Nat.zero_le l
  arr := depth_arr_le
  obj := fun h => Cjson.depth_obj_le fun m hm => (h m hm).2

theorem builds_valid : Builds (fun s => Valid (cstr s)) fun _ (v : Cjson ν) => v.AllValid where
  null := fun _ => Cjson.allValid_null
  bool := fun _ => Cjson.allValid_bool
  num := fun _ => Cjson.allValid_num
  str := fun _ {s} hs => (Cjson.allValid_str s).mpr hs
  arr := fun {_ items} h => (Cjson.allValid_arr items).mpr h
  obj := fun {_ members} h => (Cjson.allValid_obj members).mpr h

/-- What `cJSON_Parse` makes of any text. -/
theorem parsed_value_is_printable (hstrtod : StaysInside strtod) {text : CStr} {v : Cjson ν}
    (h : cjsonParse strtod text = some v) :
    v.depth ≤ nestingLimit ∧ (Valid text → v.AllValid) := by
  obtain ⟨⟨v', rest⟩, hvalue, rfl⟩ := Option.map_eq_some_iff.mp h
  constructor
  · exact (parseValue_keeps keeps_anything builds_depth _ _ _ _ trivial hvalue).1
  · intro htext
    have hbuffer : Valid (text ++ [0]) := (valid_concat_ascii (by decide)).mpr htext
    exact (parseValue_keeps (keeps_valid hstrtod) builds_valid _ _ _ _
      (valid_skipWhitespace (valid_skipUtf8Bom hbuffer)) hvalue).1

theorem staysInside_byte : StaysInside fun s => some (JsonTexts.readByte s, s.length) := by
  intro s n len h
  cases h
  exact Nat.le_refl _

/-- `"é\u000x"`, where the escape writes a NUL. -/
def wrongDigit : CStr := [34, 0xC3, 0xA9, 92, 117, 48, 48, 48, 120, 34]

theorem parse_wrongDigit :
    cjsonParse (fun s => some (JsonTexts.readByte s, s.length)) wrongDigit =
      some (.str [0xC3, 0xA9, 0]) := by
  have hbuffer : skipWhitespace (skipUtf8Bom (wrongDigit ++ [0])) = wrongDigit ++ [0] := by decide
  have hstring : parseString (wrongDigit ++ [0]) = some ([0xC3, 0xA9, 0], [0]) := by decide
  obtain ⟨array, object, hvalue⟩ :=
    JsonTexts.parseValue_eq (fun s => some (JsonTexts.readByte s, s.length)) nestingLimit
  have hcons : wrongDigit ++ [0] = 34 :: (wrongDigit.tail ++ [0]) := rfl
  rw [cjsonParse, hbuffer, hvalue, hcons, JsonTexts.parseValueWith_cons (by decide), if_pos rfl,
    ← hcons, hstring]
  rfl

theorem wrongDigit_is_printable :
    (Cjson.str [0xC3, 0xA9, 0] : Cjson UInt8).depth ≤ nestingLimit ∧
      (Valid wrongDigit → (Cjson.str [0xC3, 0xA9, 0] : Cjson UInt8).AllValid) :=
  parsed_value_is_printable staysInside_byte parse_wrongDigit

/-! ## A conversation

What a client gets that writes JSON texts, one on each line. -/

section Conversation

open Lib.Lines LineFraming JsonTexts
open Lib.JsonDoc
open Lib.JsonText (Number)
open Lib.JsonValue (Blank)

variable {σ : Type} {number : CStr → ν} {printNumber : ν → CStr} {env : IpcEnv ν σ} {st : σ} {c : IpcClient}

/-- A byte of a JSON text is no NUL. -/
theorem noNul_chars {cs content : CStr} (h : Chars cs content) : 0 ∉ cs := by
  have hhex : ∀ {ds : CStr} {n : Nat}, HexUnit ds n → 0 ∉ ds := by
    intro ds n hd hzero
    cases List.all_eq_true.mp hd.hex 0 hzero
  induction h with
  | nil => exact List.not_mem_nil
  | @plain b cs s hb _ ih =>
    have hne : b ≠ 0 := by
      rintro rfl
      exact absurd hb.1 (by decide)
    simp [hne.symm, ih]
  | @escape p cs s hp _ ih =>
    have hne : ∀ p ∈ Lib.JsonValue.escapes, p.1 ≠ 0 := by decide
    simp [(hne p hp).symm, ih]
  | unicode hd _ ih => simp [hhex hd, ih]
  | surrogates _ hhi hlo _ ih => simp [hhex hhi, hhex hlo, ih]

theorem noNul_quoted {content s : CStr} (h : Quoted content s) : 0 ∉ s := by
  obtain ⟨cs, hcs, rfl⟩ := h
  simp [noNul_chars hcs]

theorem noNul_blank {s : CStr} (h : Blank s) : 0 ∉ s := fun hzero => absurd (h 0 hzero) (by decide)

theorem noNul_padded {p : CStr → Prop} {s : CStr} (hp : ∀ t, p t → 0 ∉ t) (h : Padded p s) : 0 ∉ s := by
  obtain ⟨l, t, r, hl, ht, hr, rfl⟩ := h
  simp [noNul_blank hl, hp t ht, noNul_blank hr]

theorem noNul_number {s : CStr} (h : Number s) : 0 ∉ s := fun hzero =>
  absurd (isNumberByte_of_number h 0 hzero) (by decide)

mutual

theorem noNul_spells : ∀ (d : Doc) {s : CStr}, Spells d s → 0 ∉ s
  | .null, s, h => by
    rw [Spells] at h
    subst h
    decide
  | .bool b, s, h => by
    rw [Spells] at h
    subst h
    cases b <;> decide
  | .num text, s, h => by
    rw [Spells] at h
    obtain ⟨hnum, rfl⟩ := h
    exact noNul_number hnum
  | .str content, s, h => by
    rw [Spells] at h
    exact noNul_quoted h
  | .arr [], s, h => by
    rw [Spells] at h
    obtain ⟨w, hw, rfl⟩ := h
    simp [noNul_blank hw]
  | .arr (d :: ds), s, h => by
    rw [Spells] at h
    obtain ⟨e, rest, he, hrest, rfl⟩ := h
    simp [noNul_padded (fun t ht => noNul_spells d ht) he, noNul_items ds hrest]
  | .obj [], s, h => by
    rw [Spells] at h
    obtain ⟨w, hw, rfl⟩ := h
    simp [noNul_blank hw]
  | .obj ((name, d) :: ms), s, h => by
    rw [Spells] at h
    obtain ⟨k, e, rest, hk, he, hrest, rfl⟩ := h
    simp [noNul_padded (fun t ht => noNul_quoted ht) hk,
      noNul_padded (fun t ht => noNul_spells d ht) he, noNul_members ms hrest]

theorem noNul_items : ∀ (ds : List Doc) {s : CStr}, SpellsItems ds s → 0 ∉ s
  | [], s, h => by
    rw [SpellsItems] at h
    subst h
    exact List.not_mem_nil
  | d :: ds, s, h => by
    rw [SpellsItems] at h
    obtain ⟨e, rest, he, hrest, rfl⟩ := h
    simp [noNul_padded (fun t ht => noNul_spells d ht) he, noNul_items ds hrest]

theorem noNul_members : ∀ (ms : List (CStr × Doc)) {s : CStr}, SpellsMembers ms s → 0 ∉ s
  | [], s, h => by
    rw [SpellsMembers] at h
    subst h
    exact List.not_mem_nil
  | (name, d) :: ms, s, h => by
    rw [SpellsMembers] at h
    obtain ⟨k, e, rest, hk, he, hrest, rfl⟩ := h
    simp [noNul_padded (fun t ht => noNul_quoted ht) hk,
      noNul_padded (fun t ht => noNul_spells d ht) he, noNul_members ms hrest]

end

end Conversation

end Proxiflare.Guarantees.ParsedLines
