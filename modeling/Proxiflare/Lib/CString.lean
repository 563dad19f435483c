import Mathlib.Data.Nat.Digits.Defs
import Mathlib.Data.Nat.Digits.Lemmas
import Mathlib.Data.List.Infix
import Mathlib.Data.List.TakeWhile

/-!
# C strings as byte lists

A `char *` is the list of its bytes before the terminating NUL. The functions
below follow `<string.h>`, `<strings.h>` and `<stdlib.h>` in the C locale. The
lemmas concern substring search and decimal rendering; nothing here depends on a
particular program.
-/

namespace Lib.CString

abbrev CStr := List UInt8

/-- What a pointer to the first of these bytes reads: the string stops at a NUL. -/
def cstr (bytes : List UInt8) : CStr := bytes.takeWhile (· ≠ 0)

/-- The bytes of an ASCII literal. -/
def lit (s : String) : CStr := s.toList.map fun c => UInt8.ofNat c.toNat

def isDigit (c : UInt8) : Bool := 48 ≤ c && c ≤ 57

def isSpace (c : UInt8) : Bool := c = 32 || (9 ≤ c && c ≤ 13)

def tolower (c : UInt8) : UInt8 := if 65 ≤ c && c ≤ 90 then c + 32 else c

/-- `strcasecmp(s, t) == 0`. -/
def strcaseeq (s t : CStr) : Bool := s.map tolower = t.map tolower

/-- `strncasecmp(s, t, n) == 0`. -/
def strncaseeq (s t : CStr) (n : Nat) : Bool := strcaseeq (s.take n) (t.take n)

/-- The suffix `strchr` points at. -/
def strchr (s : CStr) (c : UInt8) : Option CStr :=
  match s with
  | [] => none
  | d :: ds => if d = c then some (d :: ds) else strchr ds c

/-- The suffix `strrchr` points at. -/
def strrchr (s : CStr) (c : UInt8) : Option CStr :=
  match s with
  | [] => none
  | d :: ds => (strrchr ds c).or (if d = c then some (d :: ds) else none)

/-- The suffix `strstr` points at: the first occurrence of the needle. -/
def strstr (hay needle : CStr) : Option CStr :=
  if needle.isPrefixOf hay then some hay
  else match hay with
    | [] => none
    | _ :: cs => strstr cs needle

/-- The pieces `strtok_r` returns for a one-byte separator: empty ones are skipped. -/
def strtok (s : CStr) (sep : UInt8) : List CStr :=
  (s.splitOn sep).filter (· ≠ [])

/-- `strtol(s, NULL, 10)`: blanks, one sign, digits; saturates at `long`. -/
def strtol (s : CStr) : Int :=
  let s := s.dropWhile isSpace
  let value (ds : CStr) : Int :=
    (ds.takeWhile isDigit).foldl (fun v d => 10 * v + (d.toNat - 48 : Int)) 0
  let v := match s with
    | 45 :: ds => - value ds
    | 43 :: ds => value ds
    | ds => value ds
  max (-2 ^ 63) (min (2 ^ 63 - 1) v)

/-- `atoi`: `strtol` converted to a 32-bit `int`. -/
def atoi (s : CStr) : Int := (strtol s).bmod (2 ^ 32)

/-- `%d` and `%u` of a natural number. -/
def decimal (n : Nat) : CStr :=
  if n = 0 then [48] else (Nat.digits 10 n).reverse.map fun d => UInt8.ofNat (48 + d)

/-- A literal as a list of characters; reading them out of the string takes longer. -/
theorem lit_ofList (cs : List Char) :
    lit (String.ofList cs) = cs.map fun c => UInt8.ofNat c.toNat := by
  rw [lit, String.toList_ofList]

/-- A test of the bytes one by one: the quantifier may have instances that try all 256. -/
theorem forall_of_all {s : CStr} {p : UInt8 → Prop} [DecidablePred p]
    (h : (s.all fun c => p c) = true) : ∀ c ∈ s, p c :=
  fun c hc => of_decide_eq_true (List.all_eq_true.mp h c hc)

theorem forall_lit (cs : List Char) {p : UInt8 → Prop} [DecidablePred p]
    (h : ((cs.map fun c => UInt8.ofNat c.toNat).all fun c => p c) = true) :
    ∀ c ∈ lit (String.ofList cs), p c := by
  rw [lit_ofList]
  exact forall_of_all h

/-- A test that all 256 bytes pass. -/
theorem forall_byte {p : UInt8 → Bool}
    (h : ((List.range 256).all fun n => p (UInt8.ofNat n)) = true) (b : UInt8) : p b = true := by
  have hb := List.all_eq_true.mp h b.toNat (List.mem_range.mpr b.toNat_lt)
  rwa [UInt8.ofNat_toNat] at hb

/-- Two functions that agree on all 256 bytes. -/
theorem ext_bytes {β : Type*} [DecidableEq β] {f g : UInt8 → β}
    (h : ((List.range 256).all fun n => f (UInt8.ofNat n) == g (UInt8.ofNat n)) = true) : f = g :=
  funext fun b => eq_of_beq (forall_byte (p := fun b => f b == g b) h b)

theorem cstr_of_noNul {s : CStr} (h : 0 ∉ s) : cstr s = s := by
  rw [cstr, List.takeWhile_eq_self_iff]
  intro c hc
  exact decide_eq_true fun hz => h (hz ▸ hc)

theorem cstr_noNul (bytes : List UInt8) : 0 ∉ cstr bytes := by
  intro h
  simpa using List.mem_takeWhile_imp h

theorem prefix_cstr {x bytes : CStr} (hx : x <+: bytes) (h0 : 0 ∉ x) : x <+: cstr bytes := by
  obtain ⟨t, rfl⟩ := hx
  have hall : ∀ b ∈ x, decide (b ≠ 0) = true := fun b hb =>
    decide_eq_true fun hz => h0 (hz ▸ hb)
  unfold cstr
  rw [List.takeWhile_append_of_pos hall]
  exact List.prefix_append _ _

/-! ## Substring search -/

theorem strstr_of_isPrefix {hay needle : CStr} (h : needle <+: hay) :
    strstr hay needle = some hay := by
  unfold strstr
  rw [if_pos (List.isPrefixOf_iff_prefix.mpr h)]

theorem strstr_cons_of_not_isPrefix {c : UInt8} {cs needle : CStr} (h : ¬ needle <+: c :: cs) :
    strstr (c :: cs) needle = strstr cs needle := by
  rw [strstr, if_neg fun hp => h (List.isPrefixOf_iff_prefix.mp hp)]

theorem strstr_isSome_iff (hay needle : CStr) :
    (strstr hay needle).isSome ↔ needle <:+: hay := by
  induction hay with
  | nil =>
    by_cases h : needle <+: []
    · simp [strstr_of_isPrefix h, h.isInfix]
    · have hne : needle ≠ [] := fun he => h (he ▸ List.prefix_rfl)
      simp [strstr, hne]
  | cons c cs ih =>
    by_cases h : needle <+: c :: cs
    · simp [strstr_of_isPrefix h, h.isInfix]
    · rw [strstr_cons_of_not_isPrefix h, ih, List.infix_cons_iff]
      simp [h]

/-- A needle that starts at no earlier position is found right after `pre`. -/
theorem strstr_append {pre hay needle : CStr}
    (h : ∀ t, t <:+ pre → t ≠ [] → ¬ needle <+: t ++ hay) :
    strstr (pre ++ hay) needle = strstr hay needle := by
  induction pre with
  | nil => rfl
  | cons c cs ih =>
    have hhead : ¬ needle <+: c :: (cs ++ hay) := h (c :: cs) List.suffix_rfl (by simp)
    rw [List.cons_append, strstr_cons_of_not_isPrefix hhead]
    exact ih fun t ht => h t (ht.trans (List.suffix_cons c cs))

theorem prefix_of_prefix_append_sep {needle a b : CStr} {c : UInt8} (h : c ∉ needle)
    (hp : needle <+: a ++ c :: b) : needle <+: a := by
  rcases Nat.le_total needle.length a.length with hle | hle
  · exact List.prefix_of_prefix_length_le hp (List.prefix_append a _) hle
  · by_cases heq : needle.length = a.length
    · exact List.prefix_of_prefix_length_le hp (List.prefix_append a _) heq.le
    · have hlong : a ++ [c] <+: needle := by
        refine List.prefix_of_prefix_length_le ⟨b, by simp⟩ hp ?_
        simp only [List.length_append, List.length_singleton]
        omega
      exact absurd (hlong.subset (by simp)) h

/-- A byte that the needle lacks separates its occurrences. -/
theorem infix_append_sep_iff {needle a b : CStr} {c : UInt8} (h : c ∉ needle) :
    needle <:+: a ++ c :: b ↔ needle <:+: a ∨ needle <:+: b := by
  constructor
  · intro hin
    induction a with
    | nil =>
      rcases List.infix_cons_iff.mp hin with hp | hin
      · exact .inl (prefix_of_prefix_append_sep (a := []) h hp).isInfix
      · exact .inr hin
    | cons d a ih =>
      rcases List.infix_cons_iff.mp hin with hp | hin
      · exact .inl (prefix_of_prefix_append_sep (a := d :: a) h hp).isInfix
      · exact (ih hin).imp_left fun hin => hin.trans (List.suffix_cons d a).isInfix
  · intro hin
    rcases hin with hin | hin
    · exact hin.trans (List.prefix_append a _).isInfix
    · exact hin.trans ((List.suffix_cons c b).trans (List.suffix_append a _)).isInfix

/-- A needle that starts with a byte absent from `pre` is found right after it. -/
theorem strstr_append_of_head {pre hay needle : CStr} {c : UInt8} (h : c ∉ pre) :
    strstr (pre ++ c :: needle ++ hay) (c :: needle) = some (c :: needle ++ hay) := by
  rw [List.append_assoc, strstr_append, strstr_of_isPrefix (List.prefix_append _ _)]
  rintro t ht hne hp
  obtain ⟨d, t, rfl⟩ := List.exists_cons_of_ne_nil hne
  have hcd := (List.cons_prefix_cons.mp hp).1
  exact h (ht.subset (by simp [hcd]))

/-! ## Decimal rendering -/

theorem decimal_ne_nil (n : Nat) : decimal n ≠ [] := by
  unfold decimal
  split
  · simp
  · next h => simpa [Nat.digits_ne_nil_iff_ne_zero] using h

private theorem digit_isDigit {d : Nat} (h : d < 10) : isDigit (UInt8.ofNat (48 + d)) = true := by
  interval_cases d <;> decide

theorem isDigit_of_mem_decimal {n : Nat} {c : UInt8} (h : c ∈ decimal n) : isDigit c = true := by
  unfold decimal at h
  split at h
  · simp only [List.mem_singleton] at h
    subst h
    decide
  · simp only [List.mem_map, List.mem_reverse] at h
    obtain ⟨d, hd, rfl⟩ := h
    exact digit_isDigit (Nat.digits_lt_base (by decide) hd)

theorem decimal_length_le {n k : Nat} (hk : 0 < k) (h : n < 10 ^ k) : (decimal n).length ≤ k := by
  unfold decimal
  split
  · exact hk
  · rw [List.length_map, List.length_reverse]
    exact (Nat.digits_length_le_iff (by decide) n).mpr h

theorem lt_of_decimal_length_le {n k : Nat} (h : (decimal n).length ≤ k) : n < 10 ^ k := by
  unfold decimal at h
  split at h
  · next h0 =>
    rw [h0]
    exact Nat.pow_pos (by decide)
  · rw [List.length_map, List.length_reverse] at h
    exact (Nat.digits_length_le_iff (by decide) n).mp h

/-! ## Reading a decimal back -/

private theorem digit_value {d : Nat} (h : d < 10) :
    ((UInt8.ofNat (48 + d)).toNat : Int) - 48 = d := by
  simp only [UInt8.toNat_ofNat']
  omega

private theorem foldl_digits : ∀ {ds : List Nat}, (∀ d ∈ ds, d < 10) →
    (ds.reverse.map fun d => UInt8.ofNat (48 + d)).foldl
      (fun v c => 10 * v + ((c.toNat : Int) - 48)) 0 = (Nat.ofDigits 10 ds : Nat)
  | [], _ => rfl
  | d :: ds, h => by
    obtain ⟨hd, hds⟩ := List.forall_mem_cons.mp h
    rw [List.reverse_cons, List.map_append, List.foldl_append, foldl_digits hds,
      List.map_singleton, List.foldl_cons, List.foldl_nil, digit_value hd, Nat.ofDigits_cons]
    push_cast
    ring

private theorem foldl_decimal (n : Nat) :
    (decimal n).foldl (fun v c => 10 * v + ((c.toNat : Int) - 48)) 0 = n := by
  unfold decimal
  split
  · next h =>
    rw [h]
    decide
  · rw [foldl_digits fun d hd => Nat.digits_lt_base (by decide) hd, Nat.ofDigits_digits]

theorem takeWhile_isDigit_decimal (n : Nat) {c : UInt8} (hc : isDigit c = false) (rest : CStr) :
    (decimal n ++ c :: rest).takeWhile isDigit = decimal n := by
  rw [List.takeWhile_append_of_pos fun x hx => isDigit_of_mem_decimal hx,
    List.takeWhile_cons_of_neg (by simp [hc]), List.append_nil]

private theorem digit_not_special {d : UInt8} (h : isDigit d = true) :
    isSpace d = false ∧ d ≠ 45 ∧ d ≠ 43 := by
  simp only [isDigit, Bool.and_eq_true, decide_eq_true_eq, UInt8.le_iff_toNat_le] at h
  obtain ⟨hlo, hhi⟩ := h
  have hlo' : 48 ≤ d.toNat := hlo
  refine ⟨?_, ?_, ?_⟩
  · simp only [isSpace, Bool.or_eq_false_iff, decide_eq_false_iff_not, Bool.and_eq_false_iff,
      UInt8.le_iff_toNat_le]
    refine ⟨fun heq => ?_, .inr ?_⟩
    · rw [heq] at hlo'
      exact absurd hlo' (by decide)
    · show ¬ d.toNat ≤ 13
      omega
  · rintro rfl
    exact absurd hlo' (by decide)
  · rintro rfl
    exact absurd hlo' (by decide)

theorem strtol_of_digit {d : UInt8} {ds : CStr} (h : isDigit d = true) :
    strtol (d :: ds) = max (-2 ^ 63) (min (2 ^ 63 - 1)
      (((d :: ds).takeWhile isDigit).foldl (fun v c => 10 * v + ((c.toNat : Int) - 48)) 0)) := by
  obtain ⟨hsp, h45, h43⟩ := digit_not_special h
  unfold strtol
  rw [List.dropWhile_cons_of_neg (by simp [hsp])]
  simp only
  split
  · next ds' heq => exact absurd (List.cons.inj heq).1 h45
  · next ds' heq => exact absurd (List.cons.inj heq).1 h43
  · rfl

private theorem foldl_zeros (z : Nat) :
    (List.replicate z (48 : UInt8)).foldl (fun v c => 10 * v + ((c.toNat : Int) - 48)) 0 = 0 := by
  induction z with
  | zero => rfl
  | succ z ih => exact ih

/-- Leading zeros do not count. -/
theorem strtol_of_zeros {n z : Nat} (hn : n < 2 ^ 63) {s : CStr}
    (hs : s.takeWhile isDigit = List.replicate z 48 ++ decimal n) : strtol s = n := by
  have hne : List.replicate z 48 ++ decimal n ≠ [] :=
    List.append_ne_nil_of_right_ne_nil _ (decimal_ne_nil n)
  obtain ⟨d, ds, rfl⟩ : ∃ d ds, s = d :: ds := by
    cases s with
    | nil => exact absurd hs.symm hne
    | cons d ds => exact ⟨d, ds, rfl⟩
  have hdigit : isDigit d = true := by
    cases hd : isDigit d with
    | true => rfl
    | false =>
      rw [List.takeWhile_cons_of_neg (by simp [hd])] at hs
      exact absurd hs.symm hne
  rw [strtol_of_digit hdigit, hs, List.foldl_append, foldl_zeros, foldl_decimal]
  omega

theorem strtol_of_decimal {n : Nat} (hn : n < 2 ^ 63) {s : CStr}
    (hs : s.takeWhile isDigit = decimal n) : strtol s = n :=
  strtol_of_zeros (z := 0) hn hs

/-- `atoi` reads back what `%d` printed, up to the first byte that is no digit. -/
theorem atoi_of_zeros {n z : Nat} (hn : n < 2 ^ 31) {s : CStr}
    (hs : s.takeWhile isDigit = List.replicate z 48 ++ decimal n) : atoi s = n := by
  rw [atoi, strtol_of_zeros (by omega) hs]
  exact Int.bmod_eq_of_le (by omega) (by omega)

theorem atoi_of_decimal {n : Nat} (hn : n < 2 ^ 31) {s : CStr}
    (hs : s.takeWhile isDigit = decimal n) : atoi s = n :=
  atoi_of_zeros (z := 0) hn hs

theorem atoi_decimal {n : Nat} (hn : n < 2 ^ 31) {c : UInt8} (hc : isDigit c = false)
    (rest : CStr) : atoi (decimal n ++ c :: rest) = n :=
  atoi_of_decimal hn (takeWhile_isDigit_decimal n hc rest)

theorem atoi_decimal_self {n : Nat} (hn : n < 2 ^ 31) : atoi (decimal n) = n :=
  atoi_of_decimal hn (List.takeWhile_eq_self_iff.mpr fun _ => isDigit_of_mem_decimal)

/-- A run of digits without a leading zero is some number printed. -/
theorem exists_decimal {ds : CStr} (hne : ds ≠ []) (hdigits : ∀ c ∈ ds, isDigit c = true)
    (hlead : ds.length = 1 ∨ ds.head? ≠ some 48) : ∃ n, ds = decimal n := by
  let vals := ds.reverse.map fun c => c.toNat - 48
  have hdigit : ∀ c ∈ ds, 48 ≤ c.toNat ∧ c.toNat - 48 < 10 ∧ UInt8.ofNat (48 + (c.toNat - 48)) = c := by
    intro c hc
    have h := hdigits c hc
    simp only [isDigit, Bool.and_eq_true, decide_eq_true_eq, UInt8.le_iff_toNat_le] at h
    obtain ⟨hlo, hhi⟩ := h
    have hlo' : 48 ≤ c.toNat := hlo
    have hhi' : c.toNat ≤ 57 := hhi
    refine ⟨hlo', by omega, ?_⟩
    rw [Nat.add_sub_cancel' hlo', UInt8.ofNat_toNat]
  have hback : vals.reverse.map (fun d => UInt8.ofNat (48 + d)) = ds := by
    rw [← List.map_reverse, List.reverse_reverse, List.map_map]
    exact (List.map_congr_left fun c hc => (hdigit c hc).2.2).trans (List.map_id ds)
  have hsmall : ∀ v ∈ vals, v < 10 := by
    intro v hv
    obtain ⟨c, hc, rfl⟩ := List.mem_map.mp hv
    exact (hdigit c (List.mem_reverse.mp hc)).2.1
  obtain ⟨c, rest, rfl⟩ := List.exists_cons_of_ne_nil hne
  by_cases hzero : c = 48
  · obtain hlen | hhead := hlead
    · obtain rfl : rest = [] := List.eq_nil_of_length_eq_zero (Nat.succ_injective hlen)
      exact ⟨0, by rw [hzero]; rfl⟩
    · exact absurd (congrArg some hzero) hhead
  · have hc := hdigit c List.mem_cons_self
    have hlast : ∀ h : vals ≠ [], vals.getLast h ≠ 0 := by
      intro h hz
      have hval : vals.getLast h = c.toNat - 48 := by simp [vals]
      apply hzero
      rw [← hc.2.2, ← hval, hz]
      rfl
    refine ⟨Nat.ofDigits 10 vals, ?_⟩
    have hdig := Nat.digits_ofDigits 10 (by decide) vals hsmall hlast
    have hpos : Nat.ofDigits 10 vals ≠ 0 := by
      intro h0
      rw [h0, Nat.digits_zero] at hdig
      have hlen := congrArg List.length hdig
      simp [vals] at hlen
    rw [decimal, if_neg hpos, hdig, hback]

/-! ## Searching for a byte -/

theorem strchr_of_not_mem {s : CStr} {c : UInt8} (h : c ∉ s) : strchr s c = none := by
  induction s with
  | nil => rfl
  | cons d ds ih =>
    rw [List.mem_cons, not_or] at h
    rw [strchr, if_neg fun heq => h.1 heq.symm, ih h.2]

theorem strchr_isSome_iff (s : CStr) (c : UInt8) : (strchr s c).isSome ↔ c ∈ s := by
  induction s with
  | nil => simp [strchr]
  | cons d ds ih =>
    rw [strchr, List.mem_cons]
    split
    · next heq => exact iff_of_true rfl (.inl heq.symm)
    · next hne => exact ih.trans (or_iff_right fun heq => hne heq.symm).symm

theorem strchr_append_cons {s : CStr} {c : UInt8} (h : c ∉ s) (rest : CStr) :
    strchr (s ++ c :: rest) c = some (c :: rest) := by
  induction s with
  | nil => exact if_pos rfl
  | cons d ds ih =>
    rw [List.mem_cons, not_or] at h
    rw [List.cons_append, strchr, if_neg fun heq => h.1 heq.symm, ih h.2]

end Lib.CString
