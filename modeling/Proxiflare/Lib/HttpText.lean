import Proxiflare.Lib.CString
import Proxiflare.Lib.Pattern

/-!
# The head of an HTTP message

Lines ended by CRLF and closed by an empty one, and the search for where they end. A
line holds no CR, and only the closing line is empty, so the first CRLFCRLF is the end.
-/

namespace Lib.HttpText

open Lib.CString

/-- A header field as it is written: any blanks may stand before the value. -/
structure HeaderField where
  name : CStr
  blanks : CStr
  value : CStr

def HeaderField.line (f : HeaderField) : CStr := f.name ++ 58 :: (f.blanks ++ f.value)

/-- A line that can stand in a head. -/
structure IsLine (line : CStr) : Prop where
  ne_nil : line ≠ []
  noCr : 13 ∉ line

def crlfEnded (lines : List CStr) : CStr := lines.flatMap fun line => line ++ [13, 10]

/-- The lines and the blank line. -/
def headText (lines : List CStr) : CStr := crlfEnded lines ++ [13, 10]

/-- The offset past the first CRLFCRLF, or 0. -/
def headEnd : CStr → Nat
  | [] => 0
  | b :: rest =>
    if (b :: rest).take 4 = [13, 10, 13, 10] then 4
    else match headEnd rest with
      | 0 => 0
      | n + 1 => n + 2

theorem headText_cons (line : CStr) (lines : List CStr) :
    headText (line :: lines) = line ++ 13 :: 10 :: headText lines := by
  simp [headText, crlfEnded]

theorem length_lt_headText (lines : List CStr) : lines.length < (headText lines).length := by
  induction lines with
  | nil => exact Nat.zero_lt_two
  | cons line lines ih =>
    rw [headText_cons, List.length_append, List.length_cons, List.length_cons, List.length_cons]
    omega

theorem length_of_mem_headText {line : CStr} {lines : List CStr} (h : line ∈ lines) :
    line.length + 4 ≤ (headText lines).length := by
  induction lines with
  | nil => cases h
  | cons first lines ih =>
    rw [headText_cons, List.length_append, List.length_cons, List.length_cons]
    rcases List.mem_cons.mp h with rfl | h
    · rw [headText, List.length_append, List.length_cons, List.length_cons]
      omega
    · have := ih h
      omega

variable {line s : CStr} {lines : List CStr} {n : Nat}

theorem headEnd_cons {b : UInt8} (hne : (b :: s).take 4 ≠ [13, 10, 13, 10])
    (h : headEnd s = n + 1) : headEnd (b :: s) = n + 2 := by
  rw [headEnd, if_neg hne, h]

/-- Bytes that are no CR are passed. -/
theorem headEnd_append (hline : 13 ∉ line) (h : headEnd s = n + 1) :
    headEnd (line ++ s) = line.length + n + 1 := by
  induction line with
  | nil => rw [List.nil_append, h, List.length_nil, Nat.zero_add]
  | cons b line ih =>
    rw [List.mem_cons, not_or] at hline
    have hne : (b :: (line ++ s)).take 4 ≠ [13, 10, 13, 10] := by
      intro heq
      exact hline.1 (List.cons.inj heq).1.symm
    rw [List.cons_append, headEnd_cons hne (ih hline.2), List.length_cons]
    omega

/-- So is the end of a line, unless a blank line follows. -/
theorem headEnd_crlf {c : UInt8} (hc : c ≠ 13) (h : headEnd (c :: s) = n + 1) :
    headEnd (13 :: 10 :: c :: s) = n + 3 := by
  have hfirst : (13 :: 10 :: c :: s).take 4 ≠ [13, 10, 13, 10] := by
    intro heq
    exact hc (List.cons.inj (List.cons.inj (List.cons.inj heq).2).2).1
  have hsecond : ((10 : UInt8) :: c :: s).take 4 ≠ [13, 10, 13, 10] := by
    intro heq
    exact absurd (List.cons.inj heq).1 (by decide)
  exact headEnd_cons hfirst (headEnd_cons hsecond h)

/-- The head ends where its blank line does, whatever follows. -/
theorem headEnd_head (hne : lines ≠ []) (hlines : ∀ line ∈ lines, IsLine line) (rest : CStr) :
    headEnd (headText lines ++ rest) = (headText lines).length := by
  induction lines with
  | nil => exact absurd rfl hne
  | cons line lines ih =>
    obtain ⟨hline, hlines⟩ := List.forall_mem_cons.mp hlines
    cases lines with
    | nil =>
      have htake : (13 :: 10 :: 13 :: 10 :: rest).take 4 = [13, 10, 13, 10] := rfl
      have hblank : headEnd (13 :: 10 :: 13 :: 10 :: rest) = 3 + 1 := by rw [headEnd, if_pos htake]
      have hend := headEnd_append hline.noCr hblank
      simpa [headText, crlfEnded] using hend
    | cons next lines =>
      have hnext := ih (List.cons_ne_nil _ _) hlines
      obtain ⟨hne', hcr'⟩ := hlines next List.mem_cons_self
      obtain ⟨c, next, rfl⟩ := List.exists_cons_of_ne_nil hne'
      have hc : c ≠ 13 := fun heq => hcr' (heq ▸ List.mem_cons_self)
      have hlen : (headText ((c :: next) :: lines)).length =
          (headText ((c :: next) :: lines)).length - 1 + 1 := by
        simp only [headText, crlfEnded, List.length_append, List.length_cons, List.length_nil]
        omega
      rw [hlen] at hnext
      have hsplit : headText (line :: (c :: next) :: lines) ++ rest =
          line ++ 13 :: 10 :: (headText ((c :: next) :: lines) ++ rest) := by
        simp [headText, crlfEnded]
      have hstart : ∃ t, headText ((c :: next) :: lines) ++ rest = c :: t :=
        ⟨_, by simp only [headText, crlfEnded, List.flatMap_cons, List.cons_append]; rfl⟩
      obtain ⟨t, ht⟩ := hstart
      rw [ht] at hsplit hnext
      rw [hsplit, headEnd_append hline.noCr (headEnd_crlf hc hnext)]
      simp only [headText, crlfEnded, List.flatMap_cons, List.length_append, List.length_cons,
        List.length_nil]
      omega

/-! ## The first blank line -/

open Pattern

def crlfCrlf : CStr := [13, 10, 13, 10]

theorem at_zero_iff : At crlfCrlf s 0 ↔ s.take 4 = [13, 10, 13, 10] := by
  rw [At, List.drop_zero, List.prefix_iff_eq_take]
  exact eq_comm

/-- The search finds the first CRLFCRLF, or there is none. -/
theorem headEnd_spec (s : CStr) :
    headEnd s = 0 ∧ (∀ i, ¬ At crlfCrlf s i) ∨ ∃ i, headEnd s = i + 4 ∧ First crlfCrlf s i := by
  induction s with
  | nil =>
    refine .inl ⟨rfl, fun i h => ?_⟩
    have hle := h.end_le (List.cons_ne_nil _ _)
    rw [List.length_nil] at hle
    exact absurd hle (Nat.not_succ_le_zero _)
  | cons b s ih =>
    by_cases hfirst : (b :: s).take 4 = [13, 10, 13, 10]
    · exact .inr ⟨0, if_pos hfirst, first_zero (at_zero_iff.mpr hfirst)⟩
    have hne : ¬ At crlfCrlf (b :: s) 0 := fun h => hfirst (at_zero_iff.mp h)
    rcases ih with ⟨hzero, hnone⟩ | ⟨i, hend, hat⟩
    · refine .inl ⟨by rw [headEnd, if_neg hfirst, hzero], fun i h => ?_⟩
      cases i with
      | zero => exact hne h
      | succ i => exact hnone i h
    · exact .inr ⟨i + 1, headEnd_cons hfirst hend, (first_cons hne).mpr hat⟩

theorem headEnd_of_first {i : Nat} (h : First crlfCrlf s i) : headEnd s = i + 4 := by
  rcases headEnd_spec s with ⟨-, hnone⟩ | ⟨j, hend, hj⟩
  · exact absurd h.1 (hnone i)
  · rw [hend, hj.unique h]

theorem headEnd_of_not_at (h : ∀ i, ¬ At crlfCrlf s i) : headEnd s = 0 := by
  rcases headEnd_spec s with ⟨hzero, -⟩ | ⟨i, -, hi⟩
  · exact hzero
  · exact absurd hi.1 (h i)

/-- A line that can stand in a head that has LF only where a line ends. -/
structure IsLfFree (line : CStr) : Prop where
  ne_nil : line ≠ []
  noLf : 10 ∉ line

/-- No CRLFCRLF starts in a line. -/
theorem not_at_within {j : Nat} (hline : 10 ∉ line) (hj : j < line.length) (t : CStr) :
    ¬ At crlfCrlf (line ++ 13 :: t) j := by
  intro h
  have hlf : (line ++ 13 :: t)[j + 1]? = some 10 := h.getElem? (m := 1) (by decide)
  rcases Nat.lt_or_ge (j + 1) line.length with hlt | hge
  · rw [List.getElem?_append_left hlt] at hlf
    exact hline (List.mem_of_getElem? hlf)
  · rw [List.getElem?_append_right hge, show j + 1 - line.length = 0 by omega] at hlf
    cases hlf

/-- None starts in its end either, unless a blank line follows. -/
theorem not_at_line {j : Nat} (hline : 10 ∉ line) {t : CStr} (hnext : t.take 2 ≠ [13, 10])
    (hj : j < line.length + 2) : ¬ At crlfCrlf (line ++ 13 :: 10 :: t) j := by
  rcases Nat.lt_trichotomy j line.length with hlt | heq | hgt
  · exact not_at_within hline hlt (10 :: t)
  · intro h
    rw [heq, At, List.drop_left] at h
    have htake := List.prefix_iff_eq_take.mp h
    apply hnext
    simpa [crlfCrlf] using htake.symm
  · intro h
    have hcr : (line ++ 13 :: 10 :: t)[j + 0]? = some 13 := h.getElem? (m := 0) (by decide)
    rw [List.getElem?_append_right (by omega), show j + 0 - line.length = 1 by omega] at hcr
    cases hcr

theorem take_two_ne (hline : IsLfFree line) (t : CStr) : (line ++ 13 :: t).take 2 ≠ [13, 10] := by
  obtain ⟨hne, hlf⟩ := hline
  cases line with
  | nil => exact absurd rfl hne
  | cons c line =>
    cases line with
    | nil => exact fun h => absurd (List.cons.inj (List.cons.inj h).2).1 (by decide)
    | cons d line =>
      intro h
      obtain rfl : d = 10 := (List.cons.inj (List.cons.inj h).2).1
      exact hlf (List.mem_cons_of_mem _ List.mem_cons_self)

/-- The head ends with its first blank line, also where lines hold a CR. -/
theorem first_headText (hne : lines ≠ []) (hlines : ∀ line ∈ lines, IsLfFree line) (rest : CStr) :
    First crlfCrlf (headText lines ++ rest) ((headText lines).length - 4) := by
  induction lines with
  | nil => exact absurd rfl hne
  | cons line lines ih =>
    obtain ⟨hline, hlines⟩ := List.forall_mem_cons.mp hlines
    cases lines with
    | nil =>
      have htext : headText [line] ++ rest = line ++ 13 :: 10 :: 13 :: 10 :: rest := by
        simp [headText, crlfEnded]
      have hlen : (headText [line]).length - 4 = line.length + 0 := by
        simp [headText, crlfEnded]
      rw [htext, hlen, ← first_drop fun j hj => not_at_within hline.noLf hj _, List.drop_left]
      exact first_zero (at_zero_iff.mpr rfl)
    | cons next lines =>
      have hnext := ih (List.cons_ne_nil _ _) hlines
      have htwo : (headText (next :: lines) ++ rest).take 2 ≠ [13, 10] := by
        rw [headText_cons, List.append_assoc]
        exact take_two_ne (hlines next List.mem_cons_self) _
      have hlong : 4 ≤ (headText (next :: lines)).length := by
        have hpos := List.length_pos_iff.mpr (hlines next List.mem_cons_self).ne_nil
        rw [headText_cons, List.length_append, headText, List.length_cons, List.length_cons,
          List.length_append, List.length_cons]
        omega
      have hlen : (headText (line :: next :: lines)).length - 4 =
          line.length + 2 + ((headText (next :: lines)).length - 4) := by
        rw [headText_cons, List.length_append, List.length_cons, List.length_cons]
        omega
      rw [hlen, headText_cons, List.append_assoc, List.cons_append, List.cons_append,
        ← first_drop fun j hj => not_at_line hline.noLf htwo hj]
      rw [List.drop_append, List.drop_of_length_le (by omega), List.nil_append,
        Nat.add_sub_cancel_left]
      exact hnext

/-! ## Decimal numbers -/

/-- The number a string of digits stands for. -/
def decimalValue (s : CStr) : Nat := s.foldl (fun v d => 10 * v + (d.toNat - 48)) 0

structure IsDecimal (s : CStr) : Prop where
  ne_nil : s ≠ []
  digits : ∀ b ∈ s, isDigit b = true

theorem digit_ge {d : UInt8} (h : isDigit d = true) : 48 ≤ d.toNat := by
  simp only [isDigit, Bool.and_eq_true, decide_eq_true_eq, UInt8.le_iff_toNat_le] at h
  exact h.1

theorem foldl_digits_eq (s : CStr) (h : ∀ b ∈ s, isDigit b = true) (v : Nat) :
    s.foldl (fun v d => 10 * v + ((d.toNat : Int) - 48)) (v : Int) =
      (s.foldl (fun v d => 10 * v + (d.toNat - 48)) v : Nat) := by
  induction s generalizing v with
  | nil => rfl
  | cons d s ih =>
    obtain ⟨hd, hs⟩ := List.forall_mem_cons.mp h
    have hge := digit_ge hd
    rw [List.foldl_cons, List.foldl_cons, ← ih hs]
    congr 1
    omega

/-- `strtol` reads the number as far as `long` goes, whatever follows it. -/
theorem strtol_of_digits {digits : CStr} (h : IsDecimal digits) (hs : s.takeWhile isDigit = digits)
    (hlt : decimalValue digits < 2 ^ 63) : strtol s = decimalValue digits := by
  obtain ⟨d, t, rfl⟩ : ∃ d t, s = d :: t := by
    apply List.exists_cons_of_ne_nil
    rintro rfl
    exact h.ne_nil hs.symm
  have hd : isDigit d = true := by
    by_contra hd
    rw [List.takeWhile_cons_of_neg hd] at hs
    exact h.ne_nil hs.symm
  rw [strtol_of_digit hd, hs]
  have hvalue := foldl_digits_eq digits h.digits 0
  rw [Int.natCast_zero] at hvalue
  rw [hvalue]
  unfold decimalValue at hlt ⊢
  omega

theorem strtol_of_isDecimal (h : IsDecimal s) (hlt : decimalValue s < 2 ^ 63) :
    strtol s = decimalValue s :=
  strtol_of_digits h (List.takeWhile_eq_self_iff.mpr h.digits) hlt

theorem atoi_of_digits {digits : CStr} (h : IsDecimal digits) (hs : s.takeWhile isDigit = digits)
    (hlt : decimalValue digits < 2 ^ 31) : atoi s = decimalValue digits := by
  rw [atoi, strtol_of_digits h hs (by omega)]
  exact Int.bmod_eq_of_le (by omega) (by omega)

/-! ## The name of a field -/

/-- The line is a field of that name, in any case. -/
def FieldNamed (name line : CStr) : Prop :=
  58 ∈ line ∧ strcaseeq (line.takeWhile (· ≠ 58)) name = true

variable {name t : CStr}

theorem tolower_colon {c : UInt8} : tolower c = 58 ↔ c = 58 := by
  have h := forall_byte (p := fun c => decide (tolower c = 58 ↔ c = 58)) (by decide +kernel) c
  exact of_decide_eq_true h

/-- Comparing with the name and the colon is asking for the field. -/
theorem fieldNamed_of_strncaseeq (hcolon : 58 ∉ name.map tolower)
    (h : strncaseeq line (name ++ [58]) (name.length + 1) = true) : FieldNamed name line := by
  unfold strncaseeq strcaseeq at h
  have hmap := of_decide_eq_true h
  have hpat : (name ++ [58]).take (name.length + 1) = name ++ [58] :=
    List.take_of_length_le (by simp)
  rw [hpat, List.map_append, List.map_singleton, tolower_colon.mpr rfl] at hmap
  obtain ⟨a, b, hab, ha, hb⟩ := List.map_eq_append_iff.mp hmap
  obtain ⟨c, hc, hcolon'⟩ := List.map_eq_singleton_iff.mp hb
  obtain rfl := tolower_colon.mp hcolon'
  have hline : line = a ++ 58 :: line.drop (name.length + 1) := by
    conv_lhs => rw [← List.take_append_drop (name.length + 1) line, hab, hc]
    simp
  have hnone : ∀ d ∈ a, decide (d ≠ 58) = true := by
    intro d hd
    apply decide_eq_true
    rintro rfl
    apply hcolon
    rw [← ha]
    exact List.mem_map.mpr ⟨58, hd, tolower_colon.mpr rfl⟩
  refine ⟨?_, ?_⟩
  · rw [hline]
    simp
  · rw [hline, List.takeWhile_append_of_pos hnone, List.takeWhile_cons_of_neg (by simp),
      List.append_nil]
    exact decide_eq_true ha

/-- What follows the line does not matter to the comparison. -/
theorem strncaseeq_of_append_cr {pat : CStr} {k : Nat} (hcr : 13 ∉ pat.map tolower)
    (h : strncaseeq (line ++ 13 :: t) pat k = true) : strncaseeq line pat k = true := by
  rcases Nat.lt_or_ge line.length k with hlt | hge
  · unfold strncaseeq strcaseeq at h
    have hmap := of_decide_eq_true h
    have hmem : (13 : UInt8) ∈ (pat.take k).map tolower := by
      rw [← hmap]
      apply List.mem_map.mpr
      refine ⟨13, ?_, rfl⟩
      rw [List.take_append, List.mem_append]
      obtain ⟨j, hj⟩ : ∃ j, k - line.length = j + 1 := ⟨k - line.length - 1, by omega⟩
      rw [hj, List.take_succ_cons]
      exact .inr List.mem_cons_self
    rw [List.map_take] at hmem
    exact absurd (List.mem_of_mem_take hmem) hcr
  · unfold strncaseeq at h ⊢
    rwa [List.take_append_of_le_length hge] at h

/-- A field of that name passes the comparison. -/
theorem strncaseeq_field {f : HeaderField} (h : strcaseeq f.name name = true) :
    strncaseeq (f.line ++ t) (name ++ [58]) (name.length + 1) = true := by
  have hmap : f.name.map tolower = name.map tolower := of_decide_eq_true h
  have hlen : f.name.length = name.length := by
    have := congrArg List.length hmap
    simpa using this
  unfold strncaseeq strcaseeq
  apply decide_eq_true
  rw [HeaderField.line, List.append_assoc, ← hlen, List.take_append, List.take_of_length_le (by omega),
    Nat.add_sub_cancel_left, List.cons_append, List.take_succ_cons, List.take_zero, hlen,
    List.take_of_length_le (by simp), List.map_append, List.map_append, hmap]

end Lib.HttpText
