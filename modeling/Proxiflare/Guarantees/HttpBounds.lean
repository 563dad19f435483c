import Proxiflare.Daemon.HttpMemory

/-!
# Parsing a captured chunk stays within the chunk

Every pointer step of the two parsers is bounded by an end the code holds, but for the
number of a status line: `strtol` is given no bound. It stops at the first byte that
cannot go on with the number, so it leaves the chunk exactly if there is none.
-/

namespace Proxiflare.Guarantees.HttpBounds

open Lib Lib.CString Lib.CBody Lib.HttpText Lib.Pattern
open Proxiflare.Daemon

/-- No access of either parser faults, and every loop ends, whatever was in the record. -/
def StaysInside (buf : CStr) : Prop :=
  ∀ turns, buf.length + pfHttpMaxHeaders < turns → ∀ msg,
    (∃ r t, call (Memory.pfHttpParseRequest buf turns) msg = some (r, t)) ∧
    ∃ r t, call (Memory.pfHttpParseResponse buf turns) msg = some (r, t)

/-- A chunk with a head whose first blank is followed by space, a sign and digits to its end. -/
def NumberRunsOff (buf : CStr) : Prop :=
  10 ≤ buf.length ∧ crlfCrlf <:+: buf ∧ ∃ first space sign digits,
    buf = first ++ 32 :: (space ++ (sign ++ digits)) ∧ 13 ∉ first ∧ 32 ∉ first ∧
    (∀ b ∈ space, isSpace b = true) ∧ (sign = [] ∨ sign = [43] ∨ sign = [45]) ∧
    ∀ b ∈ digits, isDigit b = true

/-! ## Where a number ends -/

theorem digit_plain {d : UInt8} (h : isDigit d = true) : isSpace d = false ∧ d ≠ 43 ∧ d ≠ 45 := by
  have hd := forall_byte (p := fun d => !isDigit d || (!isSpace d && d ≠ 43 && d ≠ 45))
    (by decide +kernel) d
  rw [h] at hd
  simpa [and_assoc] using hd

/-- `strtol` reads to the end exactly what is space, a sign and digits. -/
theorem afterNumber_nil_iff {s : CStr} :
    Memory.afterNumber s = [] ↔ ∃ space sign digits, s = space ++ (sign ++ digits) ∧
      (∀ b ∈ space, isSpace b = true) ∧ (sign = [] ∨ sign = [43] ∨ sign = [45]) ∧
      ∀ b ∈ digits, isDigit b = true := by
  constructor
  · intro h
    have hsplit := (List.takeWhile_append_dropWhile (p := isSpace) (l := s)).symm
    have hspace : ∀ b ∈ s.takeWhile isSpace, isSpace b = true := fun b hb => List.mem_takeWhile_imp hb
    unfold Memory.afterNumber at h
    split at h
    · next ds heq =>
      refine ⟨_, [45], ds, ?_, hspace, .inr (.inr rfl), List.dropWhile_eq_nil_iff.mp h⟩
      rwa [heq] at hsplit
    · next ds heq =>
      refine ⟨_, [43], ds, ?_, hspace, .inr (.inl rfl), List.dropWhile_eq_nil_iff.mp h⟩
      rwa [heq] at hsplit
    · exact ⟨_, [], _, hsplit, hspace, .inl rfl, List.dropWhile_eq_nil_iff.mp h⟩
  · rintro ⟨space, sign, digits, rfl, hspace, hsign, hdigits⟩
    have hdrop : (space ++ (sign ++ digits)).dropWhile isSpace = sign ++ digits := by
      rw [List.dropWhile_append_of_pos hspace]
      rcases hsign with rfl | rfl | rfl
      · cases digits with
        | nil => rfl
        | cons d ds =>
          have hd := (digit_plain (hdigits d List.mem_cons_self)).1
          exact List.dropWhile_cons_of_neg (by rw [hd]; exact Bool.false_ne_true)
      · rfl
      · rfl
    have hend := List.dropWhile_eq_nil_iff.mpr hdigits
    unfold Memory.afterNumber
    rw [hdrop]
    rcases hsign with rfl | rfl | rfl
    · rw [List.nil_append]
      split
      · next ds => exact absurd rfl (digit_plain (hdigits 45 List.mem_cons_self)).2.2
      · next ds => exact absurd rfl (digit_plain (hdigits 43 List.mem_cons_self)).2.1
      · exact hend
    · exact hend
    · exact hend

/-! ## Which chunks are left -/

variable {buf : CStr}

theorem crlfCrlf_infix_iff : crlfCrlf <:+: buf ↔ findHeaderEnd buf ≠ 0 := by
  rw [findHeaderEnd_eq]
  constructor
  · rintro ⟨s, t, rfl⟩ hzero
    have hat : At crlfCrlf (s ++ crlfCrlf ++ t) s.length := by
      rw [At, List.append_assoc, List.drop_left]
      exact List.prefix_append _ _
    rcases headEnd_spec (s ++ crlfCrlf ++ t) with ⟨-, hnone⟩ | ⟨i, hend, -⟩
    · exact hnone _ hat
    · omega
  · intro hne
    rcases headEnd_spec buf with ⟨hzero, -⟩ | ⟨i, -, hfirst⟩
    · exact absurd hzero hne
    · exact hfirst.1.isInfix.trans (List.drop_suffix i buf).isInfix

theorem numberRunsOff_iff : NumberRunsOff buf ↔ ∃ hend eol sp1, Memory.Started buf hend eol ∧
    memchr (buf.take eol) 32 = some sp1 ∧ Memory.afterNumber (buf.drop (sp1 + 1)) = [] := by
  constructor
  · rintro ⟨hlong, hcrlf, first, space, sign, digits, rfl, hcr, hblank, hrest⟩
    obtain ⟨hend, eol, hstarted, -⟩ := Memory.exists_started hlong (crlfCrlf_infix_iff.mp hcrlf)
    have hlt : first.length < eol := by
      by_contra hge
      have hget := memchr_getElem? hstarted.cr
      rcases Nat.lt_or_eq_of_le (Nat.le_of_not_lt hge) with hbefore | heq
      · rw [List.getElem?_append_left hbefore] at hget
        exact hcr (List.mem_of_getElem? hget)
      · rw [heq, List.getElem?_append_right (Nat.le_refl _), Nat.sub_self] at hget
        exact absurd (Option.some.inj hget) (by decide)
    refine ⟨hend, eol, first.length, hstarted, ?_, ?_⟩
    · obtain ⟨k, hk⟩ : ∃ k, eol - first.length = k + 1 := ⟨eol - first.length - 1, by omega⟩
      rw [List.take_append, List.take_of_length_le (Nat.le_of_lt hlt), hk, List.take_succ_cons]
      exact memchr_append hblank _
    · rw [List.drop_append, List.drop_of_length_le (by omega), Nat.add_sub_cancel_left]
      exact afterNumber_nil_iff.mpr ⟨space, sign, digits, rfl, hrest⟩
  · rintro ⟨hend, eol, sp1, hstarted, hsp1, hruns⟩
    obtain ⟨space, sign, digits, hsplit, hrest⟩ := afterNumber_nil_iff.mp hruns
    have hlt := memchr_lt hsp1
    rw [List.length_take] at hlt
    have hat : buf[sp1]? = some 32 := by
      have hget := memchr_getElem? hsp1
      rwa [List.getElem?_take_of_lt (by omega)] at hget
    have htake : (buf.take eol).take sp1 = buf.take sp1 := by
      rw [List.take_take, Nat.min_eq_left (by omega)]
    have hcr : 13 ∉ buf.take sp1 := by
      rw [← htake]
      exact fun hmem => (memchr_some hstarted.cr).1 (List.mem_of_mem_take hmem)
    have hblank : 32 ∉ buf.take sp1 := by
      rw [← htake]
      exact (memchr_some hsp1).1
    refine ⟨hstarted.long, crlfCrlf_infix_iff.mpr (hstarted.found ▸ hstarted.isSome), buf.take sp1,
      space, sign, digits, ?_, hcr, hblank, hrest⟩
    obtain ⟨hin, hget⟩ := List.getElem?_eq_some_iff.mp hat
    rw [← hsplit, ← hget, ← List.drop_eq_getElem_cons hin, List.take_append_drop]

/-- Both parsers stay within the chunk exactly if some byte of it ends the number of the status
line. -/
theorem stays_inside_iff (buf : CStr) : StaysInside buf ↔ ¬ NumberRunsOff buf := by
  rw [numberRunsOff_iff]
  constructor
  · rintro hinside ⟨hend, eol, sp1, hstarted, hsp1, hruns⟩
    obtain ⟨-, r, t, hcall⟩ := hinside _ (Nat.lt_succ_self _) .zero
    have hturns : buf.length < buf.length + pfHttpMaxHeaders + 1 := by omega
    exact Memory.pfHttpParseResponse_faults hturns hstarted hsp1 hruns (Meets.of_call hcall)
  · intro hstops turns hturns msg
    constructor
    · have hmeets : Meets (Memory.pfHttpParseRequest buf turns) msg _ _ :=
        Memory.meets_pfHttpParseRequest hturns
      obtain ⟨r, t, hcall, -⟩ := hmeets.call
      exact ⟨r, t, hcall⟩
    · have hmeets : Meets (Memory.pfHttpParseResponse buf turns) msg _ _ :=
        Memory.meets_pfHttpParseResponse hturns fun hend eol sp1 hstarted hsp1 hruns =>
          hstops ⟨hend, eol, sp1, hstarted, hsp1, hruns⟩
      obtain ⟨r, t, hcall, -⟩ := hmeets.call
      exact ⟨r, t, hcall⟩

/-- A status line that ends after its version. -/
theorem status_line_without_number : ¬ StaysInside (lit "HTTP/1.1 \r\n\r\n") := by
  intro h
  obtain ⟨-, r, t, hcall⟩ := h 78 (by decide) .zero
  have hnone : (call (Memory.pfHttpParseResponse (lit "HTTP/1.1 \r\n\r\n") 78) .zero).isNone = true := by
    decide +kernel
  rw [hcall] at hnone
  cases hnone

end Proxiflare.Guarantees.HttpBounds
