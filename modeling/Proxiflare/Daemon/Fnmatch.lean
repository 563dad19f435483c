import Proxiflare.Daemon.Libc
import Proxiflare.Lib.Glob

/-!
# What `fnmatch` accepts

Without a bracket or a backslash a pattern has the wildcards `*` and `?` only, and `fnmatch`
decides the glob it writes.
-/

namespace Proxiflare.Daemon

open Lib Lib.CString

/-- Neither `[` nor `\`. -/
def NoBrackets (pattern : CStr) : Prop := 91 ∉ pattern ∧ 92 ∉ pattern

instance (pattern : CStr) : Decidable (NoBrackets pattern) :=
  inferInstanceAs (Decidable (_ ∧ _))

/-- The glob of a pattern text with `*` and `?`. -/
abbrev glob (pattern : CStr) : List (Glob.Tok UInt8) := Glob.ofText 42 63 pattern

variable {pattern s : CStr}

theorem NoBrackets.tail {c : UInt8} (h : NoBrackets (c :: pattern)) : NoBrackets pattern :=
  ⟨fun hc => h.1 (List.mem_cons_of_mem c hc), fun hc => h.2 (List.mem_cons_of_mem c hc)⟩

/-- The remaining cases of `globToks`: a byte stands for itself. -/
theorem globToks_chr {n : Nat} {c : UInt8} (h63 : c ≠ 63) (h42 : c ≠ 42) (h92 : c ≠ 92)
    (h91 : c ≠ 91) : globToks (n + 1) (c :: pattern) = .chr c :: globToks n pattern := by
  rw [globToks]
  · exact h63
  · exact h42
  · exact fun h _ => h92 h
  · exact fun _ _ h _ => h92 h
  · exact h91

theorem globMatch_star_iff {ts : List GlobTok} :
    globMatch (.star :: ts) s = true ↔ ∃ m, m <:+ s ∧ globMatch ts m = true := by
  rw [globMatch, List.any_eq_true]
  simp only [List.mem_tails]

theorem globMatch_globToks_iff {n : Nat} (hn : pattern.length ≤ n) (h : NoBrackets pattern) :
    globMatch (globToks n pattern) s = true ↔ Glob.Matches (glob pattern) s := by
  induction pattern generalizing n s with
  | nil =>
    have htoks : globToks n [] = [] := by cases n <;> rfl
    rw [htoks, globMatch, List.isEmpty_iff]
    exact Glob.matches_nil_iff.symm
  | cons c pattern ih =>
    obtain ⟨n, rfl⟩ : ∃ m, n = m + 1 := ⟨n - 1, by rw [List.length_cons] at hn; omega⟩
    have hle : pattern.length ≤ n := by rw [List.length_cons] at hn; omega
    have hrest {s : CStr} := ih (s := s) hle h.tail
    by_cases hstar : c = 42
    · subst hstar
      rw [globToks, globMatch_star_iff, Glob.matches_ending_iff]
      simp only [hrest]
    · by_cases hany : c = 63
      · subst hany
        rw [globToks, show glob (63 :: pattern) = .any :: glob pattern from rfl, Glob.matches_any_iff]
        cases s with
        | nil => simp [globMatch]
        | cons d s => simp [globMatch, hrest]
      · have h91 : c ≠ 91 := fun heq => h.1 (heq ▸ List.mem_cons_self)
        have h92 : c ≠ 92 := fun heq => h.2 (heq ▸ List.mem_cons_self)
        have htoks : glob (c :: pattern) = .chr c :: glob pattern := by
          simp [glob, Glob.ofText, hstar, hany]
        rw [globToks_chr hany hstar h92 h91, htoks, Glob.matches_chr_iff]
        cases s with
        | nil => simp [globMatch]
        | cons d s =>
          rw [globMatch, Bool.and_eq_true, decide_eq_true_eq, hrest]
          constructor
          · rintro ⟨rfl, hs⟩
            exact ⟨s, rfl, hs⟩
          · rintro ⟨_, heq, hs⟩
            obtain ⟨rfl, rfl⟩ := List.cons.inj heq
            exact ⟨rfl, hs⟩

theorem fnmatch_iff_matches (h : NoBrackets pattern) :
    fnmatch pattern s = true ↔ Glob.Matches (glob pattern) s :=
  globMatch_globToks_iff Nat.le.refl h

/-- A pattern without any wildcard accepts itself only. -/
theorem fnmatch_plain (h : NoBrackets pattern) (hplain : Glob.Plain 42 63 pattern) :
    fnmatch pattern s = true ↔ s = pattern :=
  (fnmatch_iff_matches h).trans (Glob.matches_plain_iff hplain)

end Proxiflare.Daemon
