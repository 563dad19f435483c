import Proxiflare.Gui.SnippetTargets
import Proxiflare.Lib.RustStrings

/-!
# The body literal of the Rust snippet

`rustRaw` counts hashes until a quote with as many of them is no part of the text. Rust then finds
the end of the literal where it was written, unless there are more hashes than it allows.
-/

namespace Proxiflare.Guarantees.RustBodies

open Lib.CString Lib.RustStrings
open Proxiflare.Gui

/-- The loop ends at a count whose closer is no part of the text. -/
theorem rustHashes_stops (s : CStr) (hashes : Nat) :
    includes s (rustCloser (rustHashes s hashes)) = false := by
  induction hashes using rustHashes.induct s with
  | case1 hashes hin ih =>
    rw [rustHashes, dif_pos hin]
    exact ih
  | case2 hashes hout =>
    rw [rustHashes, dif_neg hout]
    exact Bool.eq_false_iff.mpr hout

/-- The loop does not pass a count whose closer is no part of the text. -/
theorem rustHashes_le_of_absent {s : CStr} {n : Nat} (habsent : includes s (rustCloser n) = false)
    {hashes : Nat} (h : hashes ≤ n) : rustHashes s hashes ≤ n := by
  induction hashes using rustHashes.induct s with
  | case1 hashes hin ih =>
    have hne : hashes ≠ n := by
      rintro rfl
      rw [habsent] at hin
      cases hin
    rw [rustHashes, dif_pos hin]
    exact ih (by omega)
  | case2 hashes hout =>
    rw [rustHashes, dif_neg hout]
    exact h

theorem rustHashes_le_length (s : CStr) : rustHashes s 0 ≤ s.length := by
  refine rustHashes_le_of_absent (Bool.eq_false_iff.mpr fun hin => ?_) (Nat.zero_le _)
  have hlen := length_le_of_includes hin
  rw [rustCloser, List.length_cons, List.length_replicate] at hlen
  omega

theorem closer_notMem (s : CStr) : ¬ rustCloser (rustHashes s 0) <:+: s := by
  rw [← strstr_isSome_iff]
  exact Bool.eq_false_iff.mp (rustHashes_stops s 0)

/-- The count stays within any number of hashes that do not follow a quote of the text. -/
theorem rustHashes_le_iff (s : CStr) (n : Nat) : rustHashes s 0 ≤ n ↔ ¬ rustCloser n <:+: s := by
  constructor
  · intro hle hin
    have hhashes : List.replicate (rustHashes s 0) 35 <+: List.replicate n (35 : UInt8) :=
      List.prefix_replicate_iff.mpr ⟨by simpa using hle, by rw [List.length_replicate]⟩
    have hshorter : rustCloser (rustHashes s 0) <+: rustCloser n :=
      List.cons_prefix_cons.mpr ⟨rfl, hhashes⟩
    exact closer_notMem s (hshorter.isInfix.trans hin)
  · intro hout
    refine rustHashes_le_of_absent (Bool.eq_false_iff.mpr fun hin => hout ?_) (Nat.zero_le _)
    exact (strstr_isSome_iff s _).mp hin

/-- What the lexer makes of the literal. -/
theorem rawString_rustRaw {s : CStr} (hreturn : 13 ∉ s) :
    rawString (rustRaw s) = if rustHashes s 0 ≤ maxHashes then some (s, []) else none := by
  have hsource : rustRaw s = 114 :: (List.replicate (rustHashes s 0) 35 ++
      34 :: (s ++ (34 :: List.replicate (rustHashes s 0) 35 ++ []))) := by
    simp [rustRaw, lit]
  split
  · next hfew =>
    rw [hsource]
    exact rawString_append hfew (closer_notMem s) hreturn List.not_mem_nil
  · next hmany => rw [hsource, rawString_quote _ (by simp [hreturn, List.mem_replicate]), if_neg hmany]

/-- The loop ends, and the literal it gives is the text and nothing more, unless a quote with 255
hashes is part of the text. -/
theorem raw_literal_exact_iff (s : CStr) (hreturn : 13 ∉ s) :
    rustHashes s 0 ≤ s.length ∧
      (rawString (rustRaw s) = some (s, []) ↔ ¬ 34 :: List.replicate 255 35 <:+: s) := by
  refine ⟨rustHashes_le_length s, ?_⟩
  rw [rawString_rustRaw hreturn, Option.ite_none_right_eq_some, and_iff_left rfl]
  exact rustHashes_le_iff s 255

/-- A text whose quotes and hashes run up to its end. -/
theorem quoted_hashes_exact : rawString (rustRaw (lit "say \"#hi\"##")) = some (lit "say \"#hi\"##", []) := by
  refine (raw_literal_exact_iff (lit "say \"#hi\"##") (by decide +kernel)).2.mpr fun hin => ?_
  have hlen := hin.length_le
  rw [List.length_cons, List.length_replicate] at hlen
  exact absurd hlen (by decide)

/-- The literal of a quote with 255 hashes has 256 of them, and is none. -/
theorem many_hashes_refused :
    13 ∉ (34 :: List.replicate 255 35 : CStr) ∧
      rawString (rustRaw (34 :: List.replicate 255 35)) = none := by
  have hreturn : 13 ∉ (34 :: List.replicate 255 35 : CStr) := by decide +kernel
  refine ⟨hreturn, ?_⟩
  rw [rawString_rustRaw hreturn, if_neg]
  exact fun hle => (rustHashes_le_iff _ 255).mp hle List.infix_rfl

end Proxiflare.Guarantees.RustBodies
