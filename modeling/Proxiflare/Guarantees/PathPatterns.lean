import Proxiflare.Daemon.Fnmatch
import Proxiflare.Daemon.Rules

/-!
# Path patterns

An app pattern with a `/` and no wildcard names one executable. `pf_match_app` compares the last
components first, so such a pattern accepts every path that ends like it.
-/

namespace Proxiflare.Guarantees.PathPatterns

open Lib Lib.CString
open Proxiflare.Daemon

/-- A `/`, and none of `*`, `?`, `[` and `\`. -/
structure PathPattern (pattern : CStr) : Prop where
  slash : 47 ∈ pattern
  plain : Glob.Plain 42 63 pattern
  noBrackets : NoBrackets pattern

variable {pattern path : CStr}

/-- The third test is for patterns without a `/`, and the glob of a path pattern is the path. -/
theorem pfMatchApp_path (h : PathPattern pattern) (hshort : path.length < pfPathMax) :
    pfMatchApp pattern path = true ↔ path = pattern ∨ afterLastSlash pattern = basename path := by
  have htmp : path.take (pfPathMax - 1) = path := List.take_of_length_le (by omega)
  have hslash : strchr pattern 47 ≠ none := by
    rw [Ne, ← Option.not_isSome_iff_eq_none, not_not, strchr_isSome_iff]
    exact h.slash
  unfold pfMatchApp
  simp only [htmp, hslash, Bool.or_eq_true, Bool.and_eq_true, decide_eq_true_eq, false_and,
    decide_false, Bool.false_eq_true, or_false, fnmatch_plain h.noBrackets h.plain]
  rw [eq_comm (a := pattern) (b := path)]
  tauto

/-- For every path that fits: the pattern is exact unless another path ends like it. -/
theorem path_pattern_exact_iff (pattern path : CStr) (h : PathPattern pattern)
    (hshort : path.length < pfPathMax) :
    (pfMatchApp pattern path = true ↔ path = pattern) ↔
      (path = pattern ∨ afterLastSlash pattern ≠ basename path) := by
  rw [pfMatchApp_path h hshort]
  constructor
  · intro hexact
    by_cases hbase : afterLastSlash pattern = basename path
    · exact .inl (hexact.mp (.inr hbase))
    · exact .inr hbase
  · rintro (heq | hbase)
    · exact iff_of_true (.inl heq) heq
    · exact or_iff_left hbase

/-! ## Instances -/

def firefox : CStr := lit "/usr/bin/firefox"

theorem firefox_pattern : PathPattern firefox := ⟨by decide, by decide, by decide⟩

theorem curl_is_not_firefox :
    (pfMatchApp firefox (lit "/usr/bin/curl") = true ↔ lit "/usr/bin/curl" = firefox) ↔
      (lit "/usr/bin/curl" = firefox ∨ afterLastSlash firefox ≠ basename (lit "/usr/bin/curl")) :=
  path_pattern_exact_iff firefox (lit "/usr/bin/curl") firefox_pattern (by decide)

/-- The pair that the test of app patterns expects to be rejected. -/
theorem other_firefox_is_matched :
    PathPattern firefox ∧ (lit "/snap/bin/firefox").length < pfPathMax ∧
      ¬ (pfMatchApp firefox (lit "/snap/bin/firefox") = true ↔
        lit "/snap/bin/firefox" = firefox) :=
  ⟨firefox_pattern, by decide, by decide⟩

end Proxiflare.Guarantees.PathPatterns
