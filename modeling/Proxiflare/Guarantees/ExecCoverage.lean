import Proxiflare.Daemon.Cgroups

/-!
# Which processes an exec event covers

`on_process_event` takes the first application match of the full path, then that of
the basename, whatever their actions. A process some rule intercepts is therefore
left out exactly when, for both, an enabled DIRECT rule matches first.
-/

namespace Proxiflare.Guarantees.ExecCoverage

open Lib.CString Lib.FirstMatch
open Proxiflare.Daemon

/-- The test of `pf_rules_match_app_any`. -/
def appHit (text : CStr) (r : Rule) : Bool :=
  r.enabled ≠ 0 && r.appPath.nonempty && pfMatchApp r.appPath.chars text

/-- Some enabled rule for the application has an action other than DIRECT. -/
def Wanted (rs : Ruleset) (exePath : CStr) : Prop :=
  ∃ r ∈ rs, intercepted r = true ∧ appMatches r exePath = true

/-- The exec event assigns the process to a rule's cgroup exactly when a rule wants it. -/
def CoversExec (rs : Ruleset) (exePath : CStr) : Prop :=
  (onProcessExec rs exePath).isSome = true ↔ Wanted rs exePath

/-- Some rule intercepts `text` with no DIRECT rule for `text` before it. -/
def Unhidden (rs : Ruleset) (text : CStr) : Prop :=
  ∃ pre r post, rs = pre ++ r :: post ∧ appHit text r = true ∧ r.action ≠ .direct ∧
    ∀ d ∈ pre, appHit text d = true → d.action ≠ .direct

theorem pfRulesMatchAppAny_eq_find? (rs : Ruleset) (text : CStr) :
    pfRulesMatchAppAny rs text = rs.find? (appHit text) := by
  induction rs with
  | nil => rfl
  | cons r rs ih =>
    rw [pfRulesMatchAppAny, List.find?_cons, ih]
    by_cases he : r.enabled = 0
    · simp [appHit, he]
    · cases ha : r.appPath.nonempty with
      | false => simp [appHit, he, ha]
      | true => cases hm : pfMatchApp r.appPath.chars text <;> simp [appHit, he, ha, hm]

theorem unhidden_iff (rs : Ruleset) (text : CStr) :
    Unhidden rs text ↔ ∃ r, pfRulesMatchAppAny rs text = some r ∧ r.action ≠ .direct := by
  rw [pfRulesMatchAppAny_eq_find?, find?_good_iff]
  rfl

/-- A rule picked has an application path, so the last test never refuses it. -/
theorem appPath_of_match {rs : Ruleset} {text : CStr} {r : Rule}
    (h : pfRulesMatchAppAny rs text = some r) : r.appPath.nonempty = true := by
  rw [pfRulesMatchAppAny_eq_find?] at h
  have hhit := List.find?_some h
  simp only [appHit, Bool.and_eq_true] at hhit
  exact hhit.1.2

theorem onProcessExec_isSome (rs : Ruleset) (exePath : CStr) :
    (onProcessExec rs exePath).isSome = true ↔
      Unhidden rs exePath ∨ Unhidden rs (afterLastSlash exePath) := by
  have hbase : ((pfRulesMatchAppAny rs (afterLastSlash exePath)).filter fun r =>
      r.action ≠ .direct && r.appPath.nonempty).isSome = true ↔
        Unhidden rs (afterLastSlash exePath) := by
    rw [unhidden_iff]
    cases hb : pfRulesMatchAppAny rs (afterLastSlash exePath) with
    | none => simp
    | some b => simp [Option.filter, appPath_of_match hb]
  rw [onProcessExec, Option.isSome_map, execRule, unhidden_iff rs exePath]
  cases hfull : pfRulesMatchAppAny rs exePath with
  | none =>
    rw [if_pos (by rfl), hbase]
    simp
  | some r =>
    by_cases hdirect : r.action = .direct
    · rw [if_pos (by simpa using hdirect), hbase]
      simp [hdirect]
    · rw [if_neg (by simpa using hdirect)]
      simp [Option.filter, hdirect, appPath_of_match hfull]

/-- What the event finds is a rule that wants the process. -/
theorem wanted_of_unhidden {rs : Ruleset} {exePath : CStr}
    (h : Unhidden rs exePath ∨ Unhidden rs (afterLastSlash exePath)) : Wanted rs exePath := by
  have hfound : ∀ text, Unhidden rs text → ∃ r ∈ rs, intercepted r = true ∧
      pfMatchApp r.appPath.chars text = true := by
    intro text h
    obtain ⟨pre, r, post, rfl, hhit, hact, -⟩ := h
    simp only [appHit, Bool.and_eq_true] at hhit
    exact ⟨r, by simp, by simp [intercepted, hhit.1.2, hact, hhit.1.1], hhit.2⟩
  rcases h with h | h
  · obtain ⟨r, hr, hint, hm⟩ := hfound _ h
    exact ⟨r, hr, hint, by simp [appMatches, hm]⟩
  · obtain ⟨r, hr, hint, hm⟩ := hfound _ h
    exact ⟨r, hr, hint, by simp [appMatches, hm]⟩

/-- Exec-time coverage, exactly: no rule wants the process, or one that does is not hidden, for
the full path or for the basename. -/
theorem coversExec_iff (rs : Ruleset) (exePath : CStr) :
    CoversExec rs exePath ↔
      ¬ Wanted rs exePath ∨ Unhidden rs exePath ∨ Unhidden rs (afterLastSlash exePath) := by
  unfold CoversExec
  rw [onProcessExec_isSome]
  constructor
  · intro h
    by_cases hw : Wanted rs exePath
    · exact .inr (h.mpr hw)
    · exact .inl hw
  · intro h
    rcases h with hnot | hun
    · exact ⟨wanted_of_unhidden, fun hw => absurd hw hnot⟩
    · exact iff_of_true hun (wanted_of_unhidden hun)

def directCurl : Rule :=
  { Rule.zero with id := 1, appPath := .snprintf (lit "curl"), action := .direct, enabled := 1 }

def blockCurl : Rule := { directCurl with id := 2, action := .block }

/-- A DIRECT rule for `curl` hides the BLOCK rule after it. -/
theorem direct_hides_block :
    onProcessExec [directCurl, blockCurl] (lit "/usr/bin/curl") = none ∧
      ¬ CoversExec [directCurl, blockCurl] (lit "/usr/bin/curl") := by
  have hnone : onProcessExec [directCurl, blockCurl] (lit "/usr/bin/curl") = none := by decide
  refine ⟨hnone, fun h => ?_⟩
  have hwanted : Wanted [directCurl, blockCurl] (lit "/usr/bin/curl") :=
    ⟨blockCurl, by simp, by decide, by decide⟩
  simpa [hnone] using h.mpr hwanted

end Proxiflare.Guarantees.ExecCoverage
