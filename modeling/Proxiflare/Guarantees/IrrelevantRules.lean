import Proxiflare.Guarantees.RuleDecision

/-!
# Rules that have no part in a verdict

Every search behind the verdict looks for enabled rules whose domain, IP and port
criteria hold. Other rules can come, go and move about freely.
-/

namespace Proxiflare.Guarantees.IrrelevantRules

open Lib.CString Lib
open Proxiflare.Daemon
open Proxiflare.Guarantees.RuleDecision (selected domainRule)

variable {domain dstIp : Option CStr} {dstPort : Int}

/-- A search that accepts selected rules only gives the same on the selected rules. -/
theorem find?_selected {q : Rule → Bool} (rs : Ruleset)
    (hq : ∀ r, q r = true → r.enabled ≠ 0 ∧ criteriaHold r domain dstIp dstPort = true) :
    (selected rs domain dstIp dstPort).find? q = rs.find? q := by
  unfold selected
  rw [List.find?_filter]
  congr 1
  funext r
  cases hr : q r with
  | false => exact decide_eq_false fun h => Bool.noConfusion h.2
  | true =>
    obtain ⟨henabled, hcriteria⟩ := hq r hr
    refine decide_eq_true ⟨?_, rfl⟩
    rw [hcriteria, decide_eq_true henabled]
    rfl

theorem selected_of_openMatch {r : Rule} (h : openMatch domain dstIp dstPort r = true) :
    r.enabled ≠ 0 ∧ criteriaHold r domain dstIp dstPort = true := by
  unfold openMatch at h
  simp only [Bool.and_eq_true, decide_eq_true_eq] at h
  exact ⟨h.1.1, h.2⟩

theorem selected_of_appProxyMatch {r : Rule} (h : appProxyMatch domain dstIp dstPort r = true) :
    r.enabled ≠ 0 ∧ criteriaHold r domain dstIp dstPort = true := by
  unfold appProxyMatch at h
  simp only [Bool.and_eq_true, decide_eq_true_eq] at h
  exact ⟨h.1.1.1.1, h.2⟩

theorem pfRulesMatch_selected (rs : Ruleset) :
    pfRulesMatch (selected rs domain dstIp dstPort) none domain dstIp dstPort =
      pfRulesMatch rs none domain dstIp dstPort := by
  rw [pfRulesMatch_none_app, pfRulesMatch_none_app]
  exact find?_selected rs fun r => selected_of_openMatch

theorem bestAppRule_selected (rs : Ruleset) :
    bestAppRule (selected rs domain dstIp dstPort) domain dstIp dstPort =
      bestAppRule rs domain dstIp dstPort := by
  rw [bestAppRule_eq, bestAppRule_eq, find?_selected rs, find?_selected rs]
  · intro r hr
    exact selected_of_appProxyMatch (Bool.and_eq_true_iff.mp hr).1
  · intro r hr
    exact selected_of_appProxyMatch (Bool.and_eq_true_iff.mp hr).1

/-- The rule that applies is the one that applies among the selected rules alone. -/
theorem appliedRule_of_selected (rs : Ruleset) :
    appliedRule (selected rs domain dstIp dstPort) domain dstIp dstPort =
      appliedRule rs domain dstIp dstPort := by
  unfold appliedRule
  rw [pfRulesMatch_selected, bestAppRule_selected]

/-- Rulesets with the same selected rules give a connection the same applied rule and the same
result, with the same proxies contacted on the way. -/
theorem irrelevant_rules_do_not_matter (cn : Connectors) (ctx : Ctx) (rs rs' : Ruleset)
    (dstIp : CBuf 16) (dstPort : Int) (domain : CBuf pfDomainMax) (net : Net)
    (h : selected rs ((matchDomain ctx dstIp.chars domain).map CBuf.chars) (some dstIp.chars)
        dstPort =
      selected rs' ((matchDomain ctx dstIp.chars domain).map CBuf.chars) (some dstIp.chars)
        dstPort) :
    appliedRule rs ((matchDomain ctx dstIp.chars domain).map CBuf.chars) (some dstIp.chars)
          dstPort =
        appliedRule rs' ((matchDomain ctx dstIp.chars domain).map CBuf.chars) (some dstIp.chars)
          dstPort ∧
      proxyConnectForTproxy cn { ctx with ruleset := some rs } dstIp dstPort domain net =
        proxyConnectForTproxy cn { ctx with ruleset := some rs' } dstIp dstPort domain net := by
  have happlied : appliedRule rs ((matchDomain ctx dstIp.chars domain).map CBuf.chars)
      (some dstIp.chars) dstPort = appliedRule rs'
        ((matchDomain ctx dstIp.chars domain).map CBuf.chars) (some dstIp.chars) dstPort := by
    rw [← appliedRule_of_selected rs, h, appliedRule_of_selected]
  refine ⟨happlied, ?_⟩
  have hdomain (ruleset : Option Ruleset) :
      matchDomain { ctx with ruleset := ruleset } dstIp.chars domain =
        matchDomain ctx dstIp.chars domain := rfl
  unfold proxyConnectForTproxy
  simp only [hdomain, happlied]

def otherRule : Rule :=
  { Rule.zero with
    id := 3, domain := .snprintf (lit "*.example.org"), action := .block, enabled := 1 }

/-- A BLOCK rule for other domains before the rule that applies. -/
theorem irrelevant_rules_do_not_matter_netflix :
    appliedRule [otherRule, domainRule] (some (lit "www.netflix.com")) (some (lit "1.2.3.4"))
          443 =
        appliedRule [domainRule] (some (lit "www.netflix.com")) (some (lit "1.2.3.4")) 443 ∧
      proxyConnectForTproxy connectors ⟨some [otherRule, domainRule], Db.empty, [], 0⟩
          (.snprintf (lit "1.2.3.4")) 443 (.snprintf (lit "www.netflix.com")) ⟨[], [], [], []⟩ =
        proxyConnectForTproxy connectors ⟨some [domainRule], Db.empty, [], 0⟩
          (.snprintf (lit "1.2.3.4")) 443 (.snprintf (lit "www.netflix.com")) ⟨[], [], [], []⟩ :=
  irrelevant_rules_do_not_matter connectors ⟨none, Db.empty, [], 0⟩ [otherRule, domainRule]
    [domainRule] (.snprintf (lit "1.2.3.4")) 443 (.snprintf (lit "www.netflix.com"))
    ⟨[], [], [], []⟩ (by decide)

end Proxiflare.Guarantees.IrrelevantRules
