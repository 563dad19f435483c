import Proxiflare.Daemon.Routing

/-!
# Which rule decides a connection

Rules without application path come first, in list order; only when they give no
match or DIRECT are application rules looked at, and of those only the PROXY ones,
specific before catch-all. Two consequences: application rules with another action
never take effect here, and the lowest-index match need not be the one applied.
-/

namespace Proxiflare.Guarantees.RuleDecision

open Lib.CString Lib Lib.FirstMatch
open Proxiflare.Daemon

/-- The enabled rules whose non-empty domain, IP and port criteria all hold. -/
def selected (rs : Ruleset) (domain dstIp : Option CStr) (dstPort : Int) : List Rule :=
  rs.filter fun r => r.enabled ≠ 0 && criteriaHold r domain dstIp dstPort

theorem mem_selected {rs : Ruleset} {domain dstIp : Option CStr} {dstPort : Int} {r : Rule} :
    r ∈ selected rs domain dstIp dstPort ↔
      r ∈ rs ∧ r.enabled ≠ 0 ∧ criteriaHold r domain dstIp dstPort = true := by
  simp [selected]

/-- The applied rule is one of the selected rules, and if it has an application path it is a
PROXY rule. -/
theorem appliedRule_selected {rs : Ruleset} {domain dstIp : Option CStr} {dstPort : Int}
    {r : Rule} (h : appliedRule rs domain dstIp dstPort = some r) :
    r ∈ selected rs domain dstIp dstPort ∧ (r.appPath.nonempty = true → r.action = .proxy) := by
  have hbest : bestAppRule rs domain dstIp dstPort = some r →
      r ∈ selected rs domain dstIp dstPort ∧ (r.appPath.nonempty = true → r.action = .proxy) := by
    intro hb
    obtain ⟨hmem, hm⟩ := bestAppRule_some hb
    simp only [appProxyMatch, Bool.and_eq_true, decide_eq_true_eq] at hm
    exact ⟨mem_selected.mpr ⟨hmem, hm.1.1.1.1, hm.2⟩, fun _ => hm.1.1.1.2⟩
  unfold appliedRule at h
  rw [pfRulesMatch_none_app] at h
  split at h
  · next rule hfind =>
    split at h
    · exact hbest h
    · obtain rfl := Option.some.inj h
      have hopen := List.find?_some hfind
      simp only [openMatch, Bool.and_eq_true, decide_eq_true_eq, Bool.not_eq_true'] at hopen
      exact ⟨mem_selected.mpr ⟨List.mem_of_find?_eq_some hfind, hopen.1.1, hopen.2⟩,
        fun happ => absurd happ (by simp [hopen.1.2])⟩
  · exact hbest h

/-! ## Application rules that are not PROXY rules -/

def Blocks (r : Rule) : Prop := r.action = .block ∨ r.action = .reject

/-- `net` is the trace before the decision, `out` the callback's result. -/
def HonoursAppRules (sel : List Rule) (net : Net) (out : Int × Net) : Prop :=
  (sel ≠ [] → (∀ r ∈ sel, Blocks r) → out.1 = -2) ∧
  (sel ≠ [] → (∀ r ∈ sel, r.action = .chain) →
    ∃ r ∈ sel, ∃ evs, out.2.events = net.events ++ .useChain r.chainId :: evs)

/-- Without an applicable rule the callback says DIRECT and touches nothing. -/
theorem proxyConnectForTproxy_of_none (cn : Connectors) {ctx : Ctx} {rs : Ruleset}
    {dstIp : CBuf 16} {dstPort : Int} {domain : CBuf pfDomainMax} (net : Net)
    (hrs : ctx.ruleset = some rs)
    (h : appliedRule rs ((matchDomain ctx dstIp.chars domain).map CBuf.chars)
      (some dstIp.chars) dstPort = none) :
    proxyConnectForTproxy cn ctx dstIp dstPort domain net = (-1, net) := by
  simp only [proxyConnectForTproxy, hrs, h]

/-- When every selected rule is an application BLOCK or REJECT rule, or every one an application
CHAIN rule with an existing enabled chain, the verdict is DIRECT and nothing is dialled. -/
theorem app_rules_not_honoured (cn : Connectors) (ctx : Ctx) (rs : Ruleset) (dstIp : CBuf 16)
    (dstPort : Int) (domain : CBuf pfDomainMax) (net : Net) (sel : List Rule)
    (hrs : ctx.ruleset = some rs)
    (hsel : sel = selected rs ((matchDomain ctx dstIp.chars domain).map CBuf.chars)
      (some dstIp.chars) dstPort)
    (hne : sel ≠ [])
    (hkind : (∀ r ∈ sel, r.appPath.nonempty = true ∧ Blocks r) ∨
      (∀ r ∈ sel, r.appPath.nonempty = true ∧ r.action = .chain ∧
        ∃ c, pfConfigChainGet ctx.db r.chainId = some c ∧ c.enabled ≠ 0)) :
    proxyConnectForTproxy cn ctx dstIp dstPort domain net = (-1, net) ∧
      ¬ HonoursAppRules sel net (proxyConnectForTproxy cn ctx dstIp dstPort domain net) := by
  have hnotProxy : ∀ r ∈ sel, r.appPath.nonempty = true ∧ r.action ≠ .proxy := by
    intro r hr
    rcases hkind with h | h
    · obtain ⟨happ, hblock⟩ := h r hr
      exact ⟨happ, by rcases hblock with hb | hb <;> simp [hb]⟩
    · obtain ⟨happ, hchain, -⟩ := h r hr
      exact ⟨happ, by simp [hchain]⟩
  have hnone : appliedRule rs ((matchDomain ctx dstIp.chars domain).map CBuf.chars)
      (some dstIp.chars) dstPort = none := by
    rw [Option.eq_none_iff_forall_not_mem]
    intro r hr
    obtain ⟨hmem, happly⟩ := appliedRule_selected hr
    obtain ⟨happ, hact⟩ := hnotProxy r (hsel ▸ hmem)
    exact hact (happly happ)
  have hout := proxyConnectForTproxy_of_none cn net hrs hnone
  refine ⟨hout, ?_⟩
  rw [hout]
  intro hhonours
  obtain ⟨hblock, hchain⟩ := hhonours
  rcases hkind with h | h
  · exact absurd (hblock hne fun r hr => (h r hr).2) (by simp)
  · obtain ⟨r, -, evs, hevs⟩ := hchain hne fun r hr => (h r hr).2.1
    simpa using congrArg List.length hevs

def blockRule : Rule :=
  { Rule.zero with
    id := 1, appPath := .snprintf (lit "curl"), action := .block, enabled := 1 }

def blockCtx : Ctx := ⟨some [blockRule], Db.empty, [], 0⟩

def idleNet : Net := ⟨[], [], [], []⟩

theorem app_block_not_honoured :
    proxyConnectForTproxy connectors blockCtx (.snprintf (lit "1.2.3.4")) 443 .empty idleNet =
        (-1, idleNet) ∧
      ¬ HonoursAppRules [blockRule] idleNet
        (proxyConnectForTproxy connectors blockCtx (.snprintf (lit "1.2.3.4")) 443 .empty idleNet) :=
  app_rules_not_honoured connectors blockCtx [blockRule] (.snprintf (lit "1.2.3.4")) 443 .empty
    idleNet [blockRule] rfl (by decide) (by decide)
    (.inl fun r hr => by
      obtain rfl := List.mem_singleton.mp hr
      exact ⟨by decide, .inl rfl⟩)

/-- A BLOCK rule for an application lets its connections out directly. -/
theorem app_block_goes_direct :
    selected [blockRule] none (some (lit "1.2.3.4")) 443 = [blockRule] ∧
      ¬ HonoursAppRules [blockRule] idleNet
        (proxyConnectForTproxy connectors blockCtx (.snprintf (lit "1.2.3.4")) 443 .empty
          idleNet) := by
  refine ⟨by decide, fun h => ?_⟩
  have hcode := h.1 (by simp) fun r hr => by
    obtain rfl := List.mem_singleton.mp hr
    exact .inl rfl
  exact absurd hcode (by decide)

/-! ## Precedence among the selected rules -/

inductive RuleClass where
  | openRule | appSpecific | appCatchall
  deriving DecidableEq

/-- `none` for rules that are not candidates. -/
def ruleClass (domain dstIp : Option CStr) (dstPort : Int) (r : Rule) : Option RuleClass :=
  if openMatch domain dstIp dstPort r then some .openRule
  else if !appProxyMatch domain dstIp dstPort r then none
  else if hasSpecifics r then some .appSpecific
  else some .appCatchall

def firstOf (rs : Ruleset) (domain dstIp : Option CStr) (dstPort : Int) (k : RuleClass) :
    Option Rule :=
  rs.find? fun r => ruleClass domain dstIp dstPort r = some k

theorem openMatch_not_app {domain dstIp : Option CStr} {dstPort : Int} {r : Rule}
    (h : openMatch domain dstIp dstPort r = true) :
    appProxyMatch domain dstIp dstPort r = false := by
  simp only [openMatch, Bool.and_eq_true, Bool.not_eq_true'] at h
  simp [appProxyMatch, h.1.2]

theorem firstOf_openRule (rs : Ruleset) (domain dstIp : Option CStr) (dstPort : Int) :
    firstOf rs domain dstIp dstPort .openRule = pfRulesMatch rs none domain dstIp dstPort := by
  rw [pfRulesMatch_none_app, firstOf]
  congr 1
  funext r
  unfold ruleClass
  cases openMatch domain dstIp dstPort r <;> cases appProxyMatch domain dstIp dstPort r <;>
    cases hasSpecifics r <;> simp

theorem firstOf_app (rs : Ruleset) (domain dstIp : Option CStr) (dstPort : Int) :
    (firstOf rs domain dstIp dstPort .appSpecific).or
      (firstOf rs domain dstIp dstPort .appCatchall) = bestAppRule rs domain dstIp dstPort := by
  rw [bestAppRule_eq, firstOf, firstOf]
  congr 2 <;>
  · funext r
    unfold ruleClass
    cases hopen : openMatch domain dstIp dstPort r with
    | true => simp [openMatch_not_app hopen]
    | false =>
      cases appProxyMatch domain dstIp dstPort r <;> cases hasSpecifics r <;> simp

/-- The decision: the first open rule if it is not DIRECT, else the first specific application
rule, else the first application catch-all. -/
theorem appliedRule_eq (rs : Ruleset) (domain dstIp : Option CStr) (dstPort : Int) :
    appliedRule rs domain dstIp dstPort =
      ((firstOf rs domain dstIp dstPort .openRule).filter fun r => r.action ≠ .direct).or
        ((firstOf rs domain dstIp dstPort .appSpecific).or
          (firstOf rs domain dstIp dstPort .appCatchall)) := by
  rw [firstOf_app, firstOf_openRule]
  unfold appliedRule
  cases pfRulesMatch rs none domain dstIp dstPort with
  | none => simp
  | some rule => by_cases hd : rule.action = .direct <;> simp [Option.filter, hd]

/-- The first match of a class is its match of highest priority. -/
theorem firstOf_minimal {rs : Ruleset} {domain dstIp : Option CStr} {dstPort : Int} {k : RuleClass}
    {r : Rule} (hsorted : rs.Pairwise fun a b => a.priority ≤ b.priority)
    (h : firstOf rs domain dstIp dstPort k = some r) :
    ruleClass domain dstIp dstPort r = some k ∧
      ∀ r' ∈ rs, ruleClass domain dstIp dstPort r' = some k → r.priority ≤ r'.priority := by
  have hclass := List.find?_some h
  refine ⟨of_decide_eq_true hclass, fun r' hr' hk => ?_⟩
  exact find?_minimal (fun a => le_refl a.priority) hsorted h r' hr' (decide_eq_true hk)

/-- Over a sorted list of PROXY and DIRECT rules: the first open rule decides if it is a PROXY
rule, else the first specific application PROXY rule, else the first application catch-all; the
rule applied has the highest priority of its class. -/
theorem applied_rule_precedence (rs : Ruleset) (domain dstIp : Option CStr) (dstPort : Int)
    (hsorted : rs.Pairwise fun a b => a.priority ≤ b.priority)
    (hactions : ∀ r ∈ rs, (r.action = .proxy ∧ 0 < r.proxyId) ∨ r.action = .direct) :
    appliedRule rs domain dstIp dstPort =
        ((firstOf rs domain dstIp dstPort .openRule).filter fun r => r.action = .proxy).or
          ((firstOf rs domain dstIp dstPort .appSpecific).or
            (firstOf rs domain dstIp dstPort .appCatchall)) ∧
      ∀ r, appliedRule rs domain dstIp dstPort = some r →
        ∀ r' ∈ rs, ruleClass domain dstIp dstPort r' = ruleClass domain dstIp dstPort r →
          r.priority ≤ r'.priority := by
  have hfilter : (firstOf rs domain dstIp dstPort .openRule).filter (fun r => r.action ≠ .direct) =
      (firstOf rs domain dstIp dstPort .openRule).filter fun r => r.action = .proxy := by
    cases hfirst : firstOf rs domain dstIp dstPort .openRule with
    | none => rfl
    | some r =>
      rcases hactions r (List.mem_of_find?_eq_some hfirst) with ⟨hp, -⟩ | hd
      · simp [Option.filter, hp]
      · simp [Option.filter, hd]
  refine ⟨by rw [appliedRule_eq, hfilter], ?_⟩
  intro r hr r' hr' hclass
  have hfirst : ∃ k, firstOf rs domain dstIp dstPort k = some r := by
    rw [appliedRule_eq, Option.or_eq_some_iff, Option.or_eq_some_iff] at hr
    rcases hr with hr | ⟨-, hr | ⟨-, hr⟩⟩
    · exact ⟨.openRule, (Option.filter_eq_some_iff.mp hr).1⟩
    · exact ⟨.appSpecific, hr⟩
    · exact ⟨.appCatchall, hr⟩
  obtain ⟨k, hk⟩ := hfirst
  obtain ⟨hkr, hmin⟩ := firstOf_minimal hsorted hk
  exact hmin r' hr' (hclass.trans hkr)

/-- The lowest-index enabled rule with a criterion, all of whose criteria hold, is applied. -/
def FirstMatchWins (rs : Ruleset) (domain dstIp : Option CStr) (dstPort : Int) : Prop :=
  ∀ r, (rs.find? fun r => r.enabled ≠ 0 && hasSpecifics r && criteriaHold r domain dstIp dstPort) =
    some r → appliedRule rs domain dstIp dstPort = some r

def appDomainRule : Rule :=
  { Rule.zero with
    id := 1, priority := 1, appPath := .snprintf (lit "firefox")
    domain := .snprintf (lit "*.netflix.com"), action := .proxy, proxyId := 1, enabled := 1 }

def domainRule : Rule :=
  { Rule.zero with
    id := 2, priority := 2, domain := .snprintf (lit "*.netflix.com"), action := .proxy
    proxyId := 2, enabled := 1 }

theorem applied_rule_precedence_netflix :
    appliedRule [appDomainRule, domainRule] (some (lit "www.netflix.com")) (some (lit "1.2.3.4"))
          443 =
        ((firstOf [appDomainRule, domainRule] (some (lit "www.netflix.com"))
            (some (lit "1.2.3.4")) 443 .openRule).filter fun r => r.action = .proxy).or
          ((firstOf [appDomainRule, domainRule] (some (lit "www.netflix.com"))
              (some (lit "1.2.3.4")) 443 .appSpecific).or
            (firstOf [appDomainRule, domainRule] (some (lit "www.netflix.com"))
              (some (lit "1.2.3.4")) 443 .appCatchall)) ∧
      ∀ r, appliedRule [appDomainRule, domainRule] (some (lit "www.netflix.com"))
          (some (lit "1.2.3.4")) 443 = some r →
        ∀ r' ∈ [appDomainRule, domainRule],
          ruleClass (some (lit "www.netflix.com")) (some (lit "1.2.3.4")) 443 r' =
              ruleClass (some (lit "www.netflix.com")) (some (lit "1.2.3.4")) 443 r →
            r.priority ≤ r'.priority :=
  applied_rule_precedence [appDomainRule, domainRule] (some (lit "www.netflix.com"))
    (some (lit "1.2.3.4")) 443 (by decide) (by decide)

/-- The application rule comes first in a sorted list of PROXY rules, the open one is applied. -/
theorem open_rule_overtakes_app_rule :
    [appDomainRule, domainRule].Pairwise (fun a b => a.priority ≤ b.priority) ∧
      (∀ r ∈ [appDomainRule, domainRule], r.action = .proxy ∧ 0 < r.proxyId) ∧
      ¬ FirstMatchWins [appDomainRule, domainRule] (some (lit "www.netflix.com"))
        (some (lit "1.2.3.4")) 443 := by
  refine ⟨by decide, by decide, fun h => ?_⟩
  exact absurd (h appDomainRule (by decide)) (by decide)

end Proxiflare.Guarantees.RuleDecision
