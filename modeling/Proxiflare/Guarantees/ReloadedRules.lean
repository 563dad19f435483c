import Proxiflare.Guarantees.PartialEdits

/-!
# The saved rule in the ruleset

After a `rule.add` or `rule.edit` answered with ok, a rule of the reloaded ruleset that has
the id of the saved one is the record the request made, whatever the reload ran into. There is one if
the reload ran through and the rules are not too many.
-/

namespace Proxiflare.Guarantees.ReloadedRules

open Lib.CString Lib
open Proxiflare.Daemon

variable {h : Host} {printed : Nat → CStr} {params : Json} {r : Rule}

/-- A rule of a reloaded ruleset is the stored one with its id. -/
theorem mem_reloaded (hr : r ∈ h.rulesReloadLocked.ruleset) :
    pfConfigRuleGet h.rulesReloadLocked.session.db r.id = some r := by
  obtain ⟨row, hrow, rfl⟩ := mem_pfRulesLoad hr
  exact StoredRecords.ruleGet_of_mem h.session.store.sound hrow

theorem ruleAdd_saved (hok : (h.ruleAdd printed (some params)).1 = .ok) :
    ∃ h₁ : Host, (h.ruleAdd printed (some params)).2 = h₁.rulesReloadLocked ∧
      pfConfigRuleGet h₁.session.db h₁.session.tables.ruleSeq =
        some { ruleFromJson params with id := h₁.session.tables.ruleSeq } := by
  unfold Host.ruleAdd at hok ⊢
  cases hadd : h.config (Session.pfConfigRuleAdd (ruleFromJson params)) with
  | mk done h₁ =>
    simp only [hadd] at hok ⊢
    cases done with
    | none => cases hok
    | some _ =>
      have hstored := StoredRecords.rule_add (PartialEdits.config_gives hadd)
      exact ⟨_, rfl, hstored⟩

theorem ruleEdit_reloads (hok : (h.ruleEdit printed (some params)).1 = .ok) :
    ∃ h₁ : Host, (h.ruleEdit printed (some params)).2 = h₁.rulesReloadLocked := by
  unfold Host.ruleEdit at hok ⊢
  cases hload : h.loadRule params.idOf with
  | mk stored h₁ =>
    simp only [hload] at hok ⊢
    cases stored with
    | none => cases hok
    | some r =>
      simp only at hok ⊢
      cases hupdate : h₁.config (Session.pfConfigRuleUpdate (ruleOverlay params r)) with
      | mk done h₂ =>
        simp only [hupdate] at hok ⊢
        cases done with
        | none => cases hok
        | some _ => exact ⟨_, rfl⟩

/-- The rule that `rule.add` saved. -/
theorem ruleAdd_reloaded (hok : (h.ruleAdd printed (some params)).1 = .ok)
    (hr : r ∈ (h.ruleAdd printed (some params)).2.ruleset)
    (hid : r.id = (h.ruleAdd printed (some params)).2.session.tables.ruleSeq) :
    r = { ruleFromJson params with id := r.id } := by
  obtain ⟨h₁, hreload, hsaved⟩ := ruleAdd_saved hok
  rw [hreload] at hr hid
  have hget := mem_reloaded hr
  rw [hid] at hget ⊢
  exact Option.some.inj (hget.symm.trans hsaved)

/-- The rule that `rule.edit` saved, an overlay of the one stored before. -/
theorem ruleEdit_reloaded (hok : (h.ruleEdit printed (some params)).1 = .ok)
    (hr : r ∈ (h.ruleEdit printed (some params)).2.ruleset) (hid : (r.id : Int) = params.idOf) :
    ∃ stored, r = ruleOverlay params stored := by
  obtain ⟨h₁, hreload⟩ := ruleEdit_reloads hok
  obtain ⟨stored, -, hsaved⟩ := PartialEdits.ruleEdit_stores hok
  rw [hreload] at hr hsaved
  have hget := mem_reloaded hr
  rw [hid] at hget
  exact ⟨stored, Option.some.inj (hget.symm.trans hsaved)⟩

/-- A reload that runs through takes every rule up to the limit. -/
theorem stored_in_ruleset (hquery : h.queryFault = none)
    (hlimit : h.session.tables.rules.length ≤ pfMaxRules) {id : Int}
    (hget : pfConfigRuleGet h.session.db id = some r) : r ∈ h.rulesReloadLocked.ruleset := by
  obtain ⟨row, hrow, rfl, -⟩ := pfConfigRuleGet_some hget
  have hreload := pfRulesLoad_ok h.ruleset h.session.db
  show _ ∈ (pfRulesLoad h.ruleset (queryRules h.session.db h.queryFault)).1
  rw [hquery, hreload]
  show _ ∈ pfConfigRuleList h.session.db pfMaxRules
  unfold pfConfigRuleList
  rw [List.take_of_length_le]
  · exact List.mem_map_of_mem ((List.mem_insertionSort _).mpr hrow)
  · rw [List.length_insertionSort]
    exact hlimit

/-- The ruleset has a rule with the id, unless its reload failed or there are too many rules. -/
def InRuleset (h : Host) (id : Int) : Prop :=
  h.queryFault = none → h.session.tables.rules.length ≤ pfMaxRules → ∃ r ∈ h.ruleset, (r.id : Int) = id

def AddReloads (printed : Nat → CStr) (h : Host) (params : Json) : Prop :=
  (h.ruleAdd printed (some params)).1 = .ok →
    InRuleset (h.ruleAdd printed (some params)).2 (h.ruleAdd printed (some params)).2.session.tables.ruleSeq

def EditReloads (printed : Nat → CStr) (h : Host) (params : Json) : Prop :=
  (h.ruleEdit printed (some params)).1 = .ok →
    InRuleset (h.ruleEdit printed (some params)).2 params.idOf

theorem addReloads (printed : Nat → CStr) (h : Host) (params : Json) : AddReloads printed h params := by
  intro hok hquery hlimit
  obtain ⟨h₁, hreload, hsaved⟩ := ruleAdd_saved hok
  rw [hreload] at hquery hlimit ⊢
  exact ⟨_, stored_in_ruleset hquery hlimit hsaved, rfl⟩

theorem editReloads (printed : Nat → CStr) (h : Host) (params : Json) : EditReloads printed h params := by
  intro hok hquery hlimit
  obtain ⟨h₁, hreload⟩ := ruleEdit_reloads hok
  obtain ⟨stored, -, hsaved⟩ := PartialEdits.ruleEdit_stores hok
  rw [hreload] at hquery hlimit hsaved ⊢
  obtain ⟨-, -, -, hid⟩ := pfConfigRuleGet_some hsaved
  exact ⟨_, stored_in_ruleset hquery hlimit hsaved, hid⟩

/-- What holds of the saved rule wherever the reloaded ruleset has it. -/
def AfterAdd (printed : Nat → CStr) (h : Host) (params : Json) (P : Rule → Prop) : Prop :=
  (h.ruleAdd printed (some params)).1 = .ok →
    ∀ r ∈ (h.ruleAdd printed (some params)).2.ruleset,
      r.id = (h.ruleAdd printed (some params)).2.session.tables.ruleSeq → P r

def AfterEdit (printed : Nat → CStr) (h : Host) (params : Json) (P : Rule → Prop) : Prop :=
  (h.ruleEdit printed (some params)).1 = .ok →
    ∀ r ∈ (h.ruleEdit printed (some params)).2.ruleset, (r.id : Int) = params.idOf → P r

theorem afterAdd_of {P : Rule → Prop} (hP : ∀ id, P { ruleFromJson params with id := id }) :
    AfterAdd printed h params P := by
  intro hok r hr hid
  rw [ruleAdd_reloaded hok hr hid]
  exact hP r.id

theorem afterEdit_of {P : Rule → Prop} (hP : ∀ stored, P (ruleOverlay params stored)) :
    AfterEdit printed h params P := by
  intro hok r hr hid
  obtain ⟨stored, rfl⟩ := ruleEdit_reloaded hok hr hid
  exact hP stored

end Proxiflare.Guarantees.ReloadedRules
