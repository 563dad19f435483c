import Proxiflare.Daemon.Reload

/-!
# When a reload of the ruleset is all-or-nothing

The old rules are gone before the query is prepared, and an error in the middle of
the rows looks like their end. The reload keeps or completes the ruleset exactly
when there was nothing to lose.
-/

namespace Proxiflare.Guarantees.ReloadAtomicity

open Proxiflare.Daemon

/-- The complete rule list of the database, in priority order. -/
def completeList (db : Db) : Ruleset := (orderedRows db).map rowToRule

/-- The ruleset is unchanged or complete, and `PF_OK` means complete. -/
def AllOrNothing (old : Ruleset) (db : Db) (fault : Option QueryFault) : Prop :=
  ((pfRulesLoad old (queryRules db fault)).1 = old ∨
      (pfRulesLoad old (queryRules db fault)).1 = completeList db) ∧
    ((pfRulesLoad old (queryRules db fault)).2 = pfOk →
      (pfRulesLoad old (queryRules db fault)).1 = completeList db)

/-- A query that is not prepared finds no rule to lose; one that fails had delivered every row. -/
def NothingToLose (old : Ruleset) (db : Db) : Option QueryFault → Prop
  | none => True
  | some .prepare => old = [] ∨ db.rules = []
  | some (.step rows) => db.rules.length ≤ rows

variable {db : Db}

theorem orderedRows_length (db : Db) : (orderedRows db).length = db.rules.length :=
  List.length_insertionSort _ _

theorem load_prepare (old : Ruleset) (db : Db) :
    pfRulesLoad old (queryRules db (some .prepare)) = ([], pfErrDb) := rfl

/-- Whatever ends the rows, the call returns `PF_OK` with the rules read so far. -/
theorem load_rows {rows : List RuleRow} (h : rows.length ≤ pfMaxRules) (old : Ruleset)
    (last : SqlStep) (hlast : ∀ st, last ≠ .row st) :
    pfRulesLoad old (some (rows.map .row ++ [last])) = (rows.map rowToRule, pfOk) := by
  have hrows := ruleRows_rows pfMaxRules last hlast rows [] (Nat.zero_le _)
  rw [List.length_nil, Nat.sub_zero, List.take_of_length_le h] at hrows
  exact congrArg (·, pfOk) hrows

theorem allOrNothing_of_ok {old : Ruleset} {fault : Option QueryFault} {out : Ruleset}
    (h : pfRulesLoad old (queryRules db fault) = (out, pfOk)) :
    AllOrNothing old db fault ↔ out = completeList db := by
  unfold AllOrNothing
  rw [h]
  constructor
  · intro hall
    exact hall.2 rfl
  · intro hout
    exact ⟨.inr hout, fun _ => hout⟩

theorem take_eq_all {α : Type} (l : List α) (n : Nat) : l.take n = l ↔ l.length ≤ n := by
  constructor
  · intro h
    have hlen := congrArg List.length h
    rw [List.length_take] at hlen
    omega
  · exact List.take_of_length_le

/-- For every database of at most `PF_MAX_RULES` rules and every failure of SQLite. -/
theorem allOrNothing_iff (old : Ruleset) (db : Db) (fault : Option QueryFault)
    (hmax : db.rules.length ≤ pfMaxRules) : AllOrNothing old db fault ↔ NothingToLose old db fault := by
  have hrows : (orderedRows db).length ≤ pfMaxRules := by rwa [orderedRows_length]
  cases fault with
  | none =>
    have hload := load_rows hrows old .done nofun
    exact iff_of_true ((allOrNothing_of_ok hload).mpr rfl) trivial
  | some fault =>
    cases fault with
    | prepare =>
      have hnil : [] = completeList db ↔ db.rules = [] := by
        rw [eq_comm, completeList, List.map_eq_nil_iff, ← List.length_eq_zero_iff,
          orderedRows_length, List.length_eq_zero_iff]
      unfold AllOrNothing
      rw [load_prepare]
      constructor
      · intro h
        exact h.1.imp Eq.symm hnil.mp
      · intro h
        exact ⟨h.imp Eq.symm hnil.mpr, fun hok => absurd hok (by decide)⟩
    | step rows =>
      have htake : ((orderedRows db).take rows).length ≤ pfMaxRules :=
        (List.length_take_le' _ _).trans hrows
      have hload := load_rows htake old
        (if rows ≤ (orderedRows db).length then .error else .done) (by intro st; split <;> nofun)
      rw [allOrNothing_of_ok hload, completeList]
      show _ ↔ db.rules.length ≤ rows
      rw [← orderedRows_length db, ← take_eq_all]
      constructor
      · intro h
        have hlen := congrArg List.length h
        rw [List.length_map, List.length_map] at hlen
        exact (List.take_sublist rows _).eq_of_length hlen
      · intro h
        rw [h]

def oneRule : Db :=
  { Db.empty with rules := [ruleToRow 1 { Rule.zero with enabled := 1, action := .block }] }

/-- A rule that is no longer in the table. -/
def stale : Rule := { Rule.zero with id := 7, enabled := 1 }

/-- Behind the last row an error loses nothing, at `prepare` it loses the old rule. -/
theorem oneRule_faults_iff : AllOrNothing [stale] oneRule (some (.step 1)) ∧
    ¬ AllOrNothing [stale] oneRule (some .prepare) := by
  have hlate := allOrNothing_iff [stale] oneRule (some (.step 1)) (by decide)
  have hprepare := allOrNothing_iff [stale] oneRule (some .prepare) (by decide)
  refine ⟨hlate.mpr (Nat.le_refl 1), fun h => ?_⟩
  rcases hprepare.mp h with hold | hrows
  · cases hold
  · cases hrows

/-- An error before the first row leaves an empty ruleset and reports success. -/
theorem step_error_empties :
    pfRulesLoad (completeList oneRule) (queryRules oneRule (some (.step 0))) = ([], pfOk) ∧
      ¬ AllOrNothing (completeList oneRule) oneRule (some (.step 0)) := by
  have hload : pfRulesLoad (completeList oneRule) (queryRules oneRule (some (.step 0))) =
      ([], pfOk) := by rfl
  refine ⟨hload, fun h => ?_⟩
  have hempty := h.2 rfl
  rw [hload] at hempty
  exact absurd hempty (by decide)

end Proxiflare.Guarantees.ReloadAtomicity
