import Proxiflare.Daemon.Requests

/-!
# Reloading the ruleset from a database that may fail

`pf_rules_load` and `pf_config_rule_list` over the results of the SQLite calls they
make. Rows are written in place, after `count` has been reset.
-/

namespace Proxiflare.Daemon

def pfOk : Int := 0
def pfErrDb : Int := -3

/-- The result of one `sqlite3_step`: a row, the end of the rows, or any error code. -/
inductive SqlStep where
  | row (st : RuleRow)
  | done
  | error
  deriving DecidableEq

/-- Where a query fails: in `sqlite3_prepare_v2`, or in `sqlite3_step` once `rows` rows were
delivered. -/
inductive QueryFault where
  | prepare
  | step (rows : Nat)
  deriving DecidableEq

/-- The rules table as the query orders it. -/
def orderedRows (db : Db) : List RuleRow :=
  db.rules.insertionSort fun a b => a.priority ≤ b.priority

/-- What stepping through the prepared query gives; `none` when it cannot be prepared. -/
def queryRules (db : Db) : Option QueryFault → Option (List SqlStep)
  | none => some ((orderedRows db).map .row ++ [.done])
  | some .prepare => none
  | some (.step rows) => some (((orderedRows db).take rows).map .row ++
      [if rows ≤ (orderedRows db).length then .error else .done])

/-- `while (sqlite3_step(st) == SQLITE_ROW && *count < max)`; `out` is `rules[0 .. count)`. -/
def ruleRows (max : Nat) : List SqlStep → List Rule → List Rule
  | .row st :: steps, out =>
    if out.length < max then ruleRows max steps (out ++ [rowToRule st]) else out
  | _, out => out

/-- `pf_config_rule_list` on whatever SQLite answers: the rules and the return code. -/
def pfConfigRuleListOf (query : Option (List SqlStep)) (max : Nat) : List Rule × Int :=
  match query with
  | none => ([], pfErrDb)
  | some steps => (ruleRows max steps [], pfOk)

/-- The old rules are given up before the query is tried. -/
def pfRulesLoad (_old : Ruleset) (query : Option (List SqlStep)) : Ruleset × Int :=
  pfConfigRuleListOf query pfMaxRules

theorem ruleRows_rows (max : Nat) (last : SqlStep) (hlast : ∀ st, last ≠ .row st)
    (rows : List RuleRow) (out : List Rule) (hout : out.length ≤ max) :
    ruleRows max (rows.map .row ++ [last]) out =
      out ++ (rows.take (max - out.length)).map rowToRule := by
  induction rows generalizing out with
  | nil =>
    cases last with
    | row st => exact absurd rfl (hlast st)
    | done => simp [ruleRows]
    | error => simp [ruleRows]
  | cons st rows ih =>
    show (if out.length < max then
      ruleRows max (rows.map .row ++ [last]) (out ++ [rowToRule st]) else out) = _
    split
    · next hlt =>
      obtain ⟨k, hk⟩ : ∃ k, max - out.length = k + 1 := ⟨max - out.length - 1, by omega⟩
      rw [ih _ (by simpa using hlt), List.length_append, List.length_singleton, hk,
        List.take_succ_cons, List.map_cons, show max - (out.length + 1) = k by omega,
        List.append_assoc]
      rfl
    · next hge =>
      have hfull : max - out.length = 0 := by omega
      simp [hfull]

/-- Without a fault the reload is the one of the request handlers. -/
theorem pfRulesLoad_ok (old : Ruleset) (db : Db) :
    pfRulesLoad old (queryRules db none) = ((rulesReloadLocked ⟨db, old⟩).ruleset, pfOk) := by
  have hrows := ruleRows_rows pfMaxRules .done nofun (orderedRows db) [] (Nat.zero_le _)
  exact congrArg (·, pfOk) hrows

theorem mem_ruleRows {max : Nat} {steps : List SqlStep} {out : List Rule} {r : Rule}
    (h : r ∈ ruleRows max steps out) : r ∈ out ∨ ∃ st, SqlStep.row st ∈ steps ∧ rowToRule st = r := by
  induction steps generalizing out with
  | nil => exact .inl h
  | cons step steps ih =>
    cases step with
    | row st =>
      rw [ruleRows] at h
      split at h
      · rcases ih h with hout | ⟨st', hst', heq⟩
        · rcases List.mem_append.mp hout with hout | hnew
          · exact .inl hout
          · rw [List.mem_singleton] at hnew
            exact .inr ⟨st, List.mem_cons_self .., hnew.symm⟩
        · exact .inr ⟨st', List.mem_cons_of_mem _ hst', heq⟩
      · exact .inl h
    | done => exact .inl h
    | error => exact .inl h

/-- A rule of the ruleset is a row of the table, whatever the query runs into. -/
theorem mem_pfRulesLoad {old : Ruleset} {db : Db} {fault : Option QueryFault} {r : Rule}
    (h : r ∈ (pfRulesLoad old (queryRules db fault)).1) : ∃ row ∈ db.rules, rowToRule row = r := by
  have hrow : ∀ rows : List RuleRow, (∀ row ∈ rows, row ∈ orderedRows db) → ∀ last : SqlStep,
      (∀ st, last ≠ .row st) → r ∈ ruleRows pfMaxRules (rows.map .row ++ [last]) [] →
        ∃ row ∈ db.rules, rowToRule row = r := by
    intro rows hsub last hlast hr
    rcases mem_ruleRows hr with hr | ⟨st, hst, heq⟩
    · cases hr
    · rcases List.mem_append.mp hst with hst | hst
      · obtain ⟨row, hmem, hrow⟩ := List.mem_map.mp hst
        obtain rfl := SqlStep.row.inj hrow
        exact ⟨row, (List.mem_insertionSort _).mp (hsub row hmem), heq⟩
      · exact absurd (List.mem_singleton.mp hst).symm (hlast st)
  cases fault with
  | none => exact hrow (orderedRows db) (fun _ h => h) .done nofun h
  | some fault =>
    cases fault with
    | prepare => cases h
    | step rows =>
      apply hrow ((orderedRows db).take rows) (fun _ h => List.mem_of_mem_take h) _ _ h
      intro st
      split <;> exact nofun

end Proxiflare.Daemon
