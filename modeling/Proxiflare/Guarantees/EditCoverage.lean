import Proxiflare.Daemon.Cgroups
import Proxiflare.Guarantees.MarkMirror

/-!
# Coverage under rule edits

A rule that is withdrawn has its cgroup drained to the base, and no other rule is
asked to take the processes over. Along any run, no process loses its cover exactly
when no rule is withdrawn whose cgroup holds a process another rule still intercepts.
-/

namespace Proxiflare.Guarantees.EditCoverage

open Lib.CString Lib.Runs
open Proxiflare.Daemon
open MarkMirror (tableRules)

/-- The rule a request deletes, or leaves disabled, DIRECT or without application. -/
def withdrawn (w : World) : WorldEvent → Option Int
  | .ruleDelete params =>
    ((params.bind (Json.getObjectItem · (lit "id"))).map fun v => toInt32 v.valuedouble).filter
      rulePathOk
  | .ruleEdit (some p) => (loadRule w.state.db p.idOf).bind fun stored =>
      if (pfConfigRuleUpdate w.state.db (ruleOverlay p stored)).isSome &&
          !intercepted (ruleOverlay p stored) then some (stored.id : Int)
      else none
  | _ => none

/-- Another rule of the table intercepts the executable. -/
def OtherIntercepts (db : Db) (b : Int) (exe : CBuf pfPathMax) : Prop :=
  ∃ a ∈ tableRules db, (a.id : Int) ≠ b ∧ intercepted a = true ∧ appMatches a exe.chars = true

/-- Withdrawing a rule takes no process out of every rule cgroup that another rule still
intercepts. -/
def KeepsCovered (w : World) (e : WorldEvent) (w' : World) : Prop :=
  ∀ b ∈ withdrawn w e, ∀ pid p p', w.procs pid = some p → w'.procs pid = some p' →
    p.rule ≠ none → p'.rule = none → ¬ OtherIntercepts w'.state.db b p'.exe

/-- The cgroup of the rule about to be withdrawn holds no process another rule intercepts. -/
def Uncontested (w : World) (e : WorldEvent) : Prop :=
  ∀ b ∈ withdrawn w e, ∀ pid p, w.procs pid = some p → p.rule = some b →
    ¬ OtherIntercepts w.state.db b p.exe

variable {w w' : World} {e : WorldEvent} {b : Int}

/-! ## What withdrawing a rule does -/

theorem otherIntercepts_delete (db : Db) (b : Int) (exe : CBuf pfPathMax) :
    OtherIntercepts (pfConfigRuleDelete db b) b exe ↔ OtherIntercepts db b exe := by
  unfold OtherIntercepts tableRules pfConfigRuleDelete
  constructor
  · intro h
    obtain ⟨a, ha, hne, hrest⟩ := h
    obtain ⟨row, hrow, rfl⟩ := List.mem_map.mp ha
    exact ⟨_, List.mem_map_of_mem (List.mem_of_mem_filter hrow), hne, hrest⟩
  · intro h
    obtain ⟨a, ha, hne, hrest⟩ := h
    obtain ⟨row, hrow, rfl⟩ := List.mem_map.mp ha
    refine ⟨_, List.mem_map_of_mem (List.mem_filter.mpr ⟨hrow, ?_⟩), hne, hrest⟩
    simpa using hne

theorem otherIntercepts_update {db db' : Db} {r : Rule} (hupd : pfConfigRuleUpdate db r = some db')
    (exe : CBuf pfPathMax) : OtherIntercepts db' r.id exe ↔ OtherIntercepts db r.id exe := by
  simp only [pfConfigRuleUpdate, Option.ite_none_right_eq_some, Option.some.injEq] at hupd
  obtain ⟨-, rfl⟩ := hupd
  unfold OtherIntercepts tableRules
  constructor
  · intro h
    obtain ⟨a, ha, hne, hrest⟩ := h
    rw [List.map_map] at ha
    obtain ⟨row, hrow, rfl⟩ := List.mem_map.mp ha
    simp only [Function.comp_apply] at hne hrest
    split at hne
    · exact absurd rfl hne
    · next hid =>
      rw [if_neg hid] at hrest
      exact ⟨_, List.mem_map_of_mem hrow, hne, hrest⟩
  · intro h
    obtain ⟨a, ha, hne, hrest⟩ := h
    obtain ⟨row, hrow, rfl⟩ := List.mem_map.mp ha
    have hid : row.id ≠ r.id := by exact_mod_cast hne
    refine ⟨rowToRule row, ?_, hne, hrest⟩
    rw [List.map_map]
    exact List.mem_map.mpr ⟨row, hrow, by rw [Function.comp_apply, if_neg hid]⟩

/-- The step that withdraws `b` drains the cgroup of `b` and leaves the other rules as they are. -/
theorem step_withdrawn (hb : b ∈ withdrawn w e) (hs : w.step e = some w') :
    w'.procs = pfCgroupRemoveRule w.procs b ∧ rulePathOk b = true ∧
      ∀ exe, OtherIntercepts w'.state.db b exe ↔ OtherIntercepts w.state.db b exe := by
  cases e with
  | ruleDelete params =>
    obtain rfl := Option.some.inj hs
    obtain ⟨hid, hok⟩ := Option.filter_eq_some_iff.mp hb
    obtain ⟨v, hv, rfl⟩ := Option.map_eq_some_iff.mp hid
    have hdel : ruleDelete w.state params = ⟨rulesReloadLocked
        { w.state with db := pfConfigRuleDelete w.state.db (toInt32 v.valuedouble) },
        [.cgroupRemoveRule (toInt32 v.valuedouble), .nftRemoveCgroupMark (toInt32 v.valuedouble)],
        .ok⟩ := by
      simp only [ruleDelete, hv]
    rw [World.request, hdel]
    exact ⟨rfl, hok, otherIntercepts_delete _ _⟩
  | ruleEdit params =>
    obtain rfl := Option.some.inj hs
    cases params with
    | none => cases hb
    | some p =>
      obtain ⟨stored, hload, hif⟩ := Option.bind_eq_some_iff.mp hb
      simp only [Option.ite_none_right_eq_some, Option.some.injEq, Bool.and_eq_true,
        Bool.not_eq_true'] at hif
      obtain ⟨⟨hsome, hnot⟩, rfl⟩ := hif
      obtain ⟨db, hupd⟩ := Option.isSome_iff_exists.mp hsome
      have hedit : ruleEdit w.state (some p) = ⟨rulesReloadLocked { w.state with db := db },
          [.nftRemoveCgroupMark stored.id, .cgroupRemoveRule stored.id], .ok⟩ := by
        simp only [ruleEdit, hload, hupd, hnot]
        rfl
      obtain ⟨hpos, hget⟩ := Option.ite_none_right_eq_some.mp hload
      obtain ⟨-, -, -, hid⟩ := pfConfigRuleGet_some hget
      rw [World.request, hedit]
      refine ⟨rfl, decide_eq_true (hid ▸ hpos), ?_⟩
      exact otherIntercepts_update (r := ruleOverlay p stored) hupd
  | ruleAdd params => cases hb
  | fork parent child => cases hb
  | exec pid exe => cases hb
  | exit pid => cases hb

/-- A process leaves the rule cgroups when its own is drained, and keeps its executable. -/
theorem removeRule_loses {procs : Processes} (hok : rulePathOk b = true) {pid : Nat}
    {p p' : Process} (hp : procs pid = some p)
    (hp' : pfCgroupRemoveRule procs b pid = some p') :
    p'.exe = p.exe ∧ (p.rule ≠ none ∧ p'.rule = none ↔ p.rule = some b) := by
  simp only [pfCgroupRemoveRule, hok, if_true, hp, Option.map_some, Option.some.injEq] at hp'
  subst hp'
  split
  · next h => simp [h]
  · next h =>
    refine ⟨rfl, iff_of_false (fun hloses => hloses.1 hloses.2) h⟩

/-! ## Runs -/

theorem step_keepsCovered (hs : w.step e = some w') : KeepsCovered w e w' ↔ Uncontested w e := by
  apply forall_congr'
  intro b
  apply forall_congr'
  intro hb
  obtain ⟨hprocs, hok, hother⟩ := step_withdrawn hb hs
  rw [hprocs]
  constructor
  · intro hkeeps pid p hp hrule
    cases hp' : pfCgroupRemoveRule w.procs b pid with
    | none => simp [pfCgroupRemoveRule, hok, hp] at hp'
    | some p' =>
      obtain ⟨hexe, hloses⟩ := removeRule_loses hok hp hp'
      obtain ⟨hin, hout⟩ := hloses.mpr hrule
      have hnot := hkeeps pid p p' hp hp' hin hout
      rwa [hother, hexe] at hnot
  · intro hfree pid p p' hp hp' hin hout
    obtain ⟨hexe, hloses⟩ := removeRule_loses hok hp hp'
    rw [hother, hexe]
    exact hfree pid p hp (hloses.mp ⟨hin, hout⟩)

/-- Along every run from start-up, processes stay covered exactly when every rule is withdrawn
uncontested. -/
theorem keepsCovered_iff (db : Db) (exes : Nat → Option (CBuf pfPathMax)) (es : List WorldEvent) :
    Along World.step KeepsCovered (World.start db exes) es ↔
      Along World.step (fun w e _ => Uncontested w e) (World.start db exes) es := by
  refine along_congr (fun _ => True) ?_ ?_ trivial es
  · intros
    trivial
  · intro w e w' _ hs
    exact step_keepsCovered hs

def blockCurlParams : Json :=
  .obj [(lit "match_app", .str (lit "curl")), (lit "action", .str (lit "block"))]

def runningCurl (pid : Nat) : Option (CBuf pfPathMax) :=
  if pid = 7 then some (.snprintf (lit "/usr/bin/curl")) else none

/-- Two BLOCK rules for `curl` are added and the second is deleted. -/
def addAddDelete : List WorldEvent :=
  [.ruleAdd (some blockCurlParams), .ruleAdd (some blockCurlParams),
    .ruleDelete (some (.obj [(lit "id", .num 2)]))]

/-- Process 7 leaves the cgroup of rule 2 for the base, though rule 1 still names it. -/
theorem delete_uncovers_curl :
    ¬ Along World.step KeepsCovered (World.start .empty runningCurl) addAddDelete := by
  intro h
  have hdelete := ((h _ rfl).2 _ rfl).2 _ rfl
  have hkeeps := hdelete.1 2 (by decide) 7 ⟨.snprintf (lit "/usr/bin/curl"), some 2⟩
    ⟨.snprintf (lit "/usr/bin/curl"), none⟩ (by decide) (by decide) (by decide) rfl
  exact hkeeps ⟨{ ruleFromJson blockCurlParams with id := 1 }, by decide, by decide, by decide,
    by decide⟩

end Proxiflare.Guarantees.EditCoverage
