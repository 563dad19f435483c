import Proxiflare.Guarantees.RuleAtomicity

/-!
# What a reordering does to the ruleset

After a `rule.reorder` answered with ok, and a reload that runs through, the listed rules stand in
the listed order, whatever the priorities of the others are, and the others are as they were.
-/

namespace Proxiflare.Guarantees.RuleOrder

open Lib.CString Lib
open Proxiflare.Daemon
open RuleAtomicity (placed placed_of_not_mem setPriorities_spec)

/-- What the UPDATEs make of a row, if all are executed. -/
def moved (ids : List Int) (ri : Nat) (row : RuleRow) : RuleRow :=
  if (row.id : Int) ∈ ids then { row with priority := (ri + ids.idxOf (row.id : Int) : Nat) }
  else row

variable {h : Host} {params : Option Json} {ids : List Int}

theorem moved_id (ids : List Int) (ri : Nat) (row : RuleRow) : (moved ids ri row).id = row.id := by
  unfold moved
  split <;> rfl

theorem moved_of_not_mem {ri : Nat} {row : RuleRow} (hrow : (row.id : Int) ∉ ids) :
    moved ids ri row = row := if_neg hrow

theorem placed_eq_moved {ri : Nat} {fails : List Bool} {row : RuleRow} (hdistinct : ids.Nodup)
    (hexecuted : ∀ k < ids.length, fails.getD k false = false) :
    placed ri ids fails row = moved ids ri row := by
  induction ids generalizing ri fails with
  | nil => rfl
  | cons id ids ih =>
    obtain ⟨hnew, hrest⟩ := List.nodup_cons.mp hdistinct
    rw [List.length_cons, Session.forall_getD_succ] at hexecuted
    rw [placed]
    by_cases hid : (row.id : Int) = id
    · rw [if_pos ⟨hexecuted.1, hid⟩, placed_of_not_mem (by rwa [← hid] at hnew), moved,
        if_pos (by rw [hid]; exact List.mem_cons_self), hid, List.idxOf_cons_self]
      rfl
    · have hmem : (row.id : Int) ∈ id :: ids ↔ (row.id : Int) ∈ ids :=
        List.mem_cons.trans (or_iff_right hid)
      rw [if_neg fun hc => hid hc.2, ih hrest hexecuted.2, moved, moved]
      simp only [hmem]
      rw [List.idxOf_cons_ne _ (Ne.symm hid), Nat.add_right_comm, Nat.add_assoc]

/-- The table after the UPDATEs, and the ruleset the reload makes of it. -/
theorem ruleReorder_reloads (hids : Host.reorderIds params = some ids) (hdistinct : ids.Nodup)
    (hlimit : h.session.tables.rules.length ≤ pfMaxRules) (hquery : h.queryFault = none)
    (hok : (h.ruleReorder params).1 = .ok) :
    ∃ rows : List RuleRow, rows.Perm (h.session.tables.rules.map (moved ids 0)) ∧
      (rows.Pairwise fun a b => a.priority ≤ b.priority) ∧
      (h.ruleReorder params).2.ruleset = rows.map rowToRule := by
  obtain ⟨hrules, hall⟩ := setPriorities_spec 0 ids h.session
  unfold Host.ruleReorder at hok ⊢
  rw [hids] at hok ⊢
  simp only at hok ⊢
  split at hok
  · next hdone =>
    have htable : (Host.setPriorities 0 ids h.session).2.tables.rules =
        h.session.tables.rules.map (moved ids 0) := by
      rw [hrules]
      exact List.map_congr_left fun row _ => placed_eq_moved hdistinct (hall.mp hdone)
    refine ⟨orderedRows (Host.setPriorities 0 ids h.session).2.db, ?_, ?_, ?_⟩
    · rw [← htable]
      exact List.perm_insertionSort _ _
    · exact List.pairwise_insertionSort _ _
    · rw [if_pos hdone]
      show (pfRulesLoad h.ruleset (queryRules _ h.queryFault)).1 = _
      rw [hquery, pfRulesLoad_ok]
      show ((orderedRows _).take pfMaxRules).map rowToRule = _
      rw [List.take_of_length_le]
      rw [orderedRows, List.length_insertionSort]
      show (Host.setPriorities 0 ids h.session).2.tables.rules.length ≤ pfMaxRules
      rwa [htable, List.length_map]
  · cases hok

/-- For every rules table, every list of distinct ids that are in it, and any priorities. -/
theorem reorder_takes_effect (h : Host) (hids : Host.reorderIds params = some ids)
    (hdistinct : ids.Nodup)
    (hexist : ∀ id ∈ ids, ∃ row ∈ h.session.tables.rules, (row.id : Int) = id)
    (hlimit : h.session.tables.rules.length ≤ pfMaxRules) (hquery : h.queryFault = none)
    (hok : (h.ruleReorder params).1 = .ok) :
    ((h.ruleReorder params).2.ruleset.map fun r => (r.id : Int)).filter (· ∈ ids) = ids ∧
      ∀ r : Rule, (r.id : Int) ∉ ids → (r ∈ (h.ruleReorder params).2.ruleset ↔
        ∃ row ∈ h.session.tables.rules, rowToRule row = r) := by
  obtain ⟨rows, hperm, hsorted, hruleset⟩ :=
    ruleReorder_reloads hids hdistinct hlimit hquery hok
  have hkeys : (rows.map fun row => (row.id : Int)).Perm
      (h.session.tables.rules.map fun row => (row.id : Int)) := by
    refine (hperm.map _).trans (.of_eq ?_)
    rw [List.map_map]
    exact List.map_congr_left fun row _ => congrArg Int.ofNat (moved_id ids 0 row)
  rw [hruleset]
  constructor
  · rw [List.map_map]
    apply filter_listed_eq hdistinct ?_ ?_ hsorted ?_
    · have hunique := h.session.store.sound.rules.nodup.map Int.ofNat_injective
      rw [List.map_map] at hunique
      exact hkeys.nodup_iff.mpr hunique
    · intro id hid
      obtain ⟨row, hrow, rfl⟩ := hexist id hid
      exact hkeys.mem_iff.mpr (List.mem_map_of_mem hrow)
    · intro row hrow hlisted
      obtain ⟨old, -, rfl⟩ := List.mem_map.mp (hperm.mem_iff.mp hrow)
      have hid : ((fun r : Rule => (r.id : Int)) ∘ rowToRule) (moved ids 0 old) = old.id :=
        congrArg Int.ofNat (moved_id ids 0 old)
      rw [hid] at hlisted ⊢
      rw [moved, if_pos hlisted, Nat.zero_add]
  · intro r hr
    rw [List.mem_map]
    constructor
    · rintro ⟨row, hrow, rfl⟩
      obtain ⟨old, hold, rfl⟩ := List.mem_map.mp (hperm.mem_iff.mp hrow)
      have hunlisted : (old.id : Int) ∉ ids := by
        rw [← moved_id ids 0 old]
        exact hr
      exact ⟨old, hold, by rw [moved_of_not_mem hunlisted]⟩
    · rintro ⟨row, hrow, rfl⟩
      have hkept : moved ids 0 row = row := moved_of_not_mem hr
      exact ⟨row, hperm.mem_iff.mpr (hkept ▸ List.mem_map_of_mem hrow), rfl⟩

/-- Three rules, of which two change places. -/
def threeRules : Host :=
  ((Host.step decimal .empty (RuleAtomicity.addRule "a")).bind fun h =>
    (Host.step decimal h (RuleAtomicity.addRule "b")).bind fun h =>
      Host.step decimal h (RuleAtomicity.addRule "c")).getD .empty

def swap : Option Json := some (.obj [(lit "ids", .arr [.num 3, .num 1])])

theorem three_rules_reordered :
    ((threeRules.ruleReorder swap).2.ruleset.map fun r => (r.id : Int)).filter (· ∈ [3, 1]) =
        [3, 1] ∧
      ∀ r : Rule, (r.id : Int) ∉ [3, 1] → (r ∈ (threeRules.ruleReorder swap).2.ruleset ↔
        ∃ row ∈ threeRules.session.tables.rules, rowToRule row = r) :=
  reorder_takes_effect threeRules (by decide +kernel) (by decide) (by decide +kernel)
    (by decide +kernel) rfl (by decide +kernel)

end Proxiflare.Guarantees.RuleOrder
