import Proxiflare.Daemon.Mutations
import Proxiflare.Guarantees.MarkRemoval

/-!
# When a failed rule request leaves everything alone

`rule.edit` writes the row before it touches anything else. `rule.delete` gives up the
cgroup and the mark first, and `rule.reorder` writes row by row: an error leaves the
rules as they were exactly when there was nothing to give up, or nothing to change in
the rows that were written.
-/

namespace Proxiflare.Guarantees.RuleAtomicity

open Lib.CString Lib Lib.Runs
open Proxiflare.Daemon
open MarkRemoval (Installed matched)

/-- Rules table, ruleset, cgroups and marks of `h` are those of `h'`. -/
structure Kept (h h' : Host) : Prop where
  rules : h'.session.tables.rules = h.session.tables.rules
  ruleset : h'.ruleset = h.ruleset
  cgroups : h'.kernel.cgroups = h.kernel.cgroups
  chain : h'.kernel.chain = h.kernel.chain

/-- An error reply means that nothing has changed. -/
def Atomic (h : Host) (a : Answer) : Prop := a.1 ≠ .ok → Kept h a.2

/-! ## The conditions -/

/-- No cgroup is there to be removed. -/
def NoCgroup (k : Kernel) (id : Int) : Prop := rulePathOk id = true → id ∉ k.cgroups

/-- The search for the comment of the rule finds no handle of the chain. -/
def NoMark (printed : Nat → CStr) (k : Kernel) (id : Int) : Prop :=
  0 ≤ id → ∀ r ∈ k.chain,
    (r.handle : Int) ∉ nftDeleteByComment (k.chain.map (listLine printed)) (cgroupComment id.toNat)

/-- The DELETE is executed, or the rule has neither cgroup nor mark. -/
def DeleteHarmless (printed : Nat → CStr) (h : Host) (params : Option Json) : Prop :=
  ∀ v ∈ params.bind (Json.getObjectItem · (lit "id")), h.session.failsNow = false ∨
    NoCgroup h.kernel (toInt32 v.valuedouble) ∧ NoMark printed h.kernel (toInt32 v.valuedouble)

/-- Every UPDATE is executed, or each that is finds the row already at its place. -/
def ReorderHarmless (h : Host) (ids : List Int) : Prop :=
  (∀ k < ids.length, h.session.failsAt k = false) ∨
    ∀ k id, ids[k]? = some id → h.session.failsAt k = false →
      ∀ row ∈ h.session.tables.rules, (row.id : Int) = id → row.priority = k

variable {h h' : Host} {printed : Nat → CStr}

theorem kept_of_store (hstore : h'.session.store = h.session.store) (hruleset : h'.ruleset = h.ruleset)
    (hkernel : h'.kernel = h.kernel) : Kept h h' := by
  refine ⟨?_, hruleset, by rw [hkernel], by rw [hkernel]⟩
  unfold Session.tables
  rw [hstore]

/-! ## rule.add and rule.edit -/

theorem loadRule_host (h : Host) (rid : Int) : Kept h (h.loadRule rid).2 := by
  unfold Host.loadRule
  split
  · exact kept_of_store rfl rfl rfl
  · exact kept_of_store rfl rfl rfl

theorem Kept.trans {h₁ h₂ h₃ : Host} (h : Kept h₁ h₂) (h' : Kept h₂ h₃) : Kept h₁ h₃ :=
  ⟨h'.rules.trans h.rules, h'.ruleset.trans h.ruleset, h'.cgroups.trans h.cgroups,
    h'.chain.trans h.chain⟩

theorem config_refused {stmt : Statement} (hnone : (h.config (Session.statement stmt)).1 = none) :
    Kept h (h.config (Session.statement stmt)).2 := by
  have hkept := (Session.statement_fails (Prod.ext hnone rfl)).1
  have hstore : (Session.statement stmt h.session).2.store = h.session.called.store :=
    congrArg Session.store hkept
  exact kept_of_store hstore rfl rfl

theorem ruleAdd_atomic (h : Host) (params : Option Json) :
    Atomic h (h.ruleAdd printed params) := by
  intro herror
  cases params with
  | none => exact kept_of_store rfl rfl rfl
  | some p =>
    unfold Host.ruleAdd at herror ⊢
    cases hinsert : h.config (Session.pfConfigRuleAdd (ruleFromJson p)) with
    | mk r h₁ =>
      simp only [hinsert] at herror ⊢
      cases r with
      | none =>
        have hrefused := config_refused (congrArg Prod.fst hinsert)
        rwa [show h.config (Session.statement _) = _ from hinsert] at hrefused
      | some _ => exact absurd rfl herror

theorem ruleEdit_atomic (h : Host) (params : Option Json) :
    Atomic h (h.ruleEdit printed params) := by
  intro herror
  cases params with
  | none => exact kept_of_store rfl rfl rfl
  | some p =>
    have hload := loadRule_host h p.idOf
    unfold Host.ruleEdit at herror ⊢
    cases hl : h.loadRule p.idOf with
    | mk r h₁ =>
      rw [hl] at hload
      simp only [hl] at herror ⊢
      cases r with
      | none => exact hload
      | some stored =>
        cases hu : h₁.config (Session.pfConfigRuleUpdate (ruleOverlay p stored)) with
        | mk r h₂ =>
          simp only [hu] at herror ⊢
          cases r with
          | none =>
            have hrefused := config_refused (congrArg Prod.fst hu)
            rw [show h₁.config (Session.statement _) = _ from hu] at hrefused
            exact hload.trans hrefused
          | some _ => exact absurd rfl herror

/-! ## rule.delete -/

theorem filter_ne_eq_self_iff {ids : List Int} {id : Int} :
    ids.filter (· ≠ id) = ids ↔ id ∉ ids := by
  rw [List.filter_eq_self]
  constructor
  · intro h hmem
    exact absurd rfl (of_decide_eq_true (h id hmem))
  · intro h x hx
    exact decide_eq_true fun heq => h (heq ▸ hx)

theorem removeRule_cgroups (printed : Nat → CStr) (k : Kernel) (id : Int) :
    (k.apply printed (.cgroupRemoveRule id)).cgroups = k.cgroups ↔ NoCgroup k id := by
  simp only [Kernel.apply, NoCgroup]
  cases rulePathOk id with
  | false => exact iff_of_true rfl nofun
  | true => exact filter_ne_eq_self_iff.trans ⟨fun h _ => h, fun h => h rfl⟩

theorem removeMark_chain (k : Kernel) (id : Int) :
    (k.removeMark printed id).chain = k.chain ↔ NoMark printed k id := by
  unfold Kernel.removeMark NoMark
  split
  · next hneg => exact iff_of_true rfl fun h => absurd hneg (Int.not_lt.mpr h)
  · next hpos =>
    rw [forall_prop_of_true (Int.not_lt.mp hpos)]
    show List.filter _ _ = _ ↔ _
    rw [List.filter_eq_self]
    exact forall₂_congr fun r _ => decide_eq_true_iff

/-- Among the rules `nft` lists, the search finds the marks whose number begins with the rule's. -/
theorem noMark_iff {k : Kernel} (hp : PrintsPlainly printed) (hin : Installed k.chain) (id : Nat) :
    NoMark printed k id ↔ matched k.chain id = [] := by
  unfold NoMark
  rw [forall_prop_of_true (Int.natCast_nonneg id), Int.toNat_natCast]
  have hmem : ∀ r ∈ k.chain, (r.handle : Int) ∉
      nftDeleteByComment (k.chain.map (listLine printed)) (cgroupComment id) ↔
        r ∉ (matched k.chain id).take maxHandles := by
    intro r hr
    rw [← MarkRemoval.mem_remove_iff hp hin hr, pfNftRemoveCgroupMark, List.mem_filter]
    simp [hr]
  constructor
  · intro h
    rw [List.eq_nil_iff_forall_not_mem]
    intro r hr
    cases hlist : matched k.chain id with
    | nil =>
      rw [hlist] at hr
      cases hr
    | cons r' rest =>
      -- the first match is always collected
      have hfirst : r' ∈ matched k.chain id := by
        rw [hlist]
        exact List.mem_cons_self ..
      have hr' := (MarkRemoval.mem_matched.mp hfirst).1
      apply (hmem r' hr').mp (h r' hr')
      rw [hlist]
      exact List.mem_cons_self ..
  · intro h r hr
    rw [hmem r hr, h]
    exact List.not_mem_nil

/-- The kernel once the cgroup and the mark have been given up. -/
theorem givenUp_iff (k : Kernel) (id : Int) :
    (((k.apply printed (.cgroupRemoveRule id)).apply printed (.nftRemoveCgroupMark id)).cgroups =
        k.cgroups ∧
      ((k.apply printed (.cgroupRemoveRule id)).apply printed (.nftRemoveCgroupMark id)).chain =
        k.chain) ↔ NoCgroup k id ∧ NoMark printed k id := by
  have hchain : (k.apply printed (.cgroupRemoveRule id)).chain = k.chain := by
    simp only [Kernel.apply]
    split <;> rfl
  have hcgroups : ((k.apply printed (.cgroupRemoveRule id)).removeMark printed id).cgroups =
      (k.apply printed (.cgroupRemoveRule id)).cgroups := by
    unfold Kernel.removeMark
    split <;> rfl
  have hsame : ((k.apply printed (.cgroupRemoveRule id)).removeMark printed id).chain =
      (k.removeMark printed id).chain := by
    unfold Kernel.removeMark
    split
    · exact hchain
    · exact congrArg (pfNftRemoveCgroupMark printed · id.toNat) hchain
  show (Kernel.removeMark printed _ id).cgroups = _ ∧ (Kernel.removeMark printed _ id).chain = _ ↔ _
  rw [hcgroups, hsame, removeRule_cgroups, removeMark_chain]

/-- A statement no constraint stands against. -/
theorem config_free (h : Host) {stmt : Statement} {st : Store}
    (hexec : h.session.store.exec stmt = some st) :
    h.config (Session.statement stmt) =
      if h.session.failsNow then (none, { h with session := h.session.called })
      else (some ⟨⟩, { h with session := { h.session.called with store := st } }) := by
  unfold Host.config Session.statement
  rw [hexec]
  split <;> rfl

theorem ruleDelete_atomic_iff (h : Host) (params : Option Json) :
    Atomic h (h.ruleDelete printed params) ↔ DeleteHarmless printed h params := by
  unfold DeleteHarmless Host.ruleDelete
  cases hid : params.bind (Json.getObjectItem · (lit "id")) with
  | none => exact iff_of_true (fun _ => kept_of_store rfl rfl rfl) nofun
  | some v =>
    simp only [Option.mem_some, forall_eq']
    have htables := h.session.store.map_tables_exec (.deleteRule (toInt32 v.valuedouble))
    obtain ⟨st, hexec, -⟩ := Option.map_eq_some_iff.mp htables
    have hrun := config_free (h.kernelOps printed [.cgroupRemoveRule (toInt32 v.valuedouble),
      .nftRemoveCgroupMark (toInt32 v.valuedouble)]) hexec
    rw [show (Host.kernelOps printed h _).session = h.session from rfl] at hrun
    cases hfail : h.session.failsNow with
    | false =>
      rw [hfail, if_neg Bool.false_ne_true] at hrun
      simp only [Session.pfConfigRuleDelete, hrun]
      exact iff_of_true (fun herror => absurd rfl herror) (.inl trivial)
    | true =>
      rw [hfail, if_pos rfl] at hrun
      simp only [Session.pfConfigRuleDelete, hrun]
      rw [or_iff_right (by simp), ← givenUp_iff]
      refine ⟨fun hatomic => ?_, fun hsame _ => ⟨rfl, rfl, hsame.1, hsame.2⟩⟩
      have hkept := hatomic Reply.noConfusion
      exact ⟨hkept.cgroups, hkept.chain⟩

/-! ## rule.reorder -/

/-- What the UPDATEs that are executed make of a row. -/
def placed (ri : Nat) : List Int → List Bool → RuleRow → RuleRow
  | [], _, row => row
  | id :: ids, fails, row =>
    placed (ri + 1) ids fails.tail
      (if fails.headD false = false ∧ (row.id : Int) = id then { row with priority := ri } else row)

/-- One UPDATE, executed or not. -/
theorem setPriority_called (ri : Nat) (id : Int) (s : Session) :
    (Session.statement (.setPriority ri id) s).1.isSome = !s.failsNow ∧
      (Session.statement (.setPriority ri id) s).2.fails = s.fails.tail ∧
      (Session.statement (.setPriority ri id) s).2.tables.rules = s.tables.rules.map fun row =>
        if s.failsNow = false ∧ (row.id : Int) = id then { row with priority := ri } else row := by
  cases hstmt : Session.statement (.setPriority ri id) s with
  | mk r s₁ =>
    cases r with
    | none =>
      obtain ⟨rfl, hcause⟩ := Session.statement_fails hstmt
      have hfail := hcause.resolve_right nofun
      rw [hfail]
      exact ⟨rfl, rfl, (map_eq_self_iff.mpr fun row _ => if_neg fun h => nomatch h.1).symm⟩
    | some x =>
      obtain ⟨hpass, hexec, hfails⟩ := Session.statement_gives_iff.mp hstmt
      rw [hpass]
      refine ⟨rfl, hfails, ?_⟩
      rw [← Option.some.inj hexec]
      simp only [true_and]

theorem setPriorities_spec (ri : Nat) (ids : List Int) (s : Session) :
    (Host.setPriorities ri ids s).2.tables.rules =
        s.tables.rules.map (placed ri ids s.fails) ∧
      ((Host.setPriorities ri ids s).1 = true ↔ ∀ k < ids.length, s.failsAt k = false) := by
  induction ids generalizing ri s with
  | nil => exact ⟨(List.map_id _).symm, iff_of_true rfl nofun⟩
  | cons id ids ih =>
    obtain ⟨hdone, hfails, hrow⟩ := setPriority_called ri id s
    obtain ⟨hrules, hall⟩ := ih (ri + 1) (Session.statement (.setPriority ri id) s).2
    rw [hrow, hfails, List.map_map] at hrules
    refine ⟨hrules, ?_⟩
    have hboth : (Host.setPriorities ri (id :: ids) s).1 = true ↔
        (!s.failsNow) = true ∧
          (Host.setPriorities (ri + 1) ids (Session.statement (.setPriority ri id) s).2).1 = true := by
      rw [← hdone, ← Bool.and_eq_true]
      rfl
    unfold Session.failsAt at hall ⊢
    rw [hboth, hall, hfails, List.length_cons, Session.forall_getD_succ, Bool.not_eq_true']
    rfl

/-! ### The rows an UPDATE changed -/

/-- A row no UPDATE names. -/
theorem placed_of_not_mem {ri : Nat} {ids : List Int} {fails : List Bool} {row : RuleRow}
    (h : (row.id : Int) ∉ ids) : placed ri ids fails row = row := by
  induction ids generalizing ri fails with
  | nil => rfl
  | cons id ids ih =>
    rw [List.mem_cons, not_or] at h
    rw [placed, if_neg fun hc => h.1 hc.2]
    exact ih h.2

/-- With distinct ids a row is written once, so it is unchanged when it was at its place. -/
theorem placed_eq_self_iff {ri : Nat} {ids : List Int} {fails : List Bool} {row : RuleRow}
    (hdistinct : ids.Nodup) :
    placed ri ids fails row = row ↔
      ∀ k id, ids[k]? = some id → fails.getD k false = false → (row.id : Int) = id →
        row.priority = (ri + k : Nat) := by
  induction ids generalizing ri fails with
  | nil => exact iff_of_true rfl fun k id h => nomatch h
  | cons id ids ih =>
    obtain ⟨hnew, hrest⟩ := List.nodup_cons.mp hdistinct
    have hsplit : (∀ k i, (id :: ids)[k]? = some i → fails.getD k false = false →
        (row.id : Int) = i → row.priority = (ri + k : Nat)) ↔
          (fails.headD false = false → (row.id : Int) = id → row.priority = ri) ∧
            ∀ k i, ids[k]? = some i → fails.tail.getD k false = false → (row.id : Int) = i →
              row.priority = (ri + 1 + k : Nat) := by
      constructor
      · intro h
        refine ⟨fun hpass => h 0 id rfl (by cases fails <;> exact hpass), fun k i hi hpass hid => ?_⟩
        have hk := h (k + 1) i hi ((Session.getD_tail fails k).symm.trans hpass) hid
        rwa [Nat.add_assoc, Nat.add_comm 1 k]
      · intro h k i hi hpass hid
        cases k with
        | zero =>
          obtain rfl := Option.some.inj hi
          exact h.1 (by cases fails <;> exact hpass) hid
        | succ k =>
          have hk := h.2 k i hi ((Session.getD_tail fails k).trans hpass) hid
          rwa [Nat.add_assoc, Nat.add_comm 1 k] at hk
    rw [hsplit, placed]
    by_cases hwritten : fails.headD false = false ∧ (row.id : Int) = id
    · rw [if_pos hwritten, placed_of_not_mem (by rwa [← hwritten.2] at hnew)]
      have hother : ∀ k i, ids[k]? = some i → fails.tail.getD k false = false → (row.id : Int) = i →
          row.priority = (ri + 1 + k : Nat) := by
        intro k i hi _ hid
        rw [← hwritten.2, hid] at hnew
        exact absurd (List.mem_of_getElem? hi) hnew
      rw [and_iff_left hother]
      constructor
      · intro heq _ _
        exact (congrArg RuleRow.priority heq).symm
      · intro h
        obtain ⟨hpass, hid⟩ := hwritten
        rw [← h hpass hid]
    · rw [if_neg hwritten, ih hrest, and_iff_right fun hpass hid => absurd ⟨hpass, hid⟩ hwritten]

theorem ruleReorder_atomic_iff (h : Host) {params : Option Json} {ids : List Int}
    (hids : Host.reorderIds params = some ids) (hdistinct : ids.Nodup) :
    Atomic h (h.ruleReorder params) ↔ ReorderHarmless h ids := by
  obtain ⟨hrules, hall⟩ := setPriorities_spec 0 ids h.session
  unfold Host.ruleReorder ReorderHarmless
  rw [hids]
  have hidle : (Host.setPriorities 0 ids h.session).2.tables.rules = h.session.tables.rules ↔
      ∀ k id, ids[k]? = some id → h.session.failsAt k = false →
        ∀ row ∈ h.session.tables.rules, (row.id : Int) = id → row.priority = k := by
    rw [hrules, map_eq_self_iff]
    simp only [placed_eq_self_iff hdistinct, Nat.zero_add]
    exact ⟨fun h k id hk hpass row hrow => h row hrow k id hk hpass,
      fun h row hrow k id hk hpass => h k id hk hpass row hrow⟩
  rw [← hall, ← hidle]
  simp only
  split
  · next hok => exact iff_of_true (fun herror => absurd rfl herror) (.inl hok)
  · next hok =>
    rw [or_iff_right hok]
    exact ⟨fun hatomic => (hatomic nofun).rules, fun hsame _ => ⟨hsame, rfl, rfl, rfl⟩⟩

/-! ## Along a run -/

/-- The rule request is answered without an error, or changes nothing; a reordering names distinct
ids. -/
def AtomicCall (printed : Nat → CStr) (h : Host) (c : Call) (_ : Host) : Prop :=
  match c.mutation with
  | .ruleAdd params => Atomic (h.facing c) ((h.facing c).ruleAdd printed params)
  | .ruleEdit params => Atomic (h.facing c) ((h.facing c).ruleEdit printed params)
  | .ruleDelete params => Atomic (h.facing c) ((h.facing c).ruleDelete printed params)
  | .ruleReorder params => (∀ ids ∈ Host.reorderIds params, ids.Nodup) →
      Atomic (h.facing c) ((h.facing c).ruleReorder params)
  | .proxyEdit _ | .chainEdit _ => True

def HarmlessCall (printed : Nat → CStr) (h : Host) (c : Call) (_ : Host) : Prop :=
  match c.mutation with
  | .ruleDelete params => DeleteHarmless printed (h.facing c) params
  | .ruleReorder params =>
    ∀ ids ∈ Host.reorderIds params, ids.Nodup → ReorderHarmless (h.facing c) ids
  | .ruleAdd _ | .ruleEdit _ | .proxyEdit _ | .chainEdit _ => True

theorem atomicCall_iff (h h' : Host) (c : Call) :
    AtomicCall printed h c h' ↔ HarmlessCall printed h c h' := by
  obtain ⟨mutation, fails, fault⟩ := c
  cases mutation with
  | ruleAdd params => exact iff_of_true (ruleAdd_atomic _ params) trivial
  | ruleEdit params => exact iff_of_true (ruleEdit_atomic _ params) trivial
  | ruleDelete params => exact ruleDelete_atomic_iff _ params
  | ruleReorder params =>
    simp only [AtomicCall, HarmlessCall]
    cases hids : Host.reorderIds params with
    | none =>
      refine iff_of_true (fun _ _ => ?_) nofun
      unfold Host.ruleReorder
      rw [hids]
      exact kept_of_store rfl rfl rfl
    | some ids =>
      simp only [Option.mem_some, forall_eq']
      exact imp_congr_right fun hdistinct => ruleReorder_atomic_iff _ hids hdistinct
  | proxyEdit _ => exact Iff.rfl
  | chainEdit _ => exact Iff.rfl

/-- From any state, through any requests and any failures. -/
theorem rule_mutations_atomic_iff (printed : Nat → CStr) (h : Host) (calls : List Call) :
    Along (Host.step printed) (AtomicCall printed) h calls ↔
      Along (Host.step printed) (HarmlessCall printed) h calls :=
  along_congr (fun _ => True) (fun _ _ _ _ _ => trivial)
    (fun s l s' _ _ => atomicCall_iff s s' l) trivial calls

/-! ## A delete and a reordering that fail halfway -/

def addRule (app : String) : Call :=
  ⟨.ruleAdd (some (.obj [(lit "match_app", .str (lit app)), (lit "action", .str (lit "BLOCK"))])),
    [], none⟩

/-- SQLite fails the DELETE. -/
def deleteFirst : Call := ⟨.ruleDelete (some (.obj [(lit "id", .num 1)])), [true], none⟩

/-- SQLite fails the first UPDATE and executes the second. -/
def reorderBoth : Call :=
  ⟨.ruleReorder (some (.obj [(lit "ids", .arr [.num 1, .num 2])])), [true], none⟩

/-- The cgroup is gone though the rule is still there; the second rule has moved. -/
theorem half_done :
    ¬ Along (Host.step decimal) (AtomicCall decimal) .empty [addRule "a", deleteFirst] ∧
      ¬ Along (Host.step decimal) (AtomicCall decimal) .empty
        [addRule "a", addRule "b", reorderBoth] := by
  refine ⟨fun h => ?_, fun h => ?_⟩
  · obtain ⟨-, hdelete⟩ := h _ rfl
    have hkept := ((hdelete _ rfl).1 (by decide)).cgroups
    exact absurd hkept (by decide)
  · obtain ⟨-, hrest⟩ := h _ rfl
    obtain ⟨-, hreorder⟩ := hrest _ rfl
    have hkept := ((hreorder _ rfl).1 (by decide) (by decide)).rules
    exact absurd hkept (by decide)

end Proxiflare.Guarantees.RuleAtomicity
