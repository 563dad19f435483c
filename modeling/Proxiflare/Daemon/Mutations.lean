import Proxiflare.Daemon.Cgroups
import Proxiflare.Daemon.Nft
import Proxiflare.Daemon.Reload
import Proxiflare.Daemon.Sessions

/-!
# Requests that change stored records

The branches of `pf_handle_request` for `rule.add`, `rule.edit`, `rule.delete`,
`rule.reorder`, `proxy.edit` and `chain.edit`, with every SQLite call free to fail and the rule cgroups and
the nft chain they change. Commands to the kernel are taken to succeed. Without a failing
call the handlers answer as those of `Requests` do.
-/

namespace Proxiflare.Daemon

open Lib.CString Lib

/-! ## Rule cgroups and the output chain -/

/-- The directories under `PF_CGROUP_BASE`, and the chain with the handle its next rule gets. -/
structure Kernel where
  cgroups : List Int
  chain : List NftRule
  nextHandle : Nat
  deriving DecidableEq

namespace Kernel

/-- `mkdir`, also when the directory exists. -/
def makeCgroup (k : Kernel) (id : Int) : Kernel :=
  if id ∈ k.cgroups then k else { k with cgroups := k.cgroups ++ [id] }

/-- The comments of the chain carry rowids, so a negative number is found in none of them. -/
def removeMark (printed : Nat → CStr) (k : Kernel) (id : Int) : Kernel :=
  if id < 0 then k else { k with chain := pfNftRemoveCgroupMark printed k.chain id.toNat }

/-- How `nft` prints the expression of a mark rule is a parameter. -/
def apply (printed : Nat → CStr) (k : Kernel) : KernelOp → Kernel
  | .cgroupCreateRule id => if rulePathOk id then k.makeCgroup id else k
  | .cgroupRemoveRule id =>
    if rulePathOk id then { k with cgroups := k.cgroups.filter (· ≠ id) } else k
  | .cgroupAssignRunningPids _ _ => k
  | .nftAddCgroupMark id =>
    { k.makeCgroup id with
      chain := pfNftAddCgroupMark k.chain k.nextHandle id.toNat
      nextHandle := k.nextHandle + 1 }
  | .nftRemoveCgroupMark id => k.removeMark printed id

end Kernel

/-! ## The daemon behind a request -/

/-- `queryFault` is what the next query of the rules table runs into. -/
structure Host where
  session : Session
  ruleset : Ruleset
  kernel : Kernel
  queryFault : Option QueryFault

abbrev Answer := Reply × Host

namespace Host

/-- On an empty database. -/
def empty : Host := ⟨⟨.empty, []⟩, [], ⟨[], [], 1⟩, none⟩

def refuse (h : Host) (message : String) : Answer := (.error (lit message), h)

/-- A function of `config.c`. -/
def config {α : Type} (h : Host) (m : Act Session α) : Option α × Host :=
  ((m h.session).1, { h with session := (m h.session).2 })

def kernelOps (printed : Nat → CStr) (h : Host) (ops : List KernelOp) : Host :=
  { h with kernel := ops.foldl (Kernel.apply printed) h.kernel }

/-- The return code is not looked at. -/
def rulesReloadLocked (h : Host) : Host :=
  { h with ruleset := (pfRulesLoad h.ruleset (queryRules h.session.db h.queryFault)).1 }

/-! ## Rules -/

/-- `pf_config_last_id` is the rowid the INSERT gave. -/
def ruleAdd (printed : Nat → CStr) (h : Host) : Option Json → Answer
  | none => h.refuse "missing params"
  | some params =>
    let r := ruleFromJson params
    match h.config (Session.pfConfigRuleAdd r) with
    | (none, h) => h.refuse "db error"
    | (some _, h) =>
      let newId := h.session.tables.ruleSeq
      let ops : List KernelOp :=
        if r.appPath.nonempty && r.action ≠ .direct then
          [.cgroupCreateRule newId, .nftAddCgroupMark newId,
            .cgroupAssignRunningPids newId r.appPath]
        else []
      (.ok, (h.kernelOps printed ops).rulesReloadLocked)

def loadRule (h : Host) (rid : Int) : Option Rule × Host :=
  if 0 < rid then h.config (Session.pfConfigRuleGet rid) else (none, h)

/-- The mark and the cgroup of an edited rule go, and come back where it still intercepts. -/
def editOps (r : Rule) : List KernelOp :=
  if intercepted r then
    [.nftRemoveCgroupMark r.id, .cgroupRemoveRule r.id, .cgroupCreateRule r.id,
      .nftAddCgroupMark r.id, .cgroupAssignRunningPids r.id r.appPath]
  else [.nftRemoveCgroupMark r.id, .cgroupRemoveRule r.id]

def ruleEdit (printed : Nat → CStr) (h : Host) : Option Json → Answer
  | none => h.refuse "missing params"
  | some params =>
    match h.loadRule params.idOf with
    | (none, h) => h.refuse "rule not found"
    | (some stored, h) =>
      let r := ruleOverlay params stored
      match h.config (Session.pfConfigRuleUpdate r) with
      | (none, h) => h.refuse "db error"
      | (some _, h) => (.ok, (h.kernelOps printed (editOps r)).rulesReloadLocked)

/-- The cgroup and the mark go before the row. -/
def ruleDelete (printed : Nat → CStr) (h : Host) (params : Option Json) : Answer :=
  match params.bind (Json.getObjectItem · (lit "id")) with
  | none => h.refuse "missing id"
  | some v =>
    let id := toInt32 v.valuedouble
    let h := h.kernelOps printed [.cgroupRemoveRule id, .nftRemoveCgroupMark id]
    match h.config (Session.pfConfigRuleDelete id) with
    | (none, h) => h.refuse "db error"
    | (some _, h) => (.ok, h.rulesReloadLocked)

/-- One UPDATE an id, also after one that failed; whether all were executed. -/
def setPriorities (ri : Nat) : List Int → Session → Bool × Session
  | [], s => (true, s)
  | id :: ids, s =>
    let (done, s) := Session.statement (.setPriority ri id) s
    let (rest, s) := setPriorities (ri + 1) ids s
    (done.isSome && rest, s)

/-- `params.ids`, if it is an array. -/
def reorderIds (params : Option Json) : Option (List Int) :=
  match params.bind (Json.getObjectItem · (lit "ids")) with
  | some (.arr items) => some (items.map fun v => toInt32 v.valuedouble)
  | _ => none

def ruleReorder (h : Host) (params : Option Json) : Answer :=
  match reorderIds params with
  | none => h.refuse "missing ids array"
  | some ids =>
    let (ok, session) := setPriorities 0 ids h.session
    let h := { h with session := session }
    if ok then (.ok, h.rulesReloadLocked) else h.refuse "db error"

/-! ## Proxies and chains -/

def loadProxy (h : Host) (pid : Int) : Option Proxy × Host :=
  if 0 < pid then h.config (Session.pfConfigProxyGet pid) else (none, h)

/-- The rules that follow the proxy, when its flag has changed. -/
def syncOps (h : Host) (stored p : Proxy) : List KernelOp :=
  if stored.enabled ≠ p.enabled then
    ((pfConfigRuleListOf (queryRules h.session.db h.queryFault) pfMaxRules).1.filter
      (followsProxy p.id)).flatMap (syncRule (p.enabled ≠ 0))
  else []

def proxyEdit (printed : Nat → CStr) (h : Host) : Option Json → Answer
  | none => h.refuse "missing params"
  | some params =>
    match h.loadProxy params.idOf with
    | (none, h) => h.refuse "proxy not found"
    | (some stored, h) =>
      let p := proxyOverlay params stored
      match h.config (Session.pfConfigProxyUpdate p) with
      | (none, h) => h.refuse "db error"
      | (some _, h) => (.ok, h.kernelOps printed (h.syncOps stored p))

/-- Items past `PF_MAX_HOPS` are dropped; anything but an array gives no hop. -/
def hopsFromJson : Option Json → List Nat
  | some (.arr items) => (items.take pfMaxHops).map fun v => toUInt32 v.valuedouble
  | _ => []

theorem hopsFromJson_fits (v : Option Json) : (hopsFromJson v).length ≤ pfMaxHops := by
  unfold hopsFromJson
  split
  · rw [List.length_map]
    exact List.length_take_le _ _
  · exact Nat.zero_le _

def chainFromJson (params : Json) : Chain where
  id := overlay (params.getObjectItem (lit "id")) (fun v => toUInt32 v.valuedouble) 0
  name := overlay (params.getObjectItem (lit "name"))
    (fun v => .snprintf (v.valuestring.getD (lit "(null)"))) .empty
  hops := hopsFromJson (params.getEither (lit "hop_proxy_ids") (lit "hops"))
  hopsFit := hopsFromJson_fits _
  enabled := overlay (params.getObjectItem (lit "enabled")) flag 1

/-- The stored chain is not looked at. -/
def chainEdit (h : Host) : Option Json → Answer
  | none => h.refuse "missing params"
  | some params =>
    match h.config (Session.pfConfigChainUpdate (chainFromJson params)) with
    | (none, h) => h.refuse "db error"
    | (some _, h) => (.ok, h)

end Host

inductive Mutation where
  | ruleAdd (params : Option Json)
  | ruleEdit (params : Option Json)
  | ruleDelete (params : Option Json)
  | ruleReorder (params : Option Json)
  | proxyEdit (params : Option Json)
  | chainEdit (params : Option Json)

/-- A request, and what SQLite fails while it is handled. -/
structure Call where
  mutation : Mutation
  fails : List Bool
  queryFault : Option QueryFault

namespace Host

def answer (printed : Nat → CStr) (h : Host) : Mutation → Answer
  | .ruleAdd params => h.ruleAdd printed params
  | .ruleEdit params => h.ruleEdit printed params
  | .ruleDelete params => h.ruleDelete printed params
  | .ruleReorder params => h.ruleReorder params
  | .proxyEdit params => h.proxyEdit printed params
  | .chainEdit params => h.chainEdit params

/-- The host as the call finds it. -/
def facing (h : Host) (c : Call) : Host :=
  { h with session := { h.session with fails := c.fails }, queryFault := c.queryFault }

def step (printed : Nat → CStr) (h : Host) (c : Call) : Option Host :=
  some ((h.facing c).answer printed c.mutation).2

/-! ## Without a failing call -/

/-- No call fails from here on. -/
structure Quiet (h : Host) : Prop where
  fails : h.session.fails = []
  query : h.queryFault = none

def state (h : Host) : State := ⟨h.session.db, h.ruleset⟩

/-- The request was answered, and the state and the kernel changed, as the outcome says. -/
structure Answers (printed : Nat → CStr) (h : Host) (a : Answer) (o : Outcome) : Prop where
  reply : a.1 = o.reply
  state : a.2.state = o.state
  kernel : a.2.kernel = o.ops.foldl (Kernel.apply printed) h.kernel

variable {h : Host} {printed : Nat → CStr}

namespace Quiet

theorem called (q : h.Quiet) : h.session.called = h.session := by
  obtain ⟨⟨store, fails⟩, ruleset, kernel, fault⟩ := h
  obtain rfl : fails = [] := q.fails
  rfl

theorem failsNow (q : h.Quiet) : h.session.failsNow = false := by
  rw [Session.failsNow, q.fails]
  rfl

theorem select {α : Type} (q : h.Quiet) (query : Db → Option α) :
    h.config (Session.select query) = (query h.session.db, h) := by
  unfold config Session.select
  rw [q.called, if_neg (by rw [q.failsNow]; exact Bool.false_ne_true)]

theorem refused (q : h.Quiet) {stmt : Statement} (hexec : h.session.store.exec stmt = none) :
    h.config (Session.statement stmt) = (none, h) := by
  unfold config Session.statement
  rw [q.called, if_neg (by rw [q.failsNow]; exact Bool.false_ne_true), hexec]

theorem executed (q : h.Quiet) {stmt : Statement} {st : Store}
    (hexec : h.session.store.exec stmt = some st) :
    h.config (Session.statement stmt) =
      (some ⟨⟩, { h with session := { h.session with store := st } }) := by
  unfold config Session.statement
  rw [q.called, if_neg (by rw [q.failsNow]; exact Bool.false_ne_true), hexec]

theorem reload (q : h.Quiet) :
    h.rulesReloadLocked.state = Daemon.rulesReloadLocked h.state := by
  obtain ⟨session, ruleset, kernel, fault⟩ := h
  obtain rfl : fault = none := q.query
  unfold rulesReloadLocked state
  rw [pfRulesLoad_ok]
  rfl

end Quiet

/-- On a row that is there, the statement is the update of `Config`. -/
theorem updateRule_exec (st : Store) {r : Rule} {id : Int}
    (hget : (pfConfigRuleGet st.tables.db id).isSome = true) (hid : (r.id : Int) = id) :
    (st.exec (.updateRule r)).map (Tables.db ∘ Store.tables) =
      pfConfigRuleUpdate st.tables.db r := by
  obtain ⟨stored, hstored⟩ := Option.isSome_iff_exists.mp hget
  obtain ⟨row, hrow, rfl, hrowId⟩ := pfConfigRuleGet_some hstored
  have hany : (st.tables.rules.any fun row => row.id = r.id) = true := by
    rw [List.any_eq_true]
    refine ⟨row, hrow, decide_eq_true ?_⟩
    have heq : (row.id : Int) = r.id := hrowId.trans hid.symm
    exact_mod_cast heq
  rw [← Option.map_map, Store.map_tables_exec]
  unfold pfConfigRuleUpdate
  simp only [Statement.exec, hany, Bool.true_and]
  cases ruleRefsOk st.tables.db (ruleToRow r.id r) <;> rfl

theorem updateProxy_exec (st : Store) {p : Proxy} {id : Int}
    (hget : (pfConfigProxyGet st.tables.db id).isSome = true) (hid : (p.id : Int) = id) :
    (st.exec (.updateProxy p)).map (Tables.db ∘ Store.tables) =
      pfConfigProxyUpdate st.tables.db p := by
  obtain ⟨row, hrow⟩ := Option.isSome_iff_exists.mp ((Option.isSome_map).symm.trans hget)
  have hrowId : (row.id : Int) = id := by simpa using List.find?_some hrow
  have hany : st.tables.hasProxy p.id = true := by
    rw [Tables.hasProxy, List.any_eq_true]
    refine ⟨row, List.mem_of_find?_eq_some hrow, decide_eq_true ?_⟩
    have heq : (row.id : Int) = p.id := hrowId.trans hid.symm
    exact_mod_cast heq
  have hname : (!st.tables.proxyNameFree p.id p.name.chars) =
      st.tables.db.proxies.any fun r => r.id ≠ p.id && r.name = p.name.chars := by
    rw [Tables.proxyNameFree, List.not_all_eq_any_not]
    simp [Tables.db]
  rw [← Option.map_map, Store.map_tables_exec]
  unfold pfConfigProxyUpdate
  simp only [Statement.exec, hany, Bool.true_and, hname]
  split <;> rfl

theorem insertRule_exec (st : Store) (r : Rule) :
    (st.exec (.insertRule r)).map (fun st' => (st'.tables.db, st'.tables.ruleSeq)) =
      pfConfigRuleAdd st.tables.db r := by
  rw [← Function.comp_def (fun t : Tables => (t.db, t.ruleSeq)) Store.tables, ← Option.map_map,
    Store.map_tables_exec]
  unfold pfConfigRuleAdd
  simp only [Statement.exec]
  by_cases hrefs : ruleRefsOk st.tables.db (ruleToRow (st.tables.ruleSeq + 1) r) = true
  · rw [if_pos hrefs]
    exact (if_pos hrefs).symm
  · rw [if_neg hrefs]
    exact (if_neg hrefs).symm

theorem ruleAdd_answers (q : h.Quiet) (params : Option Json) :
    Answers printed h (h.ruleAdd printed params) (Daemon.ruleAdd h.state params) := by
  cases params with
  | none => exact ⟨rfl, rfl, rfl⟩
  | some p =>
    have hinsert := insertRule_exec h.session.store (ruleFromJson p)
    unfold ruleAdd Daemon.ruleAdd
    cases hexec : h.session.store.exec (.insertRule (ruleFromJson p)) with
    | none =>
      rw [hexec] at hinsert
      simp only [Session.pfConfigRuleAdd, q.refused hexec,
        show pfConfigRuleAdd h.state.db _ = none from hinsert.symm]
      exact ⟨rfl, rfl, rfl⟩
    | some st =>
      rw [hexec] at hinsert
      simp only [Session.pfConfigRuleAdd, q.executed hexec,
        show pfConfigRuleAdd h.state.db _ = some _ from hinsert.symm]
      refine ⟨rfl, ?_, rfl⟩
      refine (Quiet.reload ?_).trans ?_
      · exact ⟨q.fails, q.query⟩
      · rfl

theorem ruleEdit_answers (q : h.Quiet) (params : Option Json) :
    Answers printed h (h.ruleEdit printed params) (Daemon.ruleEdit h.state params) := by
  cases params with
  | none => exact ⟨rfl, rfl, rfl⟩
  | some p =>
    have hload : h.loadRule p.idOf = (Daemon.loadRule h.state.db p.idOf, h) := by
      unfold loadRule Daemon.loadRule
      split
      · exact q.select _
      · rfl
    unfold ruleEdit Daemon.ruleEdit
    simp only [hload]
    cases hstored : Daemon.loadRule h.state.db p.idOf with
    | none => exact ⟨rfl, rfl, rfl⟩
    | some stored =>
      have hget := (Option.ite_none_right_eq_some.mp hstored).2
      obtain ⟨-, -, -, hid⟩ := pfConfigRuleGet_some hget
      have hupdate := updateRule_exec h.session.store (Option.isSome_of_eq_some hget)
        (show ((ruleOverlay p stored).id : Int) = p.idOf from hid)
      cases hexec : h.session.store.exec (.updateRule (ruleOverlay p stored)) with
      | none =>
        rw [hexec] at hupdate
        simp only [Session.pfConfigRuleUpdate, q.refused hexec,
          show pfConfigRuleUpdate h.state.db _ = none from hupdate.symm]
        exact ⟨rfl, rfl, rfl⟩
      | some st =>
        rw [hexec] at hupdate
        simp only [Session.pfConfigRuleUpdate, q.executed hexec,
          show pfConfigRuleUpdate h.state.db _ = some _ from hupdate.symm]
        exact ⟨rfl, Quiet.reload ⟨q.fails, q.query⟩, rfl⟩

theorem ruleDelete_answers (q : h.Quiet) (params : Option Json) :
    Answers printed h (h.ruleDelete printed params) (Daemon.ruleDelete h.state params) := by
  unfold ruleDelete Daemon.ruleDelete
  cases hid : params.bind (Json.getObjectItem · (lit "id")) with
  | none => exact ⟨rfl, rfl, rfl⟩
  | some v =>
    have q' : (h.kernelOps printed [.cgroupRemoveRule (toInt32 v.valuedouble),
        .nftRemoveCgroupMark (toInt32 v.valuedouble)]).Quiet := ⟨q.fails, q.query⟩
    have htables := h.session.store.map_tables_exec (.deleteRule (toInt32 v.valuedouble))
    obtain ⟨st, hexec, hst⟩ := Option.map_eq_some_iff.mp htables
    simp only [Session.pfConfigRuleDelete, q'.executed hexec]
    have hdb : st.tables.db = pfConfigRuleDelete h.state.db (toInt32 v.valuedouble) := by
      rw [hst]
      rfl
    rw [← hdb]
    refine ⟨rfl, ?_, rfl⟩
    refine (Quiet.reload ?_).trans ?_
    · exact ⟨q.fails, q.query⟩
    · rfl

theorem proxyEdit_answers (q : h.Quiet) (params : Option Json) :
    Answers printed h (h.proxyEdit printed params) (Daemon.proxyEdit h.state params) := by
  cases params with
  | none => exact ⟨rfl, rfl, rfl⟩
  | some p =>
    have hload : h.loadProxy p.idOf = (Daemon.loadProxy h.state.db p.idOf, h) := by
      unfold loadProxy Daemon.loadProxy
      split
      · exact q.select _
      · rfl
    unfold proxyEdit Daemon.proxyEdit
    simp only [hload]
    cases hstored : Daemon.loadProxy h.state.db p.idOf with
    | none => exact ⟨rfl, rfl, rfl⟩
    | some stored =>
      have hget := (Option.ite_none_right_eq_some.mp hstored).2
      obtain ⟨row, hrow, rfl⟩ := Option.map_eq_some_iff.mp hget
      have hid : (row.id : Int) = p.idOf := by simpa using List.find?_some hrow
      have hupdate := updateProxy_exec h.session.store (Option.isSome_of_eq_some hget)
        (show ((proxyOverlay p (rowToProxy row)).id : Int) = p.idOf from hid)
      cases hexec : h.session.store.exec (.updateProxy (proxyOverlay p (rowToProxy row))) with
      | none =>
        rw [hexec] at hupdate
        simp only [Session.pfConfigProxyUpdate, q.refused hexec,
          show pfConfigProxyUpdate h.state.db _ = none from hupdate.symm]
        exact ⟨rfl, rfl, rfl⟩
      | some st =>
        rw [hexec] at hupdate
        simp only [Session.pfConfigProxyUpdate, q.executed hexec,
          show pfConfigProxyUpdate h.state.db _ = some _ from hupdate.symm]
        refine ⟨rfl, rfl, ?_⟩
        have hlist : (pfConfigRuleListOf (queryRules st.tables.db h.queryFault) pfMaxRules).1 =
            pfConfigRuleList st.tables.db pfMaxRules := by
          rw [q.query]
          exact congrArg Prod.fst (pfRulesLoad_ok [] st.tables.db)
        have hops : ∀ stored p, syncOps { h with session := { h.session with store := st } } stored p =
            if stored.enabled ≠ p.enabled then
              ((pfConfigRuleList st.tables.db pfMaxRules).filter (followsProxy p.id)).flatMap
                (syncRule (p.enabled ≠ 0))
            else [] := by
          intro stored p
          rw [← hlist]
          rfl
        exact congrArg (List.foldl _ h.kernel) (hops _ _)

end Host

end Proxiflare.Daemon
