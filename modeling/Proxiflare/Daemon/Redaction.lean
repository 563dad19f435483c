import Proxiflare.Daemon.Handler
import Proxiflare.Lib.View

/-!
# The daemon without the credentials of its proxies

`redact` takes the user names and passwords out of the proxies table. Every statement
does the same on what is left, so a function of `config.c` cannot tell databases apart
that agree up to credentials unless it reads a proxy.
-/

namespace Proxiflare.Daemon

open Lib.CString Lib Lib.View

/-! ## Records and tables -/

def Proxy.redact (p : Proxy) : Proxy := { p with username := .empty, password := .empty }

def ProxyRow.redact (r : ProxyRow) : ProxyRow := { r with username := none, password := none }

def Tables.redact (t : Tables) : Tables := { t with proxies := t.proxies.map ProxyRow.redact }

def Db.redact (db : Db) : Db := { db with proxies := db.proxies.map ProxyRow.redact }

/-- The statement with the credentials it writes taken out. -/
def Statement.redact : Statement → Statement
  | .insertProxy p => .insertProxy p.redact
  | .updateProxy p => .updateProxy p.redact
  | stmt => stmt

theorem columnText_none {cap : Nat} [BufSize cap] : columnText none = (.empty : CBuf cap) := by
  have hchars : (columnText none : CBuf cap).chars = [] := List.take_nil
  unfold CBuf.empty
  rw [← CBuf.snprintf_chars (columnText none : CBuf cap)]
  simp only [CBuf.snprintf, hchars, cstr, List.takeWhile_nil, List.take_nil]

theorem bindText_empty {cap : Nat} [BufSize cap] : bindText (.empty : CBuf cap) = none := rfl

theorem rowToProxy_redact (r : ProxyRow) : rowToProxy r.redact = (rowToProxy r).redact := by
  simp only [rowToProxy, ProxyRow.redact, Proxy.redact, columnText_none]

theorem proxyToRow_redact (id : Nat) (p : Proxy) :
    proxyToRow id p.redact = (proxyToRow id p).redact := by
  simp only [proxyToRow, ProxyRow.redact, Proxy.redact, bindText_empty]

theorem ProxyRow.Written.redact {r : ProxyRow} (h : r.Written) : r.redact.Written := by
  unfold ProxyRow.Written at h ⊢
  rw [rowToProxy_redact, proxyToRow_redact]
  exact congrArg ProxyRow.redact h

@[simp] theorem ProxyRow.redact_id (r : ProxyRow) : r.redact.id = r.id := rfl

@[simp] theorem ProxyRow.redact_name (r : ProxyRow) : r.redact.name = r.name := rfl

theorem Tables.proxyNameFree_redact (t : Tables) (id : Nat) (name : CStr) :
    t.redact.proxyNameFree id name = t.proxyNameFree id name := by
  unfold proxyNameFree redact
  rw [List.all_map]
  rfl

theorem Tables.hasProxy_redact (t : Tables) (id : Nat) : t.redact.hasProxy id = t.hasProxy id := by
  unfold hasProxy redact
  rw [List.any_map]
  rfl

theorem ruleRefsOk_redact (db : Db) (r : RuleRow) : ruleRefsOk db.redact r = ruleRefsOk db r := by
  unfold ruleRefsOk Db.redact
  simp only [List.any_map]
  rfl

/-- Rows rewritten where a test holds that sees no credentials. -/
theorem map_redact_update (rows : List ProxyRow) (c : ProxyRow → Prop) [DecidablePred c]
    (f g : ProxyRow → ProxyRow) (hc : ∀ r, c r.redact ↔ c r) (hf : ∀ r, g r.redact = (f r).redact) :
    (rows.map ProxyRow.redact).map (fun r => if c r then g r else r) =
      (rows.map fun r => if c r then f r else r).map ProxyRow.redact := by
  rw [List.map_map, List.map_map]
  refine List.map_congr_left fun r _ => ?_
  show (if c r.redact then g r.redact else r.redact) = (if c r then f r else r).redact
  by_cases h : c r
  · rw [if_pos h, if_pos ((hc r).mpr h), hf]
  · rw [if_neg h, if_neg (mt (hc r).mp h)]

theorem map_redact_ite {c c' : Prop} [Decidable c] [Decidable c'] {x x' y y' : Option Tables}
    (hc : c' ↔ c) (hx : x' = x.map Tables.redact) (hy : y' = y.map Tables.redact) :
    (if c' then x' else y') = (if c then x else y).map Tables.redact := by
  by_cases h : c
  · rw [if_pos h, if_pos (hc.mpr h), hx]
  · rw [if_neg h, if_neg (mt hc.mp h), hy]

/-- A statement does on redacted tables what it does on the tables. -/
theorem Statement.exec_redact (stmt : Statement) (t : Tables) :
    stmt.redact.exec t.redact = (stmt.exec t).map Tables.redact := by
  cases stmt with
  | insertProxy p =>
    refine map_redact_ite ?_ ?_ rfl
    · exact iff_of_eq (congrArg (· = true) (t.proxyNameFree_redact _ _))
    · have hrow := proxyToRow_redact (t.proxySeq + 1) p
      have hrows : t.proxies.map ProxyRow.redact ++ [(proxyToRow (t.proxySeq + 1) p).redact] =
          (t.proxies ++ [proxyToRow (t.proxySeq + 1) p]).map ProxyRow.redact := by
        rw [List.map_append, List.map_cons, List.map_nil]
      rw [← hrow] at hrows
      exact congrArg (fun rows => some { t with proxies := rows, proxySeq := t.proxySeq + 1 }) hrows
  | updateProxy p =>
    refine map_redact_ite ?_ rfl ?_
    · show (t.redact.hasProxy p.id && !t.redact.proxyNameFree p.id p.name.chars) = true ↔ _
      rw [t.proxyNameFree_redact, t.hasProxy_redact]
    · have hrows := map_redact_update t.proxies (fun r => r.id = p.id) (fun r => proxyToRow r.id p)
        (fun r => proxyToRow r.id p.redact) (fun _ => Iff.rfl) fun r => proxyToRow_redact r.id p
      exact congrArg (fun rows => some { t with proxies := rows }) hrows
  | deleteProxy id =>
    refine map_redact_ite Iff.rfl rfl ?_
    have hrows : (t.proxies.map ProxyRow.redact).filter (fun r => (r.id : Int) ≠ id) =
        (t.proxies.filter fun r => (r.id : Int) ≠ id).map ProxyRow.redact := by
      rw [List.filter_map]
      rfl
    exact congrArg (fun rows => some { t with proxies := rows }) hrows
  | updateHealth id health latency =>
    have hrows := fun l : Int => map_redact_update t.proxies (fun r => (r.id : Int) = id)
      (fun r => { r with health := health, latencyMs := l })
      (fun r => { r with health := health, latencyMs := l }) (fun _ => Iff.rfl) fun _ => rfl
    exact congrArg (fun rows => some { t with proxies := rows }) (hrows _)
  | insertRule r =>
    have hrefs := ruleRefsOk_redact t.db (ruleToRow (t.ruleSeq + 1) r)
    exact map_redact_ite (iff_of_eq (congrArg (· = true) hrefs)) rfl rfl
  | updateRule r =>
    have hrefs := ruleRefsOk_redact t.db (ruleToRow r.id r)
    refine map_redact_ite ?_ rfl rfl
    show ((t.rules.any fun row => row.id = r.id) && !ruleRefsOk t.db.redact _) = true ↔ _
    rw [hrefs]
  | deleteRule id => rfl
  | setPriority priority id => rfl
  | insertChain name enabled => exact map_redact_ite Iff.rfl rfl rfl
  | updateChain id name enabled => exact map_redact_ite Iff.rfl rfl rfl
  | deleteChain id => exact map_redact_ite Iff.rfl rfl rfl
  | deleteHops chainId => rfl
  | insertHop chainId proxyId hopOrder =>
    refine map_redact_ite ?_ rfl rfl
    have hproxy := t.hasProxy_redact proxyId
    show (t.hasChain chainId && t.redact.hasProxy proxyId && t.hops.all _) = true ↔ _
    rw [hproxy]
  | setConfig key value => rfl

/-! ## Sessions -/

theorem Tables.Sound.redact {t : Tables} (h : t.Sound) : t.redact.Sound where
  proxies := h.proxies.map fun _ => rfl
  chains := h.chains
  hops := h.hops
  rules := h.rules
  hopChain := h.hopChain
  proxyWritten r hr := by
    obtain ⟨row, hrow, rfl⟩ := List.mem_map.mp hr
    exact (h.proxyWritten row hrow).redact
  chainWritten := h.chainWritten
  ruleWritten := h.ruleWritten

def Store.redact (st : Store) : Store := ⟨st.tables.redact, st.sound.redact⟩

def Session.redact (s : Session) : Session := { s with store := s.store.redact }

theorem Store.exec_redact (st : Store) (stmt : Statement) :
    st.redact.exec stmt.redact = (st.exec stmt).map Store.redact := by
  have hinj : Function.Injective Store.tables := fun _ _ h => Store.ext_tables h
  apply Option.map_injective hinj
  rw [Store.map_tables_exec, Option.map_map]
  show stmt.redact.exec st.tables.redact = (st.exec stmt).map (Tables.redact ∘ Store.tables)
  rw [Statement.exec_redact, ← Option.map_map, Store.map_tables_exec]

namespace Session

variable {s t : Session}

theorem fails_of_redact (h : s.redact = t.redact) : s.fails = t.fails := by
  have hfails : s.redact.fails = t.redact.fails := congrArg Session.fails h
  exact hfails

theorem db_of_redact (h : s.redact = t.redact) : s.db.redact = t.db.redact :=
  congrArg (fun s : Session => s.store.tables.db) h

theorem failsNow_of_redact (h : s.redact = t.redact) : s.failsNow = t.failsNow := by
  unfold failsNow
  rw [fails_of_redact h]

theorem called_redact (h : s.redact = t.redact) : s.called.redact = t.called.redact :=
  congrArg Session.called h

/-- Statements that differ in credentials only cannot be told apart. -/
theorem statement_alike {stmt stmt' : Statement} (hstmt : stmt.redact = stmt'.redact)
    (h : s.redact = t.redact) : Alike redact (statement stmt s) (statement stmt' t) := by
  have hstore : s.store.redact = t.store.redact := congrArg Session.store h
  have hexec : (s.store.exec stmt).map Store.redact = (t.store.exec stmt').map Store.redact := by
    rw [← Store.exec_redact, ← Store.exec_redact, hstore, hstmt]
  unfold statement
  rw [failsNow_of_redact h]
  by_cases hfail : t.failsNow = true
  · rw [if_pos hfail, if_pos hfail]
    exact .of none (called_redact h)
  · rw [if_neg hfail, if_neg hfail]
    cases hs : s.store.exec stmt with
    | none =>
      rw [hs] at hexec
      rw [Option.map_eq_none_iff.mp hexec.symm]
      exact .of none (called_redact h)
    | some st =>
      rw [hs] at hexec
      obtain ⟨st', hst', hredact⟩ := Option.map_eq_some_iff.mp hexec.symm
      rw [hst']
      refine .of _ ?_
      have hfails := congrArg Session.fails (called_redact h)
      show Session.mk st.redact _ = Session.mk st'.redact _
      rw [hredact]
      exact congrArg (Session.mk st.redact) hfails

theorem statement_respects (stmt : Statement) : Respects redact (statement stmt) :=
  fun _ _ h => statement_alike rfl h

/-- A query that reads no credentials. -/
theorem select_respects {α : Type} {query : Db → Option α}
    (hquery : ∀ db, query db.redact = query db) :
    Respects redact (select query) := by
  intro s t h
  refine ⟨?_, called_redact h⟩
  unfold select
  rw [failsNow_of_redact h, ← hquery s.db, db_of_redact h, hquery]

theorem insertHops_respects (chainId i : Nat) (hops : List Nat) :
    Respects redact (insertHops chainId i hops) := by
  induction hops generalizing i with
  | nil => exact respects_pure _
  | cons hop hops ih => exact (statement_respects _).bind fun _ => ih (i + 1)

theorem lastChainId_respects : Respects redact lastChainId := by
  intro s t h
  refine ⟨?_, h⟩
  have hseq : s.redact.tables.chainSeq = t.redact.tables.chainSeq := by rw [h]
  exact congrArg some hseq

theorem pfConfigChainAdd_respects (c : Chain) : Respects redact (pfConfigChainAdd c) :=
  (statement_respects _).bind fun _ => lastChainId_respects.bind fun id =>
    insertHops_respects id 0 c.hops

theorem pfConfigChainUpdate_respects (c : Chain) : Respects redact (pfConfigChainUpdate c) :=
  (statement_respects _).bind fun _ => (statement_respects _).bind fun _ =>
    insertHops_respects c.id 0 c.hops

end Session

/-! ## Requests on the host -/

def Host.redact (h : Host) : Host := { h with session := h.session.redact }

theorem queryRules_of_redact {s t : Session} (h : s.redact = t.redact) (fault : Option QueryFault) :
    queryRules s.db fault = queryRules t.db fault := by
  have hrules : queryRules s.db.redact fault = queryRules t.db.redact fault := by
    rw [Session.db_of_redact h]
  exact hrules

namespace Host

variable {h h' : Host}

/-- Hosts that look the same differ in their sessions only. -/
theorem split_redact (hv : h.redact = h'.redact) :
    ∃ t, h' = { h with session := t } ∧ h.session.redact = t.redact := by
  obtain ⟨session, ruleset, kernel, fault⟩ := h
  obtain ⟨session', ruleset', kernel', fault'⟩ := h'
  rw [redact, redact, Host.mk.injEq] at hv
  obtain ⟨hsession, rfl, rfl, rfl⟩ := hv
  exact ⟨session', rfl, hsession⟩

theorem redact_eq {s t : Session} (hst : s.redact = t.redact) (h : Host) :
    redact { h with session := s } = redact { h with session := t } := by
  unfold redact
  rw [hst]

theorem config_alike {α : Type} {m : Act Session α} (hm : Respects Session.redact m)
    (hv : h.redact = h'.redact) : Alike redact (h.config m) (h'.config m) := by
  obtain ⟨t, rfl, hst⟩ := split_redact hv
  have hsession := hm hst
  exact ⟨hsession.value, redact_eq hsession.state h⟩

theorem statement_alike {stmt stmt' : Statement} (hstmt : stmt.redact = stmt'.redact)
    (hv : h.redact = h'.redact) :
    Alike redact (h.config (Session.statement stmt)) (h'.config (Session.statement stmt')) := by
  obtain ⟨t, rfl, hst⟩ := split_redact hv
  have hsession := Session.statement_alike hstmt hst
  exact ⟨hsession.value, redact_eq hsession.state h⟩

theorem reload_redact (hv : h.redact = h'.redact) :
    h.rulesReloadLocked.redact = h'.rulesReloadLocked.redact := by
  obtain ⟨t, rfl, hst⟩ := split_redact hv
  unfold rulesReloadLocked redact
  rw [queryRules_of_redact hst, hst]

theorem kernelOps_redact (printed : Nat → CStr) (ops : List KernelOp) (hv : h.redact = h'.redact) :
    (h.kernelOps printed ops).redact = (h'.kernelOps printed ops).redact := by
  obtain ⟨t, rfl, hst⟩ := split_redact hv
  exact redact_eq hst (h.kernelOps printed ops)

variable (printed : Nat → CStr) (params : Option Json)

theorem ruleAdd_alike (hv : h.redact = h'.redact) :
    Alike redact (h.ruleAdd printed params) (h'.ruleAdd printed params) := by
  cases params with
  | none => exact .of _ hv
  | some p =>
    obtain ⟨r, k, k', hk, hk', hkk⟩ :=
      (config_alike (Session.statement_respects (.insertRule (ruleFromJson p))) hv).split
    simp only [ruleAdd, Session.pfConfigRuleAdd, hk, hk']
    cases r with
    | none => exact .of _ hkk
    | some _ =>
      have hseq : k.redact.session.tables.ruleSeq = k'.redact.session.tables.ruleSeq := by rw [hkk]
      have hseq : k.session.tables.ruleSeq = k'.session.tables.ruleSeq := hseq
      dsimp only
      rw [hseq]
      exact .of _ (reload_redact (kernelOps_redact printed _ hkk))

theorem loadRule_alike (rid : Int) (hv : h.redact = h'.redact) :
    Alike redact (h.loadRule rid) (h'.loadRule rid) := by
  unfold loadRule
  by_cases hpos : 0 < rid
  · rw [if_pos hpos, if_pos hpos]
    exact config_alike (Session.select_respects fun _ => rfl) hv
  · rw [if_neg hpos, if_neg hpos]
    exact .of _ hv

theorem ruleEdit_alike (hv : h.redact = h'.redact) :
    Alike redact (h.ruleEdit printed params) (h'.ruleEdit printed params) := by
  cases params with
  | none => exact .of _ hv
  | some p =>
    obtain ⟨stored, g, g', hg, hg', hgg⟩ := (loadRule_alike p.idOf hv).split
    simp only [ruleEdit, hg, hg']
    cases stored with
    | none => exact .of _ hgg
    | some stored =>
      obtain ⟨r, k, k', hk, hk', hkk⟩ :=
        (config_alike (Session.statement_respects (.updateRule (ruleOverlay p stored))) hgg).split
      simp only [Session.pfConfigRuleUpdate, hk, hk']
      cases r with
      | none => exact .of _ hkk
      | some _ => exact .of _ (reload_redact (kernelOps_redact printed _ hkk))

theorem ruleDelete_alike (hv : h.redact = h'.redact) :
    Alike redact (h.ruleDelete printed params) (h'.ruleDelete printed params) := by
  unfold ruleDelete
  cases params.bind (Json.getObjectItem · (lit "id")) with
  | none => exact .of _ hv
  | some v =>
    obtain ⟨r, k, k', hk, hk', hkk⟩ :=
      (config_alike (Session.statement_respects (.deleteRule (toInt32 v.valuedouble)))
        (kernelOps_redact printed [.cgroupRemoveRule (toInt32 v.valuedouble),
          .nftRemoveCgroupMark (toInt32 v.valuedouble)] hv)).split
    simp only [Session.pfConfigRuleDelete, hk, hk']
    cases r with
    | none => exact .of _ hkk
    | some _ => exact .of _ (reload_redact hkk)

theorem setPriorities_respects (ri : Nat) (ids : List Int) :
    Respects Session.redact (setPriorities ri ids) := by
  induction ids generalizing ri with
  | nil => exact respects_pure true
  | cons id ids ih =>
    intro s t hst
    obtain ⟨r, s', t', hs, ht, hst'⟩ :=
      (Session.statement_respects (.setPriority ri id) hst).split
    have hrest := ih (ri + 1) hst'
    simp only [setPriorities, hs, ht]
    exact hrest.map (r.isSome && ·)

theorem ruleReorder_alike (hv : h.redact = h'.redact) :
    Alike redact (h.ruleReorder params) (h'.ruleReorder params) := by
  unfold ruleReorder
  cases reorderIds params with
  | none => exact .of _ hv
  | some ids =>
    obtain ⟨t, rfl, hst⟩ := split_redact hv
    obtain ⟨ok, s', t', hs, ht, hst'⟩ := (setPriorities_respects 0 ids hst).split
    simp only [hs, ht]
    cases ok with
    | false => exact .of _ (redact_eq hst' h)
    | true => exact .of _ (reload_redact (redact_eq hst' h))

theorem chainEdit_alike (hv : h.redact = h'.redact) :
    Alike redact (h.chainEdit params) (h'.chainEdit params) := by
  cases params with
  | none => exact .of _ hv
  | some p =>
    obtain ⟨r, k, k', hk, hk', hkk⟩ :=
      (config_alike (Session.pfConfigChainUpdate_respects (chainFromJson p)) hv).split
    simp only [chainEdit, hk, hk']
    cases r with
    | none => exact .of _ hkk
    | some _ => exact .of _ hkk

theorem chainAdd_alike (hv : h.redact = h'.redact) :
    Alike redact (h.chainAdd params) (h'.chainAdd params) := by
  cases params with
  | none => exact .of _ hv
  | some p =>
    obtain ⟨r, k, k', hk, hk', hkk⟩ :=
      (config_alike (Session.pfConfigChainAdd_respects (chainFromJson p)) hv).split
    simp only [chainAdd, hk, hk']
    cases r with
    | none => exact .of _ hkk
    | some _ => exact .of _ hkk

theorem proxyAdd_alike (hv : h.redact = h'.redact) :
    Alike redact (h.proxyAdd params) (h'.proxyAdd params) := by
  cases params with
  | none => exact .of _ hv
  | some p =>
    obtain ⟨r, k, k', hk, hk', hkk⟩ :=
      (config_alike (Session.statement_respects (.insertProxy (proxyFromJson p))) hv).split
    simp only [proxyAdd, Session.pfConfigProxyAdd, hk, hk']
    cases r with
    | none => exact .of _ hkk
    | some _ => exact .of _ hkk

/-! ## Editing a proxy -/

theorem find?_redact (rows : List ProxyRow) (id : Int) :
    (rows.map ProxyRow.redact).find? (fun r => (r.id : Int) = id) =
      (rows.find? fun r => (r.id : Int) = id).map ProxyRow.redact := by
  rw [List.find?_map]
  rfl

theorem pfConfigProxyGet_redact (db : Db) (id : Int) :
    pfConfigProxyGet db.redact id = (pfConfigProxyGet db id).map Proxy.redact := by
  unfold pfConfigProxyGet Db.redact
  rw [find?_redact, Option.map_map, Option.map_map]
  exact congrArg (Option.map · _) (funext rowToProxy_redact)

/-- The proxy found is the same up to its credentials. -/
theorem configProxyGet_alike (id : Int) (hv : h.redact = h'.redact) :
    ((h.config (Session.pfConfigProxyGet id)).1.map Proxy.redact =
      (h'.config (Session.pfConfigProxyGet id)).1.map Proxy.redact) ∧
    (h.config (Session.pfConfigProxyGet id)).2.redact =
      (h'.config (Session.pfConfigProxyGet id)).2.redact := by
  obtain ⟨t, rfl, hst⟩ := split_redact hv
  refine ⟨?_, redact_eq (Session.called_redact hst) h⟩
  show (if h.session.failsNow then none else pfConfigProxyGet h.session.db id).map Proxy.redact =
    (if t.failsNow then none else pfConfigProxyGet t.db id).map Proxy.redact
  rw [Session.failsNow_of_redact hst, apply_ite (Option.map Proxy.redact),
    apply_ite (Option.map Proxy.redact), ← pfConfigProxyGet_redact, ← pfConfigProxyGet_redact,
    Session.db_of_redact hst]

theorem loadProxy_alike (pid : Int) (hv : h.redact = h'.redact) :
    (h.loadProxy pid).1.map Proxy.redact = (h'.loadProxy pid).1.map Proxy.redact ∧
      (h.loadProxy pid).2.redact = (h'.loadProxy pid).2.redact := by
  unfold loadProxy
  by_cases hpos : 0 < pid
  · rw [if_pos hpos, if_pos hpos]
    exact configProxyGet_alike pid hv
  · rw [if_neg hpos, if_neg hpos]
    exact ⟨rfl, hv⟩

theorem proxyOverlay_redact (json : Json) {p p' : Proxy} (hp : p.redact = p'.redact) :
    (proxyOverlay json p).redact = (proxyOverlay json p').redact := by
  have hoverlay : (proxyOverlay json p.redact).redact = (proxyOverlay json p'.redact).redact := by
    rw [hp]
  exact hoverlay

theorem syncOps_of_redact {stored stored' p p' : Proxy} (hv : h.redact = h'.redact)
    (hstored : stored.redact = stored'.redact) (hp : p.redact = p'.redact) :
    h.syncOps stored p = h'.syncOps stored' p' := by
  have hops : h.redact.syncOps stored.redact p.redact =
      h'.redact.syncOps stored'.redact p'.redact := by rw [hv, hstored, hp]
  exact hops

theorem proxyEdit_alike (hv : h.redact = h'.redact) :
    Alike redact (h.proxyEdit printed params) (h'.proxyEdit printed params) := by
  cases params with
  | none => exact .of _ hv
  | some json =>
    obtain ⟨hstored, hgg⟩ := loadProxy_alike json.idOf hv
    cases hg : h.loadProxy json.idOf with
    | mk stored g =>
      cases hg' : h'.loadProxy json.idOf with
      | mk stored' g' =>
        rw [hg, hg'] at hstored hgg
        simp only [proxyEdit, hg, hg']
        cases stored with
        | none =>
          obtain rfl := Option.map_eq_none_iff.mp hstored.symm
          exact .of _ hgg
        | some stored =>
          obtain ⟨stored', rfl, hredact⟩ := Option.map_eq_some_iff.mp hstored.symm
          have hoverlay := proxyOverlay_redact json hredact.symm
          have hstmt : (Statement.updateProxy (proxyOverlay json stored)).redact =
              (Statement.updateProxy (proxyOverlay json stored')).redact :=
            congrArg Statement.updateProxy hoverlay
          obtain ⟨r, k, k', hk, hk', hkk⟩ := (statement_alike hstmt hgg).split
          simp only [Session.pfConfigProxyUpdate, hk, hk']
          cases r with
          | none => exact .of _ hkk
          | some _ =>
            dsimp only
            rw [syncOps_of_redact hkk hredact.symm hoverlay]
            exact .of _ (kernelOps_redact printed _ hkk)

/-! ## Deleting -/

theorem countRows_alike (count : Db → Nat) (hcount : ∀ db, count db.redact = count db)
    (hv : h.redact = h'.redact) : Alike redact (h.countRows count) (h'.countRows count) := by
  have hselect : Respects Session.redact (Session.select fun db => some (count db)) :=
    Session.select_respects fun db => by rw [hcount]
  exact (config_alike hselect hv).map (·.getD 0)

theorem proxyRefCount_alike (id : Int) (hv : h.redact = h'.redact) :
    Alike redact (h.proxyRefCount id) (h'.proxyRefCount id) := by
  have hrules := countRows_alike (fun db =>
    db.rules.countP fun r => r.proxyId.any fun n : Nat => (n : Int) = id) (fun _ => rfl) hv
  have hhops := countRows_alike (fun db =>
    db.chainHops.countP fun hop => (hop.proxyId : Int) = id) (fun _ => rfl) hrules.state
  exact ⟨congrArg₂ (· + ·) hrules.value hhops.value, hhops.state⟩

theorem proxyDelete_alike (hv : h.redact = h'.redact) :
    Alike redact (h.proxyDelete params) (h'.proxyDelete params) := by
  unfold proxyDelete
  cases itemOf params "id" with
  | none => exact .of _ hv
  | some v =>
    obtain ⟨refs, g, g', hg, hg', hgg⟩ := (proxyRefCount_alike (toInt32 v.valuedouble) hv).split
    simp only [hg, hg']
    by_cases hrefs : 0 < refs
    · rw [if_pos hrefs, if_pos hrefs]
      exact .of _ hgg
    · rw [if_neg hrefs, if_neg hrefs]
      obtain ⟨r, k, k', hk, hk', hkk⟩ :=
        (config_alike (Session.statement_respects (.deleteProxy (toInt32 v.valuedouble))) hgg).split
      rw [hk, hk']
      cases r with
      | none => exact .of _ hkk
      | some _ => exact .of _ hkk

theorem chainDelete_alike (hv : h.redact = h'.redact) :
    Alike redact (h.chainDelete params) (h'.chainDelete params) := by
  unfold chainDelete
  cases itemOf params "id" with
  | none => exact .of _ hv
  | some v =>
    have hcount := countRows_alike (fun db =>
      db.rules.countP fun r => r.chainId.any fun n : Nat => (n : Int) = toInt32 v.valuedouble)
      (fun _ => rfl) hv
    obtain ⟨refs, g, g', hg, hg', hgg⟩ := hcount.split
    simp only [chainRefCount, hg, hg']
    by_cases hrefs : 0 < refs
    · rw [if_pos hrefs, if_pos hrefs]
      exact .of _ hgg
    · rw [if_neg hrefs, if_neg hrefs]
      obtain ⟨r, k, k', hk, hk', hkk⟩ :=
        (config_alike (Session.statement_respects (.deleteChain (toInt32 v.valuedouble))) hgg).split
      rw [hk, hk']
      cases r with
      | none => exact .of _ hkk
      | some _ => exact .of _ hkk

/-! ## Settings -/

theorem pfConfigGet_respects (cap : Nat) [BufSize cap] (key : CStr) :
    Respects Session.redact (Session.pfConfigGet cap key) := Session.select_respects fun _ => rfl

theorem setting_alike (cap : Nat) [BufSize cap] (key default : String) (hv : h.redact = h'.redact) :
    Alike redact (h.setting cap key default) (h'.setting cap key default) :=
  (config_alike (pfConfigGet_respects cap (lit key)) hv).map (·.getD (lit default))

theorem store_redact (key : String) (value : CStr) (hv : h.redact = h'.redact) :
    (h.store key value).redact = (h'.store key value).redact :=
  (config_alike (Session.statement_respects (.setConfig (lit key) value)) hv).state

theorem configGet_alike {ν : Type} (hv : h.redact = h'.redact) :
    Alike redact (h.configGet params : Cjson ν × Host) (h'.configGet params) := by
  unfold configGet
  cases textOf params "key" with
  | none => exact .of _ hv
  | some key =>
    obtain ⟨r, k, k', hk, hk', hkk⟩ := (config_alike (pfConfigGet_respects pfBufSize key) hv).split
    simp only [hk, hk']
    cases r with
    | none => exact .of _ hkk
    | some _ => exact .of _ hkk

theorem configSet_alike (hv : h.redact = h'.redact) :
    Alike redact (h.configSet params) (h'.configSet params) := by
  unfold configSet
  cases textOf params "key" with
  | none => exact .of _ hv
  | some key =>
    cases textOf params "value" with
    | none => exact .of _ hv
    | some value =>
      obtain ⟨r, k, k', hk, hk', hkk⟩ :=
        (config_alike (Session.statement_respects (.setConfig key value)) hv).split
      simp only [Session.pfConfigSet, hk, hk']
      cases r with
      | none => exact .of _ hkk
      | some _ => exact .of _ hkk

end Host

end Proxiflare.Daemon
