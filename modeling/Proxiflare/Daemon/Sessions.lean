import Proxiflare.Daemon.Tables

/-!
# The functions of config.c on a database that may fail

Each function is the sequence of its statements. `fails` says of every coming call
whether SQLite fails it (in prepare or in step, which come to the same); the rest of
the calls are executed. An error is the early `return PF_ERR_DB`.
-/

namespace Proxiflare.Daemon

open Lib.CString Lib

structure Session where
  store : Store
  fails : List Bool

namespace Session

def tables (s : Session) : Tables := s.store.tables

def db (s : Session) : Db := s.store.tables.db

/-- The state after one more call, whatever its outcome. -/
def called (s : Session) : Session := { s with fails := s.fails.tail }

def failsNow (s : Session) : Bool := s.fails.headD false

/-- SQLite fails the `k`-th call from here. -/
def failsAt (s : Session) (k : Nat) : Bool := s.fails.getD k false

/-- `SQLITE_DONE`, or an error that changes nothing. -/
def statement (stmt : Statement) : Act Session PUnit := fun s =>
  if s.failsNow then (none, s.called)
  else match s.store.exec stmt with
    | none => (none, s.called)
    | some st => (some ⟨⟩, { s.called with store := st })

/-- A SELECT and the reading of its rows. -/
def select {α : Type} (query : Db → Option α) : Act Session α := fun s =>
  (if s.failsNow then none else query s.db, s.called)

def pfConfigProxyAdd (p : Proxy) : Act Session PUnit := statement (.insertProxy p)

def pfConfigProxyGet (id : Int) : Act Session Proxy := select (Daemon.pfConfigProxyGet · id)

def pfConfigProxyUpdate (p : Proxy) : Act Session PUnit := statement (.updateProxy p)

def pfConfigRuleAdd (r : Rule) : Act Session PUnit := statement (.insertRule r)

def pfConfigRuleGet (id : Int) : Act Session Rule := select (Daemon.pfConfigRuleGet · id)

def pfConfigRuleUpdate (r : Rule) : Act Session PUnit := statement (.updateRule r)

def pfConfigRuleDelete (id : Int) : Act Session PUnit := statement (.deleteRule id)

/-- `for (int i = 0; i < chain->hop_count; i++)`: one INSERT a hop. -/
def insertHops (chainId : Nat) : Nat → List Nat → Act Session PUnit
  | _, [] => pure ⟨⟩
  | i, hop :: hops => do
    statement (.insertHop chainId hop i)
    insertHops chainId (i + 1) hops

/-- `sqlite3_last_insert_rowid` after an INSERT into chains. -/
def lastChainId : Act Session Nat := fun s => (some s.tables.chainSeq, s)

def pfConfigChainAdd (c : Chain) : Act Session PUnit := do
  statement (.insertChain c.name c.enabled)
  let id ← lastChainId
  insertHops id 0 c.hops

/-- The old hops are deleted, then the new ones inserted. -/
def pfConfigChainUpdate (c : Chain) : Act Session PUnit := do
  statement (.updateChain c.id c.name c.enabled)
  statement (.deleteHops c.id)
  insertHops c.id 0 c.hops

/-- Into a `char buf[cap]`. -/
def pfConfigGet (cap : Nat) [BufSize cap] (key : CStr) : Act Session CStr :=
  select fun db => (Daemon.pfConfigGet db key).map fun v => (CBuf.snprintf v : CBuf cap).chars

def pfConfigSet (key value : CStr) : Act Session PUnit := statement (.setConfig key value)

/-! ## The calls to come -/

theorem failsAt_zero (s : Session) : s.failsAt 0 = s.failsNow := by
  obtain ⟨store, fails⟩ := s
  cases fails <;> rfl

theorem getD_tail (fails : List Bool) (k : Nat) :
    fails.tail.getD k false = fails.getD (k + 1) false := by
  cases fails <;> rfl

theorem failsAt_called (s : Session) (k : Nat) : s.called.failsAt k = s.failsAt (k + 1) :=
  getD_tail s.fails k

/-- The calls up to a bound, the first one apart. -/
theorem forall_getD_succ (fails : List Bool) (n : Nat) :
    (∀ k < n + 1, fails.getD k false = false) ↔
      fails.headD false = false ∧ ∀ k < n, fails.tail.getD k false = false := by
  simp only [getD_tail, Nat.forall_lt_succ_left]
  cases fails <;> rfl

/-! ## One statement -/

variable {s s' : Session} {stmt : Statement}

theorem statement_gives_iff {x : PUnit} :
    Act.Gives (statement stmt) s x s' ↔
      s.failsNow = false ∧ stmt.exec s.tables = some s'.tables ∧ s'.fails = s.fails.tail := by
  obtain ⟨store', fails'⟩ := s'
  show statement stmt s = (some x, ⟨store', fails'⟩) ↔ _
  unfold statement
  cases hfail : s.failsNow with
  | true => simp
  | false =>
    rw [if_neg Bool.false_ne_true]
    show _ ↔ _ ∧ stmt.exec s.store.tables = some store'.tables ∧ fails' = s.fails.tail
    rw [← Store.exec_eq_some]
    cases hexec : s.store.exec stmt with
    | none => simp
    | some st => simp [called, eq_comm]

/-- What a statement that is not executed leaves. -/
theorem statement_fails {t : Session} (h : statement stmt s = (none, t)) :
    t = s.called ∧ (s.failsNow = true ∨ stmt.exec s.tables = none) := by
  unfold statement at h
  cases hfail : s.failsNow with
  | true =>
    rw [if_pos hfail] at h
    exact ⟨(Prod.mk.inj h).2.symm, .inl rfl⟩
  | false =>
    rw [if_neg (by rw [hfail]; exact Bool.false_ne_true)] at h
    cases hexec : s.store.exec stmt with
    | none =>
      rw [hexec] at h
      exact ⟨(Prod.mk.inj h).2.symm, .inr (Store.exec_eq_none.mp hexec)⟩
    | some st =>
      rw [hexec] at h
      cases (Prod.mk.inj h).1

theorem statement_fails_iff :
    (statement stmt s).1 = none ↔ s.failsNow = true ∨ stmt.exec s.tables = none := by
  constructor
  · intro h
    exact (statement_fails (Prod.ext h rfl)).2
  · intro h
    by_contra hne
    obtain ⟨x, hx⟩ := Option.ne_none_iff_exists'.mp hne
    obtain ⟨hfail, hexec, -⟩ := statement_gives_iff.mp (Act.gives_of_fst hx)
    rw [hfail, hexec] at h
    rcases h with h | h <;> cases h

/-! ## The hops of a chain, one statement each -/

def hopRows (chainId : Nat) : Nat → List Nat → List ChainHopRow
  | _, [] => []
  | i, hop :: hops => ⟨chainId, hop, i⟩ :: hopRows chainId (i + 1) hops

/-- The next rowid goes to each row. -/
def numbered : Nat → List ChainHopRow → List (Nat × ChainHopRow)
  | _, [] => []
  | seq, row :: rows => (seq + 1, row) :: numbered (seq + 1) rows

/-- The tables once these rows have been inserted. -/
def withHops (t : Tables) (rows : List ChainHopRow) : Tables :=
  { t with hops := t.hops ++ numbered t.hopSeq rows, hopSeq := t.hopSeq + rows.length }

variable {t : Tables} {chainId i : Nat} {hops : List Nat} {rows : List ChainHopRow}

theorem map_snd_numbered (seq : Nat) (rows : List ChainHopRow) :
    (numbered seq rows).map Prod.snd = rows := by
  induction rows generalizing seq with
  | nil => rfl
  | cons row rows ih => rw [numbered, List.map_cons, ih]

theorem withHops_nil (t : Tables) : withHops t [] = t := by
  unfold withHops
  rw [numbered, List.append_nil]
  rfl

theorem withHops_cons (t : Tables) (row : ChainHopRow) (rows : List ChainHopRow) :
    withHops t (row :: rows) = withHops (withHops t [row]) rows := by
  unfold withHops
  simp only [numbered, List.append_assoc, List.singleton_append, List.length_cons,
    List.length_nil, Nat.zero_add, Nat.add_assoc, Nat.add_comm 1]

theorem insertHop_exec {t' : Tables} {hop : Nat} {order : Int}
    (h : (Statement.insertHop chainId hop order).exec t = some t') :
    t' = withHops t [⟨chainId, hop, order⟩] := by
  simp only [Statement.exec, Option.ite_none_right_eq_some, Option.some.injEq] at h
  exact h.2.symm

/-- The INSERTs up to the first that fails have written their rows. -/
theorem insertHops_writes (chainId i : Nat) (hops : List Nat) (s : Session) :
    ∃ n ≤ hops.length,
      (insertHops chainId i hops s).2.tables = withHops s.tables (hopRows chainId i (hops.take n)) ∧
        ((insertHops chainId i hops s).1 ≠ none → n = hops.length) ∧
        ((insertHops chainId i hops s).1 = none → ∀ hop rest, hops = hop :: rest →
          (n = 0 ↔ (statement (.insertHop chainId hop i) s).1 = none)) := by
  induction hops generalizing i s with
  | nil => exact ⟨0, Nat.le_refl _, (withHops_nil _).symm, fun _ => rfl, fun h => nomatch h⟩
  | cons hop hops ih =>
    cases hstmt : statement (.insertHop chainId hop i) s with
    | mk r s₁ =>
      cases r with
      | none =>
        have hrun : insertHops chainId i (hop :: hops) s = (none, s₁) := by
          show (statement (.insertHop chainId hop i) >>= fun _ =>
            insertHops chainId (i + 1) hops) s = _
          exact Act.bind_of_none hstmt
        have hkept := (statement_fails hstmt).1
        refine ⟨0, Nat.zero_le _, ?_, fun h => ?_, fun _ hop' rest heq => ?_⟩
        · rw [hrun, hkept, List.take_zero, hopRows, withHops_nil]
          rfl
        · rw [hrun] at h
          exact absurd rfl h
        · obtain ⟨rfl, -⟩ := List.cons.inj heq
          rw [hstmt]
          exact iff_of_true rfl rfl
      | some x =>
        have hgives : Act.Gives (statement (.insertHop chainId hop i)) s x s₁ := hstmt
        obtain ⟨-, hexec, -⟩ := statement_gives_iff.mp hgives
        have hrun : insertHops chainId i (hop :: hops) s = insertHops chainId (i + 1) hops s₁ :=
          hgives.bind_eq
        obtain ⟨n, hn, htables, hall, -⟩ := ih (i + 1) s₁
        refine ⟨n + 1, Nat.succ_le_succ hn, ?_, fun h => ?_, fun _ hop' rest heq => ?_⟩
        · rw [hrun, htables, insertHop_exec hexec, List.take_succ_cons, hopRows,
            ← withHops_cons]
        · rw [hrun] at h
          rw [hall h, List.length_cons]
        · obtain ⟨rfl, -⟩ := List.cons.inj heq
          rw [hstmt]
          exact iff_of_false (Nat.succ_ne_zero n) nofun

/-- The chain exists, and its hops so far come before position `i`. -/
structure HopsFree (t : Tables) (chainId i : Nat) : Prop where
  chain : t.hasChain chainId = true
  orders : ∀ h ∈ t.hops, h.2.chainId = chainId → h.2.hopOrder < i

/-- Then an INSERT fails only on its own account or for an unknown proxy. -/
theorem HopsFree.exec (h : HopsFree t chainId i) (hop : Nat) :
    (Statement.insertHop chainId hop i).exec t =
      if t.hasProxy hop then some (withHops t [⟨chainId, hop, i⟩]) else none := by
  have horders : (t.hops.all fun h => h.2.chainId ≠ chainId || h.2.hopOrder ≠ (i : Int)) = true := by
    rw [List.all_eq_true]
    intro x hx
    by_cases hid : x.2.chainId = chainId
    · have hlt := h.orders x hx hid
      simp only [hid, ne_eq, not_true_eq_false, decide_false, Bool.false_or, decide_eq_true_eq]
      omega
    · simp [hid]
  rw [Statement.exec, h.chain, horders, Bool.true_and, Bool.and_true]
  rfl

theorem HopsFree.next (h : HopsFree t chainId i) (hop : Nat) :
    HopsFree (withHops t [⟨chainId, hop, i⟩]) chainId (i + 1) := by
  refine ⟨h.chain, fun x hx hid => ?_⟩
  rcases List.mem_append.mp hx with hx | hx
  · have hlt := h.orders x hx hid
    omega
  · rw [List.mem_singleton.mp hx]
    show (i : Int) < (i + 1 : Nat)
    omega

/-- All INSERTs are executed: none of the calls fails, and every hop is a known proxy. -/
def HopsExecute (t : Tables) (fails : List Bool) (hops : List Nat) : Prop :=
  (∀ k < hops.length, fails.getD k false = false) ∧ ∀ hop ∈ hops, t.hasProxy hop = true

theorem hopsExecute_cons {fails : List Bool} {hop : Nat} :
    HopsExecute t fails (hop :: hops) ↔
      (fails.headD false = false ∧ t.hasProxy hop = true) ∧ HopsExecute t fails.tail hops := by
  unfold HopsExecute
  rw [List.forall_mem_cons, List.length_cons]
  rw [forall_getD_succ]
  tauto

theorem insertHops_succeeds_iff (hfree : HopsFree s.tables chainId i) :
    (insertHops chainId i hops s).1 ≠ none ↔ HopsExecute s.tables s.fails hops := by
  induction hops generalizing i s with
  | nil => exact iff_of_true nofun ⟨nofun, List.forall_mem_nil _⟩
  | cons hop hops ih =>
    rw [hopsExecute_cons]
    cases hstmt : statement (.insertHop chainId hop i) s with
    | mk r s₁ =>
      cases r with
      | none =>
        have hrun : insertHops chainId i (hop :: hops) s = (none, s₁) := Act.bind_of_none hstmt
        have hcause := (statement_fails hstmt).2
        rw [hfree.exec] at hcause
        rw [hrun]
        refine iff_of_false (fun h => h rfl) ?_
        rintro ⟨⟨hfail, hproxy⟩, -⟩
        rw [hproxy, if_pos rfl] at hcause
        rcases hcause with hcause | hcause
        · exact absurd (hcause.symm.trans hfail) (by decide)
        · cases hcause
      | some x =>
        have hgives : Act.Gives (statement (.insertHop chainId hop i)) s x s₁ := hstmt
        obtain ⟨hfail, hexec, hfails⟩ := statement_gives_iff.mp hgives
        have hrun : insertHops chainId i (hop :: hops) s = insertHops chainId (i + 1) hops s₁ :=
          hgives.bind_eq
        have htables := insertHop_exec hexec
        rw [hfree.exec, Option.ite_none_right_eq_some] at hexec
        rw [hrun, ih (htables ▸ hfree.next hop), hfails, htables]
        exact (and_iff_right ⟨hfail, hexec.1⟩).symm

end Session

end Proxiflare.Daemon
