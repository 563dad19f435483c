import Proxiflare.Daemon.Config
import Proxiflare.Daemon.Json
import Proxiflare.Lib.Act
import Proxiflare.Lib.Keyed
import Proxiflare.Lib.Runs

/-!
# Statements on the configuration database

The statements `config.c` prepares, each with what SQLite does with it: the rows it
changes, or nothing when a constraint forbids it. A `Store` is a database as these
statements leave it. Statements are not grouped into transactions, so a function of
`config.c` that gives up keeps what the statements before have written.
-/

namespace Proxiflare.Daemon

open Lib.CString Lib

/-- `Db` with the columns it leaves out: the rowids of `chain_hops` and the AUTOINCREMENT
counters. -/
structure Tables where
  proxies : List ProxyRow
  chains : List ChainRow
  hops : List (Nat × ChainHopRow)
  rules : List RuleRow
  config : List (CStr × CStr)
  proxySeq : Nat
  chainSeq : Nat
  hopSeq : Nat
  ruleSeq : Nat
  deriving DecidableEq

def Tables.empty : Tables := ⟨[], [], [], [], [], 0, 0, 0, 0⟩

def Tables.db (t : Tables) : Db :=
  ⟨t.proxies, t.chains, t.hops.map Prod.snd, t.rules, t.ruleSeq, t.config⟩

inductive Statement where
  | insertProxy (p : Proxy)
  | updateProxy (p : Proxy)
  | deleteProxy (id : Int)
  | updateHealth (id : Int) (health latencyMs : Int)
  | insertRule (r : Rule)
  | updateRule (r : Rule)
  | deleteRule (id : Int)
  | setPriority (priority : Int) (id : Int)
  | insertChain (name : CBuf 64) (enabled : Int)
  | updateChain (id : Nat) (name : CBuf 64) (enabled : Int)
  | deleteChain (id : Int)
  | deleteHops (chainId : Nat)
  | insertHop (chainId proxyId : Nat) (hopOrder : Int)
  | setConfig (key value : CStr)

/-! ## What a statement does -/

/-- `UNIQUE` on a name column, for the row that is to have the id. -/
def Tables.proxyNameFree (t : Tables) (id : Nat) (name : CStr) : Bool :=
  t.proxies.all fun r => r.id = id || r.name ≠ name

def Tables.chainNameFree (t : Tables) (id : Nat) (name : CStr) : Bool :=
  t.chains.all fun r => r.id = id || r.name ≠ name

def Tables.hasProxy (t : Tables) (id : Nat) : Bool := t.proxies.any fun r => r.id = id

def Tables.hasChain (t : Tables) (id : Nat) : Bool := t.chains.any fun r => r.id = id

/-- An UPDATE that finds no row changes nothing and checks nothing. -/
def Statement.exec (t : Tables) : Statement → Option Tables
  | .insertProxy p =>
    let id := t.proxySeq + 1
    if t.proxyNameFree id p.name.chars then
      some { t with proxies := t.proxies ++ [proxyToRow id p], proxySeq := id }
    else none
  | .updateProxy p =>
    if t.hasProxy p.id && !t.proxyNameFree p.id p.name.chars then none
    else some { t with
      proxies := t.proxies.map fun r => if r.id = p.id then proxyToRow r.id p else r }
  | .deleteProxy id =>
    if (t.rules.any fun r => r.proxyId.any fun n : Nat => (n : Int) = id) ||
        (t.hops.any fun h => (h.2.proxyId : Int) = id) then none
    else some { t with proxies := t.proxies.filter fun r => (r.id : Int) ≠ id }
  | .updateHealth id health latencyMs =>
    some { t with proxies := t.proxies.map fun r => if (r.id : Int) = id then
      { r with health := health, latencyMs := intOfUInt32 (uint32OfInt latencyMs) } else r }
  | .insertRule r =>
    let id := t.ruleSeq + 1
    if ruleRefsOk t.db (ruleToRow id r) then
      some { t with rules := t.rules ++ [ruleToRow id r], ruleSeq := id }
    else none
  | .updateRule r =>
    if (t.rules.any fun row => row.id = r.id) && !ruleRefsOk t.db (ruleToRow r.id r) then none
    else some { t with
      rules := t.rules.map fun row => if row.id = r.id then ruleToRow r.id r else row }
  | .deleteRule id => some { t with rules := t.rules.filter fun row => (row.id : Int) ≠ id }
  | .setPriority priority id =>
    some { t with rules := t.rules.map fun row =>
      if (row.id : Int) = id then { row with priority := priority } else row }
  | .insertChain name enabled =>
    let id := t.chainSeq + 1
    if t.chainNameFree id name.chars then
      some { t with chains := t.chains ++ [⟨id, name.chars, enabled⟩], chainSeq := id }
    else none
  | .updateChain id name enabled =>
    if t.hasChain id && !t.chainNameFree id name.chars then none
    else some { t with
      chains := t.chains.map fun r => if r.id = id then ⟨r.id, name.chars, enabled⟩ else r }
  | .deleteChain id =>
    if t.rules.any fun r => r.chainId.any fun n : Nat => (n : Int) = id then none
    else some { t with
      chains := t.chains.filter fun r => (r.id : Int) ≠ id
      hops := t.hops.filter fun h => (h.2.chainId : Int) ≠ id }
  | .deleteHops chainId => some { t with hops := t.hops.filter fun h => h.2.chainId ≠ chainId }
  | .insertHop chainId proxyId hopOrder =>
    if t.hasChain chainId && t.hasProxy proxyId &&
        t.hops.all fun h => h.2.chainId ≠ chainId || h.2.hopOrder ≠ hopOrder then
      some { t with
        hops := t.hops ++ [(t.hopSeq + 1, ⟨chainId, proxyId, hopOrder⟩)], hopSeq := t.hopSeq + 1 }
    else none
  | .setConfig key value =>
    some { t with config := t.config.filter (fun kv => kv.1 ≠ key) ++ [(key, value)] }

/-! ## What the statements keep -/

/-- A row that reading and writing back leaves as it is. -/
def ProxyRow.Written (r : ProxyRow) : Prop := proxyToRow r.id (rowToProxy r) = r

def RuleRow.Written (r : RuleRow) : Prop := ruleToRow r.id (rowToRule r) = r

def ChainRow.Written (r : ChainRow) : Prop := (CBuf.snprintf r.name : CBuf 64).chars = r.name

/-- Rowids are unique and never exceed their counter, a hop belongs to a chain, and every row was
written from a record. -/
structure Tables.Sound (t : Tables) : Prop where
  proxies : Keyed ProxyRow.id t.proxySeq t.proxies
  chains : Keyed ChainRow.id t.chainSeq t.chains
  hops : Keyed Prod.fst t.hopSeq t.hops
  rules : Keyed RuleRow.id t.ruleSeq t.rules
  hopChain : ∀ h ∈ t.hops, ∃ r ∈ t.chains, r.id = h.2.chainId
  proxyWritten : ∀ r ∈ t.proxies, r.Written
  chainWritten : ∀ r ∈ t.chains, r.Written
  ruleWritten : ∀ r ∈ t.rules, r.Written

theorem Tables.empty_sound : Tables.empty.Sound :=
  ⟨.nil _ _, .nil _ _, .nil _ _, .nil _ _, List.forall_mem_nil _, List.forall_mem_nil _,
    List.forall_mem_nil _, List.forall_mem_nil _⟩

theorem proxyToRow_written (id : Nat) (p : Proxy) : (proxyToRow id p).Written := by
  unfold ProxyRow.Written
  rw [rowToProxy_proxyToRow]
  rfl

theorem ruleToRow_written (id : Nat) (r : Rule) : (ruleToRow id r).Written := by
  unfold RuleRow.Written
  rw [rowToRule_ruleToRow]
  rfl

theorem chainRow_written (id : Nat) (name : CBuf 64) (enabled : Int) :
    (⟨id, name.chars, enabled⟩ : ChainRow).Written := congrArg CBuf.chars (CBuf.snprintf_chars name)

theorem ProxyRow.Written.health {r : ProxyRow} (h : r.Written) (health : Int) (latency : UInt32) :
    ({ r with health := health, latencyMs := intOfUInt32 latency } : ProxyRow).Written := by
  unfold ProxyRow.Written proxyToRow rowToProxy at *
  rw [ProxyRow.mk.injEq] at h ⊢
  refine ⟨rfl, h.2.1, h.2.2.1, h.2.2.2.1, h.2.2.2.2.1, h.2.2.2.2.2.1, h.2.2.2.2.2.2.1,
    h.2.2.2.2.2.2.2.1, rfl, rfl, ?_⟩
  rw [uint32OfInt_intOfUInt32]

theorem RuleRow.Written.priority {r : RuleRow} (h : r.Written) (priority : Int) :
    ({ r with priority := priority } : RuleRow).Written := by
  unfold RuleRow.Written ruleToRow rowToRule at *
  rw [RuleRow.mk.injEq] at h ⊢
  exact ⟨rfl, h.2.1, h.2.2.1, rfl, h.2.2.2.2⟩

/-- What holds of every row but those a statement writes holds when it holds of these. -/
theorem forall_mem_snoc {α : Type} {P : α → Prop} {rows : List α} {r : α} (h : ∀ x ∈ rows, P x)
    (hr : P r) : ∀ x ∈ rows ++ [r], P x := by
  intro x hx
  rcases List.mem_append.mp hx with hx | hx
  · exact h x hx
  · rw [List.mem_singleton.mp hx]
    exact hr

theorem forall_mem_update {α : Type} {P : α → Prop} {rows : List α} {c : α → Prop}
    [DecidablePred c] {f : α → α} (h : ∀ x ∈ rows, P x) (hf : ∀ x, P x → c x → P (f x)) :
    ∀ x ∈ rows.map fun r => if c r then f r else r, P x := by
  intro x hx
  obtain ⟨r, hr, rfl⟩ := List.mem_map.mp hx
  split
  · next hc => exact hf r (h r hr) hc
  · exact h r hr

theorem forall_mem_filter {α : Type} {P : α → Prop} {rows : List α} (h : ∀ x ∈ rows, P x)
    (p : α → Bool) : ∀ x ∈ rows.filter p, P x :=
  fun x hx => h x (List.mem_of_mem_filter hx)

theorem Statement.exec_sound {t t' : Tables} (stmt : Statement) (h : t.Sound)
    (hexec : stmt.exec t = some t') : t'.Sound := by
  cases stmt with
  | insertProxy p =>
    simp only [exec, Option.ite_none_right_eq_some, Option.some.injEq] at hexec
    obtain ⟨-, rfl⟩ := hexec
    exact { h with
      proxies := h.proxies.insert rfl
      proxyWritten := forall_mem_snoc h.proxyWritten (proxyToRow_written _ p) }
  | updateProxy p =>
    simp only [exec, Option.ite_none_left_eq_some, Option.some.injEq] at hexec
    obtain ⟨-, rfl⟩ := hexec
    have hkey : ∀ r : ProxyRow, (if r.id = p.id then proxyToRow r.id p else r).id = r.id := by
      intro r
      split <;> rfl
    exact { h with
      proxies := h.proxies.map hkey
      proxyWritten := forall_mem_update h.proxyWritten fun r _ _ => proxyToRow_written _ p }
  | deleteProxy id =>
    simp only [exec, Option.ite_none_left_eq_some, Option.some.injEq] at hexec
    obtain ⟨-, rfl⟩ := hexec
    exact { h with
      proxies := h.proxies.filter _
      proxyWritten := forall_mem_filter h.proxyWritten _ }
  | updateHealth id health latencyMs =>
    obtain rfl := Option.some.inj hexec
    have hkey : ∀ r : ProxyRow, (if (r.id : Int) = id then
        { r with health := health, latencyMs := intOfUInt32 (uint32OfInt latencyMs) } else r).id =
          r.id := by
      intro r
      split <;> rfl
    exact { h with
      proxies := h.proxies.map hkey
      proxyWritten := forall_mem_update h.proxyWritten fun r hr _ => hr.health health _ }
  | insertRule r =>
    simp only [exec, Option.ite_none_right_eq_some, Option.some.injEq] at hexec
    obtain ⟨-, rfl⟩ := hexec
    exact { h with
      rules := h.rules.insert rfl
      ruleWritten := forall_mem_snoc h.ruleWritten (ruleToRow_written _ r) }
  | updateRule r =>
    simp only [exec, Option.ite_none_left_eq_some, Option.some.injEq] at hexec
    obtain ⟨-, rfl⟩ := hexec
    have hkey : ∀ row : RuleRow, (if row.id = r.id then ruleToRow r.id r else row).id = row.id := by
      intro row
      split
      · next heq => exact heq.symm
      · rfl
    exact { h with
      rules := h.rules.map hkey
      ruleWritten := forall_mem_update h.ruleWritten fun _ _ _ => ruleToRow_written _ r }
  | deleteRule id =>
    obtain rfl := Option.some.inj hexec
    exact { h with
      rules := h.rules.filter _
      ruleWritten := forall_mem_filter h.ruleWritten _ }
  | setPriority priority id =>
    obtain rfl := Option.some.inj hexec
    have hkey : ∀ row : RuleRow,
        (if (row.id : Int) = id then { row with priority := priority } else row).id = row.id := by
      intro row
      split <;> rfl
    exact { h with
      rules := h.rules.map hkey
      ruleWritten := forall_mem_update h.ruleWritten fun row hrow _ => hrow.priority priority }
  | insertChain name enabled =>
    simp only [exec, Option.ite_none_right_eq_some, Option.some.injEq] at hexec
    obtain ⟨-, rfl⟩ := hexec
    exact { h with
      chains := h.chains.insert rfl
      hopChain := fun hop hhop => by
        obtain ⟨r, hr, heq⟩ := h.hopChain hop hhop
        exact ⟨r, List.mem_append_left _ hr, heq⟩
      chainWritten := forall_mem_snoc h.chainWritten (chainRow_written _ name enabled) }
  | updateChain id name enabled =>
    simp only [exec, Option.ite_none_left_eq_some, Option.some.injEq] at hexec
    obtain ⟨-, rfl⟩ := hexec
    have hkey : ∀ r : ChainRow,
        (if r.id = id then ⟨r.id, name.chars, enabled⟩ else r : ChainRow).id = r.id := by
      intro r
      split <;> rfl
    exact { h with
      chains := h.chains.map hkey
      hopChain := fun hop hhop => by
        obtain ⟨r, hr, heq⟩ := h.hopChain hop hhop
        exact ⟨_, List.mem_map_of_mem hr, (hkey r).trans heq⟩
      chainWritten := forall_mem_update h.chainWritten fun _ _ _ => chainRow_written _ name enabled }
  | deleteChain id =>
    simp only [exec, Option.ite_none_left_eq_some, Option.some.injEq] at hexec
    obtain ⟨-, rfl⟩ := hexec
    exact { h with
      chains := h.chains.filter _
      hops := h.hops.filter _
      hopChain := fun hop hhop => by
        obtain ⟨hmem, hne⟩ := List.mem_filter.mp hhop
        obtain ⟨r, hr, heq⟩ := h.hopChain hop hmem
        rw [← heq] at hne
        exact ⟨r, List.mem_filter.mpr ⟨hr, hne⟩, heq⟩
      chainWritten := forall_mem_filter h.chainWritten _ }
  | deleteHops chainId =>
    obtain rfl := Option.some.inj hexec
    exact { h with
      hops := h.hops.filter _
      hopChain := forall_mem_filter h.hopChain _ }
  | insertHop chainId proxyId hopOrder =>
    simp only [exec, Option.ite_none_right_eq_some, Option.some.injEq] at hexec
    obtain ⟨hok, rfl⟩ := hexec
    simp only [Bool.and_eq_true, Tables.hasChain, List.any_eq_true, decide_eq_true_eq] at hok
    exact { h with
      hops := h.hops.insert rfl
      hopChain := forall_mem_snoc h.hopChain hok.1.1 }
  | setConfig key value =>
    obtain rfl := Option.some.inj hexec
    exact { h with }

/-- A database as the statements leave it. -/
structure Store where
  tables : Tables
  sound : tables.Sound

def Store.exec (st : Store) (stmt : Statement) : Option Store :=
  match h : stmt.exec st.tables with
  | none => none
  | some t => some ⟨t, stmt.exec_sound st.sound h⟩

theorem Store.ext_tables {st st' : Store} (h : st.tables = st'.tables) : st = st' := by
  obtain ⟨t, _⟩ := st
  obtain rfl : t = st'.tables := h
  rfl

theorem Store.exec_eq_some {st st' : Store} {stmt : Statement} :
    st.exec stmt = some st' ↔ stmt.exec st.tables = some st'.tables := by
  unfold Store.exec
  split
  · next h => simp [h]
  · next t h =>
    constructor
    · intro heq
      rw [← Option.some.inj heq]
      exact h
    · intro heq
      exact congrArg some (Store.ext_tables (Option.some.inj (h.symm.trans heq)))

theorem Store.exec_eq_none {st : Store} {stmt : Statement} :
    st.exec stmt = none ↔ stmt.exec st.tables = none := by
  unfold Store.exec
  split
  · next h => simp [h]
  · next t h => simp [h]

theorem Store.map_tables_exec (st : Store) (stmt : Statement) :
    (st.exec stmt).map Store.tables = stmt.exec st.tables := by
  cases hexec : st.exec stmt with
  | none => exact (Store.exec_eq_none.mp hexec).symm
  | some st' => exact (Store.exec_eq_some.mp hexec).symm

def Store.empty : Store := ⟨.empty, Tables.empty_sound⟩

/-- Whatever the statements make of an empty database is sound. -/
theorem Store.reach_sound {t : Tables}
    (h : Runs.Reach Statement.exec (fun _ _ => True) (· = Tables.empty) t) : t.Sound :=
  h.invariant (fun _ hs => hs ▸ Tables.empty_sound) fun _ stmt _ hs _ hexec =>
    stmt.exec_sound hs hexec

end Proxiflare.Daemon
