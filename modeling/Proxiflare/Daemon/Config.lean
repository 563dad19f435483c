import Proxiflare.Daemon.Types
import Mathlib.Data.List.Sort

/-!
# The configuration database

`daemon/src/config.c` over tables kept as lists in rowid order. Every statement
is taken to execute; what remains of SQLite are its constraints (`PRIMARY KEY`,
`UNIQUE`, `REFERENCES`), its `ORDER BY`, and the column conversions. A statement
that violates a constraint gives `none` (`PF_ERR_DB`).
-/

namespace Proxiflare.Daemon

open Lib.CString

structure ProxyRow where
  id : Nat
  name : CStr
  type : CStr
  host : CStr
  port : Int
  username : Option CStr
  password : Option CStr
  sshKey : Option CStr
  enabled : Int
  health : Int
  latencyMs : Int
  deriving DecidableEq

structure ChainRow where
  id : Nat
  name : CStr
  enabled : Int
  deriving DecidableEq

structure ChainHopRow where
  chainId : Nat
  proxyId : Nat
  hopOrder : Int
  deriving DecidableEq

structure RuleRow where
  id : Nat
  name : CStr
  enabled : Int
  priority : Int
  matchApp : Option CStr
  matchDomain : Option CStr
  matchIp : Option CStr
  matchPort : Option Int
  action : CStr
  proxyId : Option Nat
  chainId : Option Nat
  deriving DecidableEq

/-- `ruleSeq` is the AUTOINCREMENT counter of the rules table. -/
structure Db where
  proxies : List ProxyRow
  chains : List ChainRow
  chainHops : List ChainHopRow
  rules : List RuleRow
  ruleSeq : Nat
  config : List (CStr × CStr)
  deriving DecidableEq

def Db.empty : Db := ⟨[], [], [], [], 0, []⟩

/-- `(uint16_t)` of a C integer. -/
def toUInt16 (n : Int) : UInt16 := UInt16.ofNat (n % 65536).toNat

/-- `(uint32_t)` of an `int`, and back. -/
def uint32OfInt (n : Int) : UInt32 := UInt32.ofNat (n % 4294967296).toNat

def intOfUInt32 (n : UInt32) : Int := (n.toNat : Int).bmod 4294967296

/-- A nullable text column copied into a zeroed buffer. -/
def columnText {cap : Nat} [BufSize cap] (c : Option CStr) : CBuf cap := .snprintf (c.getD [])

/-! ## Proxies -/

def rowToProxy (st : ProxyRow) : Proxy where
  id := st.id
  name := .snprintf st.name
  type := pfProxyTypeFromStr (some st.type)
  host := .snprintf st.host
  port := toUInt16 st.port
  username := columnText st.username
  password := columnText st.password
  sshKeyPath := columnText st.sshKey
  health := st.health
  latencyMs := uint32OfInt st.latencyMs
  enabled := st.enabled

/-- An empty buffer is bound as NULL. -/
def bindText {cap : Nat} (b : CBuf cap) : Option CStr := if b.nonempty then some b.chars else none

def proxyToRow (id : Nat) (p : Proxy) : ProxyRow where
  id := id
  name := p.name.chars
  type := pfProxyTypeStr p.type
  host := p.host.chars
  port := p.port.toNat
  username := bindText p.username
  password := bindText p.password
  sshKey := bindText p.sshKeyPath
  enabled := p.enabled
  health := p.health
  latencyMs := intOfUInt32 p.latencyMs

/-- `SELECT … ORDER BY name`, at most `max` rows. -/
def pfConfigProxyList (db : Db) (max : Nat) : List Proxy :=
  ((db.proxies.insertionSort fun a b => a.name ≤ b.name).take max).map rowToProxy

def pfConfigProxyGet (db : Db) (id : Int) : Option Proxy :=
  (db.proxies.find? fun r => (r.id : Int) = id).map rowToProxy

/-- `UPDATE … WHERE id=?`; the name must stay unique. -/
def pfConfigProxyUpdate (db : Db) (p : Proxy) : Option Db :=
  if db.proxies.any fun r => r.id ≠ p.id && r.name = p.name.chars then none
  else some { db with proxies := db.proxies.map fun r => if r.id = p.id then proxyToRow r.id p else r }

/-! ## Rules -/

def rowToRule (st : RuleRow) : Rule where
  id := st.id
  name := .snprintf st.name
  priority := st.priority
  appPath := columnText st.matchApp
  domain := columnText st.matchDomain
  ipCidr := columnText st.matchIp
  dstPort := toUInt16 (st.matchPort.getD 0)
  action := pfActionFromStr (some st.action)
  proxyId := st.proxyId.getD 0
  chainId := st.chainId.getD 0
  enabled := st.enabled

def ruleToRow (id : Nat) (r : Rule) : RuleRow where
  id := id
  name := r.name.chars
  enabled := r.enabled
  priority := r.priority
  matchApp := bindText r.appPath
  matchDomain := bindText r.domain
  matchIp := bindText r.ipCidr
  matchPort := if r.dstPort = 0 then none else some r.dstPort.toNat
  action := pfActionStr r.action
  proxyId := if r.proxyId = 0 then none else some r.proxyId
  chainId := if r.chainId = 0 then none else some r.chainId

/-- `SELECT … ORDER BY priority ASC`, at most `max` rows. -/
def pfConfigRuleList (db : Db) (max : Nat) : List Rule :=
  ((db.rules.insertionSort fun a b => a.priority ≤ b.priority).take max).map rowToRule

def pfConfigRuleGet (db : Db) (id : Int) : Option Rule :=
  (db.rules.find? fun r => (r.id : Int) = id).map rowToRule

/-- The `REFERENCES` clauses of the rules table. -/
def ruleRefsOk (db : Db) (r : RuleRow) : Bool :=
  (r.proxyId.all fun id => db.proxies.any fun p => p.id = id) &&
    (r.chainId.all fun id => db.chains.any fun c => c.id = id)

/-- Also returns the rowid `pf_config_last_id` reports next. -/
def pfConfigRuleAdd (db : Db) (r : Rule) : Option (Db × Nat) :=
  let id := db.ruleSeq + 1
  if ruleRefsOk db (ruleToRow id r) then
    some ({ db with rules := db.rules ++ [ruleToRow id r], ruleSeq := id }, id)
  else none

def pfConfigRuleUpdate (db : Db) (r : Rule) : Option Db :=
  if ruleRefsOk db (ruleToRow r.id r) then
    some { db with rules := db.rules.map fun row => if row.id = r.id then ruleToRow r.id r else row }
  else none

def pfConfigRuleDelete (db : Db) (id : Int) : Db :=
  { db with rules := db.rules.filter fun row => (row.id : Int) ≠ id }

/-! ## Chains and settings -/

/-- `SELECT proxy_id … ORDER BY hop_order ASC`, at most `PF_MAX_HOPS` rows. -/
def loadChainHops (db : Db) (chainId : Nat) : List Nat :=
  (((db.chainHops.filter fun h => h.chainId = chainId).insertionSort
    fun a b => a.hopOrder ≤ b.hopOrder).map ChainHopRow.proxyId).take pfMaxHops

def pfConfigChainGet (db : Db) (id : Int) : Option Chain :=
  (db.chains.find? fun r => (r.id : Int) = id).map fun st =>
    { id := st.id
      name := .snprintf st.name
      hops := loadChainHops db st.id
      hopsFit := List.length_take_le _ _
      enabled := st.enabled }

def pfConfigGet (db : Db) (key : CStr) : Option CStr :=
  (db.config.find? fun kv => kv.1 = key).map Prod.snd

/-- `INSERT OR REPLACE`: a row with the key makes way for the new one. -/
def pfConfigSet (db : Db) (key value : CStr) : Db :=
  { db with config := db.config.filter (fun kv => kv.1 ≠ key) ++ [(key, value)] }

/-- `pf_config_get` into a `char buf[cap]` that holds a default. -/
def configText (cap : Nat) [BufSize cap] (db : Db) (key default : String) : CStr :=
  ((pfConfigGet db (lit key)).map fun v => (CBuf.snprintf v : CBuf cap).chars).getD (lit default)

@[simp] theorem pfConfigGet_set_self (db : Db) (key value : CStr) :
    pfConfigGet (pfConfigSet db key value) key = some value := by
  have hold : (db.config.filter fun kv => kv.1 ≠ key).find? (fun kv => kv.1 = key) = none := by
    simp
  rw [pfConfigGet, pfConfigSet, List.find?_append, hold, Option.none_or, List.find?_singleton]
  simp

theorem pfConfigGet_set_of_ne (db : Db) {key key' : CStr} (value : CStr) (h : key' ≠ key) :
    pfConfigGet (pfConfigSet db key value) key' = pfConfigGet db key' := by
  have hnew : [(key, value)].find? (fun kv => kv.1 = key') = none := by simp [h.symm]
  have hold : (db.config.filter fun kv => kv.1 ≠ key).find? (fun kv => kv.1 = key') =
      db.config.find? fun kv => kv.1 = key' := by
    rw [List.find?_filter]
    refine congrArg (db.config.find? ·) (funext fun kv => ?_)
    by_cases hk : kv.1 = key' <;> simp [hk, h]
  rw [pfConfigGet, pfConfigSet, List.find?_append, hnew, hold, Option.or_none]
  rfl

/-! ## Rows read back -/

@[simp] theorem rowToProxy_id (st : ProxyRow) : (rowToProxy st).id = st.id := rfl

@[simp] theorem rowToProxy_enabled (st : ProxyRow) : (rowToProxy st).enabled = st.enabled := rfl

@[simp] theorem columnText_bindText {cap : Nat} [BufSize cap] (b : CBuf cap) :
    columnText (bindText b) = b := by
  unfold columnText bindText
  split
  · exact CBuf.snprintf_chars b
  · next h =>
    have hnil : b.chars = [] := by simpa [CBuf.nonempty] using h
    rw [Option.getD_none, ← hnil]
    exact CBuf.snprintf_chars b

@[simp] theorem toUInt16_toNat (p : UInt16) : toUInt16 p.toNat = p := by
  have hlt := p.toNat_lt
  have hmod : (p.toNat : Int) % 65536 = p.toNat := by omega
  rw [toUInt16, hmod, Int.toNat_natCast, UInt16.ofNat_toNat]

@[simp] theorem uint32OfInt_intOfUInt32 (n : UInt32) : uint32OfInt (intOfUInt32 n) = n := by
  have hlt := n.toNat_lt
  have hmod : (intOfUInt32 n % 4294967296).toNat = n.toNat := by
    unfold intOfUInt32
    have hcast : (n.toNat : Int).bmod 4294967296 % 4294967296 = n.toNat % 4294967296 :=
      Int.bmod_emod
    omega
  rw [uint32OfInt, hmod, UInt32.ofNat_toNat]

/-- A proxy reads back as it was written, under the rowid. -/
theorem rowToProxy_proxyToRow (id : Nat) (p : Proxy) :
    rowToProxy (proxyToRow id p) = { p with id := id } := by
  simp only [rowToProxy, proxyToRow, CBuf.snprintf_chars, columnText_bindText, toUInt16_toNat,
    pfProxyTypeFromStr_str, uint32OfInt_intOfUInt32]

/-- A rule reads back as it was written, under the rowid. -/
theorem rowToRule_ruleToRow (id : Nat) (r : Rule) :
    rowToRule (ruleToRow id r) = { r with id := id } := by
  have hport : toUInt16 ((if r.dstPort = 0 then none else some (r.dstPort.toNat : Int)).getD 0) =
      r.dstPort := by
    split
    · next h => rw [h]; rfl
    · exact toUInt16_toNat r.dstPort
  have href : ∀ n : Nat, (if n = 0 then none else some n).getD 0 = n := by
    intro n
    split
    · next h => exact h.symm
    · rfl
  simp only [rowToRule, ruleToRow, CBuf.snprintf_chars, columnText_bindText, hport, href,
    pfActionFromStr_str]

@[simp] theorem rowToRule_id (st : RuleRow) : (rowToRule st).id = st.id := rfl

theorem pfConfigRuleGet_some {db : Db} {id : Int} {r : Rule} (h : pfConfigRuleGet db id = some r) :
    ∃ st ∈ db.rules, rowToRule st = r ∧ (r.id : Int) = id := by
  obtain ⟨st, hst, rfl⟩ := Option.map_eq_some_iff.mp h
  exact ⟨st, List.mem_of_find?_eq_some hst, rfl, by simpa using List.find?_some hst⟩

theorem pfConfigProxyGet_some {db : Db} {id : Int} {p : Proxy}
    (h : pfConfigProxyGet db id = some p) : ∃ st ∈ db.proxies, rowToProxy st = p := by
  obtain ⟨st, hst, rfl⟩ := Option.map_eq_some_iff.mp h
  exact ⟨st, List.mem_of_find?_eq_some hst, rfl⟩

/-- The query order is the priority order. -/
theorem pfConfigRuleList_sorted (db : Db) (max : Nat) :
    (pfConfigRuleList db max).Pairwise fun a b => a.priority ≤ b.priority := by
  unfold pfConfigRuleList
  rw [List.pairwise_map]
  have hs := List.pairwise_insertionSort (fun a b : RuleRow => a.priority ≤ b.priority) db.rules
  exact hs.sublist (List.take_sublist _ _)

/-! ## What the constraints keep -/

/-- Rowids are unique, rule ids never exceed the counter, and a proxy's flag is 0 or 1. -/
structure Db.Sound (db : Db) : Prop where
  ruleIds : (db.rules.map RuleRow.id).Nodup
  ruleSeq : ∀ row ∈ db.rules, row.id ≤ db.ruleSeq
  proxyIds : (db.proxies.map ProxyRow.id).Nodup
  proxyFlags : ∀ row ∈ db.proxies, row.enabled = 0 ∨ row.enabled = 1

theorem Db.Sound.ruleAdd {db db' : Db} {r : Rule} {id : Nat} (h : db.Sound)
    (hadd : pfConfigRuleAdd db r = some (db', id)) : db'.Sound := by
  simp only [pfConfigRuleAdd, Option.ite_none_right_eq_some, Option.some.injEq,
    Prod.mk.injEq] at hadd
  obtain ⟨-, rfl, rfl⟩ := hadd
  have hnew : db.ruleSeq + 1 ∉ db.rules.map RuleRow.id := by
    intro hmem
    obtain ⟨row, hrow, heq⟩ := List.mem_map.mp hmem
    have hle := h.ruleSeq row hrow
    omega
  refine ⟨?_, fun row hrow => ?_, h.proxyIds, h.proxyFlags⟩
  · rw [List.map_append, List.nodup_append']
    exact ⟨h.ruleIds, List.nodup_singleton _, List.disjoint_singleton.mpr hnew⟩
  · rcases List.mem_append.mp hrow with hrow | hrow
    · exact (h.ruleSeq row hrow).trans (Nat.le_succ _)
    · rw [List.mem_singleton.mp hrow]
      exact le_rfl

theorem Db.Sound.ruleUpdate {db db' : Db} {r : Rule} (h : db.Sound)
    (hupd : pfConfigRuleUpdate db r = some db') : db'.Sound := by
  simp only [pfConfigRuleUpdate, Option.ite_none_right_eq_some, Option.some.injEq] at hupd
  obtain ⟨-, rfl⟩ := hupd
  have hid : ∀ row : RuleRow, (if row.id = r.id then ruleToRow r.id r else row).id = row.id := by
    intro row
    split
    · next heq => exact heq.symm
    · rfl
  refine ⟨?_, fun row hrow => ?_, h.proxyIds, h.proxyFlags⟩
  · rw [List.map_map]
    exact (List.map_congr_left fun row _ => hid row) ▸ h.ruleIds
  · obtain ⟨old, hold, rfl⟩ := List.mem_map.mp hrow
    rw [hid]
    exact h.ruleSeq old hold

theorem Db.Sound.ruleDelete {db : Db} (h : db.Sound) (id : Int) :
    (pfConfigRuleDelete db id).Sound :=
  ⟨h.ruleIds.sublist (List.filter_sublist.map _),
    fun row hrow => h.ruleSeq row (List.mem_of_mem_filter hrow), h.proxyIds, h.proxyFlags⟩

theorem Db.Sound.proxyUpdate {db db' : Db} {p : Proxy} (h : db.Sound)
    (hp : p.enabled = 0 ∨ p.enabled = 1) (hupd : pfConfigProxyUpdate db p = some db') :
    db'.Sound := by
  simp only [pfConfigProxyUpdate, Option.ite_none_left_eq_some, Option.some.injEq] at hupd
  obtain ⟨-, rfl⟩ := hupd
  have hid : ∀ row : ProxyRow, (if row.id = p.id then proxyToRow row.id p else row).id = row.id := by
    intro row
    split
    · rfl
    · rfl
  refine ⟨h.ruleIds, h.ruleSeq, ?_, fun row hrow => ?_⟩
  · rw [List.map_map]
    exact (List.map_congr_left fun row _ => hid row) ▸ h.proxyIds
  · obtain ⟨old, hold, rfl⟩ := List.mem_map.mp hrow
    split
    · exact hp
    · exact h.proxyFlags old hold

end Proxiflare.Daemon
