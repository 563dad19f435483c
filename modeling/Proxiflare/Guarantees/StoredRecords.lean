import Proxiflare.Daemon.Sessions

/-!
# What is stored is read back

A record written by an INSERT or an UPDATE of `config.c` stands in its table, its id is
the only one of its kind there, and the row reads back as the record.
-/

namespace Proxiflare.Guarantees.StoredRecords

open Lib.CString Lib
open Proxiflare.Daemon

variable {t : Tables} {s s' : Session}

/-! ## Reading the row with an id -/

theorem ruleGet_of_mem (hs : t.Sound) {row : RuleRow} (h : row ∈ t.rules) :
    pfConfigRuleGet t.db row.id = some (rowToRule row) := by
  have hfind := hs.rules.find? h (p := fun r => ((r.id : Int) = row.id : Bool)) (by simp)
  exact congrArg (Option.map rowToRule) hfind

theorem proxyGet_of_mem (hs : t.Sound) {row : ProxyRow} (h : row ∈ t.proxies) :
    pfConfigProxyGet t.db row.id = some (rowToProxy row) := by
  have hfind := hs.proxies.find? h (p := fun r => ((r.id : Int) = row.id : Bool)) (by simp)
  exact congrArg (Option.map rowToProxy) hfind

/-- A chain is its row and the hops loaded for it. -/
theorem chainGet_of_mem (hs : t.Sound) (c : Chain)
    (h : (⟨c.id, c.name.chars, c.enabled⟩ : ChainRow) ∈ t.chains)
    (hhops : loadChainHops t.db c.id = c.hops) : pfConfigChainGet t.db c.id = some c := by
  have hfind := hs.chains.find? h (p := fun r => ((r.id : Int) = c.id : Bool)) (by simp)
  unfold pfConfigChainGet
  rw [show t.db.chains.find? (fun r => ((r.id : Int) = c.id : Bool)) = some _ from hfind]
  simp only [Option.map_some, CBuf.snprintf_chars, hhops]

/-! ## The hops of a chain -/

theorem mem_hopRows {chainId i : Nat} {hops : List Nat} {row : ChainHopRow}
    (h : row ∈ Session.hopRows chainId i hops) : row.chainId = chainId ∧ (i : Int) ≤ row.hopOrder := by
  induction hops generalizing i with
  | nil => cases h
  | cons hop hops ih =>
    rcases List.mem_cons.mp h with rfl | h
    · exact ⟨rfl, Int.le_refl _⟩
    · obtain ⟨hid, hle⟩ := ih h
      exact ⟨hid, by omega⟩

theorem map_proxyId_hopRows (chainId i : Nat) (hops : List Nat) :
    (Session.hopRows chainId i hops).map ChainHopRow.proxyId = hops := by
  induction hops generalizing i with
  | nil => rfl
  | cons hop hops ih => rw [Session.hopRows, List.map_cons, ih]

theorem hopRows_sorted (chainId i : Nat) (hops : List Nat) :
    (Session.hopRows chainId i hops).Pairwise fun a b => a.hopOrder ≤ b.hopOrder := by
  induction hops generalizing i with
  | nil => exact .nil
  | cons hop hops ih =>
    refine .cons (fun row hrow => ?_) (ih (i + 1))
    have hle := (mem_hopRows hrow).2
    show (i : Int) ≤ row.hopOrder
    omega

/-- The chain's rows, in the order they were inserted. -/
theorem loadChainHops_withHops {chainId : Nat} {hops : List Nat} (hlen : hops.length ≤ pfMaxHops)
    (hnone : ∀ h ∈ t.hops, h.2.chainId ≠ chainId) :
    loadChainHops (Session.withHops t (Session.hopRows chainId 0 hops)).db chainId = hops := by
  have hrows : (Session.withHops t (Session.hopRows chainId 0 hops)).db.chainHops =
      t.hops.map Prod.snd ++ Session.hopRows chainId 0 hops := by
    show (t.hops ++ Session.numbered t.hopSeq (Session.hopRows chainId 0 hops)).map Prod.snd = _
    rw [List.map_append, Session.map_snd_numbered]
  have hold : (t.hops.map Prod.snd).filter (fun h => h.chainId = chainId) = [] := by
    rw [List.filter_eq_nil_iff]
    intro row hrow
    obtain ⟨h, hmem, rfl⟩ := List.mem_map.mp hrow
    exact fun heq => hnone h hmem (of_decide_eq_true heq)
  have hnew : (Session.hopRows chainId 0 hops).filter (fun h => h.chainId = chainId) =
      Session.hopRows chainId 0 hops := by
    rw [List.filter_eq_self]
    exact fun row hrow => decide_eq_true (mem_hopRows hrow).1
  unfold loadChainHops
  rw [hrows, List.filter_append, hold, hnew, List.nil_append,
    (hopRows_sorted chainId 0 hops).insertionSort_eq, map_proxyId_hopRows, List.take_of_length_le hlen]

theorem insertHops_tables {chainId i : Nat} {hops : List Nat}
    (h : Act.Gives (Session.insertHops chainId i hops) s ⟨⟩ s') :
    s'.tables = Session.withHops s.tables (Session.hopRows chainId i hops) := by
  obtain ⟨n, -, htables, hall, -⟩ := Session.insertHops_writes chainId i hops s
  rw [show Session.insertHops chainId i hops s = (some ⟨⟩, s') from h] at htables hall
  rw [hall nofun, List.take_length] at htables
  exact htables

/-! ## Each record -/

theorem rule_add {r : Rule} (h : Act.Gives (Session.pfConfigRuleAdd r) s ⟨⟩ s') :
    pfConfigRuleGet s'.db s'.tables.ruleSeq = some { r with id := s'.tables.ruleSeq } := by
  obtain ⟨-, hexec, -⟩ := Session.statement_gives_iff.mp h
  simp only [Statement.exec, Option.ite_none_right_eq_some, Option.some.injEq] at hexec
  have hmem : ruleToRow s'.tables.ruleSeq r ∈ s'.tables.rules := by
    rw [← hexec.2]
    exact List.mem_append_right _ (List.mem_singleton_self _)
  rw [← rowToRule_ruleToRow]
  exact ruleGet_of_mem s'.store.sound hmem

theorem rule_update {r : Rule} (hold : (pfConfigRuleGet s.db r.id).isSome = true)
    (h : Act.Gives (Session.pfConfigRuleUpdate r) s ⟨⟩ s') :
    pfConfigRuleGet s'.db r.id = some r := by
  obtain ⟨stored, hstored⟩ := Option.isSome_iff_exists.mp hold
  obtain ⟨row, hrow, rfl, hid⟩ := pfConfigRuleGet_some hstored
  obtain ⟨-, hexec, -⟩ := Session.statement_gives_iff.mp h
  simp only [Statement.exec, Option.ite_none_left_eq_some, Option.some.injEq] at hexec
  have hmem : ruleToRow r.id r ∈ s'.tables.rules := by
    rw [← hexec.2]
    exact List.mem_map.mpr ⟨row, hrow, if_pos (by simpa using hid)⟩
  have hget := ruleGet_of_mem s'.store.sound hmem
  rw [rowToRule_ruleToRow] at hget
  exact hget

theorem proxy_add {p : Proxy} (h : Act.Gives (Session.pfConfigProxyAdd p) s ⟨⟩ s') :
    pfConfigProxyGet s'.db s'.tables.proxySeq = some { p with id := s'.tables.proxySeq } := by
  obtain ⟨-, hexec, -⟩ := Session.statement_gives_iff.mp h
  simp only [Statement.exec, Option.ite_none_right_eq_some, Option.some.injEq] at hexec
  have hmem : proxyToRow s'.tables.proxySeq p ∈ s'.tables.proxies := by
    rw [← hexec.2]
    exact List.mem_append_right _ (List.mem_singleton_self _)
  rw [← rowToProxy_proxyToRow]
  exact proxyGet_of_mem s'.store.sound hmem

theorem proxy_update {p : Proxy} (hold : (pfConfigProxyGet s.db p.id).isSome = true)
    (h : Act.Gives (Session.pfConfigProxyUpdate p) s ⟨⟩ s') :
    pfConfigProxyGet s'.db p.id = some p := by
  obtain ⟨row, hrow⟩ := Option.isSome_iff_exists.mp ((Option.isSome_map).symm.trans hold)
  have hid : row.id = p.id := by simpa using List.find?_some hrow
  obtain ⟨-, hexec, -⟩ := Session.statement_gives_iff.mp h
  simp only [Statement.exec, Option.ite_none_left_eq_some, Option.some.injEq] at hexec
  have hmem : proxyToRow p.id p ∈ s'.tables.proxies := by
    rw [← hexec.2]
    exact List.mem_map.mpr ⟨row, List.mem_of_find?_eq_some hrow, by rw [if_pos hid, hid]⟩
  have hget := proxyGet_of_mem s'.store.sound hmem
  rw [rowToProxy_proxyToRow] at hget
  exact hget

/-- No hop is under the number a new chain takes. -/
theorem insertChain_noHops {name : CBuf 64} {enabled : Int} (hs : s.tables.Sound)
    (h : (Statement.insertChain name enabled).exec s.tables = some t) :
    ∀ x ∈ t.hops, x.2.chainId ≠ t.chainSeq := by
  simp only [Statement.exec, Option.ite_none_right_eq_some, Option.some.injEq] at h
  intro x hx heq
  rw [← h.2] at hx heq
  obtain ⟨row, hmem, hown⟩ := hs.hopChain x hx
  have hle := hs.chains.le row hmem
  have hnew : x.2.chainId = s.tables.chainSeq + 1 := heq
  change row.id ≤ s.tables.chainSeq at hle
  omega

/-- A new chain has the hops inserted for it and no others. -/
theorem chain_add {c : Chain} (h : Act.Gives (Session.pfConfigChainAdd c) s ⟨⟩ s') :
    pfConfigChainGet s'.db s'.tables.chainSeq = some { c with id := s'.tables.chainSeq } := by
  obtain ⟨_, s₁, hrow, h⟩ := Act.gives_bind_iff.mp h
  obtain ⟨id, s₂, hlast, hhops⟩ := Act.gives_bind_iff.mp h
  obtain ⟨hid, rfl⟩ := Prod.mk.inj hlast
  obtain rfl := Option.some.inj hid
  obtain ⟨-, hexec, -⟩ := Session.statement_gives_iff.mp hrow
  have hnone := insertChain_noHops s.store.sound hexec
  simp only [Statement.exec, Option.ite_none_right_eq_some, Option.some.injEq] at hexec
  have htables := insertHops_tables hhops
  have hseq : s₁.tables.chainSeq = s'.tables.chainSeq := by
    rw [htables]
    rfl
  have hload := loadChainHops_withHops c.hopsFit hnone
  rw [← htables, hseq] at hload
  apply chainGet_of_mem s'.store.sound { c with id := s'.tables.chainSeq } _ hload
  show _ ∈ s'.tables.chains
  rw [htables, ← hexec.2]
  exact List.mem_append_right _ (List.mem_singleton_self _)

theorem chain_update {c : Chain} (hold : (pfConfigChainGet s.db c.id).isSome = true)
    (h : Act.Gives (Session.pfConfigChainUpdate c) s ⟨⟩ s') :
    pfConfigChainGet s'.db c.id = some c := by
  obtain ⟨row, hrow⟩ := Option.isSome_iff_exists.mp ((Option.isSome_map).symm.trans hold)
  have hid : row.id = c.id := by simpa using List.find?_some hrow
  obtain ⟨_, s₁, hupdate, h⟩ := Act.gives_bind_iff.mp h
  obtain ⟨_, s₂, hdelete, hhops⟩ := Act.gives_bind_iff.mp h
  obtain ⟨-, hexec, -⟩ := Session.statement_gives_iff.mp hupdate
  obtain ⟨-, hexec', -⟩ := Session.statement_gives_iff.mp hdelete
  simp only [Statement.exec, Option.ite_none_left_eq_some, Option.some.injEq] at hexec hexec'
  have htables := insertHops_tables hhops
  have hnone : ∀ x ∈ s₂.tables.hops, x.2.chainId ≠ c.id := by
    intro x hx
    rw [← hexec'] at hx
    exact of_decide_eq_true (List.mem_filter.mp hx).2
  have hload := loadChainHops_withHops c.hopsFit hnone
  rw [← htables] at hload
  apply chainGet_of_mem s'.store.sound c _ hload
  show _ ∈ s'.tables.chains
  rw [htables, ← hexec', ← hexec.2]
  exact List.mem_map.mpr ⟨row, List.mem_of_find?_eq_some hrow, by rw [if_pos hid, hid]⟩

/-- For every database, every record and every outcome of SQLite's calls in which the write
succeeds. -/
theorem records_survive (s s' : Session) :
    (∀ r, Act.Gives (Session.pfConfigRuleAdd r) s ⟨⟩ s' →
      pfConfigRuleGet s'.db s'.tables.ruleSeq = some { r with id := s'.tables.ruleSeq }) ∧
    (∀ r, (pfConfigRuleGet s.db r.id).isSome = true →
      Act.Gives (Session.pfConfigRuleUpdate r) s ⟨⟩ s' → pfConfigRuleGet s'.db r.id = some r) ∧
    (∀ p, Act.Gives (Session.pfConfigProxyAdd p) s ⟨⟩ s' →
      pfConfigProxyGet s'.db s'.tables.proxySeq = some { p with id := s'.tables.proxySeq }) ∧
    (∀ p, (pfConfigProxyGet s.db p.id).isSome = true →
      Act.Gives (Session.pfConfigProxyUpdate p) s ⟨⟩ s' → pfConfigProxyGet s'.db p.id = some p) ∧
    (∀ c, Act.Gives (Session.pfConfigChainAdd c) s ⟨⟩ s' →
      pfConfigChainGet s'.db s'.tables.chainSeq = some { c with id := s'.tables.chainSeq }) ∧
    (∀ c, (pfConfigChainGet s.db c.id).isSome = true →
      Act.Gives (Session.pfConfigChainUpdate c) s ⟨⟩ s' →
        pfConfigChainGet s'.db c.id = some c) :=
  ⟨fun _ h => rule_add h, fun _ hold h => rule_update hold h, fun _ h => proxy_add h,
    fun _ hold h => proxy_update hold h, fun _ h => chain_add h, fun _ hold h => chain_update hold h⟩

def sampleProxy : Proxy :=
  ⟨1, .snprintf (lit "p"), .http, .snprintf (lit "10.0.0.1"), 8080, .empty, .empty, .empty, 0, 0, 1⟩

def withProxy : Session := (Session.pfConfigProxyAdd sampleProxy ⟨.empty, []⟩).2

def sampleChain : Chain := ⟨1, .snprintf (lit "c"), [1, 1], by decide, 1⟩

def withChain : Session := (Session.pfConfigChainAdd sampleChain withProxy).2

def shortened : Chain := { sampleChain with hops := [1], hopsFit := by decide }

/-- A proxy and a chain through it, then the chain with one hop less. -/
theorem samples_survive :
    pfConfigProxyGet withProxy.db 1 = some sampleProxy ∧
      pfConfigChainGet withChain.db 1 = some sampleChain ∧
      pfConfigChainGet (Session.pfConfigChainUpdate shortened withChain).2.db 1 = some shortened :=
  ⟨(records_survive ⟨.empty, []⟩ withProxy).2.2.1 sampleProxy (Act.gives_of_fst (by decide)),
    (records_survive withProxy withChain).2.2.2.2.1 sampleChain (Act.gives_of_fst (by decide)),
    (records_survive withChain (Session.pfConfigChainUpdate shortened withChain).2).2.2.2.2.2
      shortened (by decide) (Act.gives_of_fst (by decide))⟩

end Proxiflare.Guarantees.StoredRecords
