import Proxiflare.Guarantees.StoredRecords

/-!
# When a failed chain write leaves the tables alone

`pf_config_chain_add` and `pf_config_chain_update` write the chain's row and its hops
with one statement each and undo nothing. An error leaves both tables as they were
exactly when it comes from the first statement, or when the statements before it
had nothing to change.
-/

namespace Proxiflare.Guarantees.ChainAtomicity

open Lib.CString Lib
open Proxiflare.Daemon

/-- An error means that the tables `chains` and `chain_hops` are as before. -/
def Atomic (m : Act Session PUnit) (s : Session) : Prop :=
  (m s).1 = none → (m s).2.tables.chains = s.tables.chains ∧ (m s).2.tables.hops = s.tables.hops

/-- The INSERT of the chain is refused, or every INSERT of a hop is executed. -/
def AddHarmless (c : Chain) (s : Session) : Prop :=
  (s.failsAt 0 = true ∨ s.tables.chainNameFree (s.tables.chainSeq + 1) c.name.chars = false) ∨
    Session.HopsExecute s.tables s.fails.tail c.hops

/-- The UPDATE of the chain is refused. -/
def UpdateRefused (c : Chain) (s : Session) : Prop :=
  s.failsAt 0 = true ∨
    (s.tables.hasChain c.id = true ∧ s.tables.chainNameFree c.id c.name.chars = false)

/-- Every statement of the update is executed. -/
def UpdateExecutes (c : Chain) (s : Session) : Prop :=
  s.failsAt 1 = false ∧ (c.hops ≠ [] → s.tables.hasChain c.id = true) ∧
    Session.HopsExecute s.tables s.fails.tail.tail c.hops

/-- The UPDATE writes what is there, and either the DELETE is refused or it finds no hop and the
first INSERT of a hop is refused. -/
def UpdateIdle (c : Chain) (s : Session) : Prop :=
  (∀ r ∈ s.tables.chains, r.id = c.id → r = ⟨c.id, c.name.chars, c.enabled⟩) ∧
    (s.failsAt 1 = true ∨
      (∀ h ∈ s.tables.hops, h.2.chainId ≠ c.id) ∧
        ∀ hop ∈ c.hops.head?, s.failsAt 2 = true ∨ s.tables.hasChain c.id = false ∨
          s.tables.hasProxy hop = false)

def UpdateHarmless (c : Chain) (s : Session) : Prop :=
  UpdateRefused c s ∨ UpdateExecutes c s ∨ UpdateIdle c s

variable {c : Chain} {s t : Session}

theorem atomic_of_gives {m : Act Session PUnit} (h : (m s).1 ≠ none) : Atomic m s :=
  fun hnone => absurd hnone h

/-! ## Adding a chain -/

/-- The row of a new chain, its hops to come. -/
theorem insertChain_hopsFree (hs : s.tables.Sound) {t : Tables}
    (h : (Statement.insertChain c.name c.enabled).exec s.tables = some t) :
    Session.HopsFree t t.chainSeq 0 := by
  have hnone := StoredRecords.insertChain_noHops hs h
  refine ⟨?_, fun x hx hid => absurd hid (hnone x hx)⟩
  simp only [Statement.exec, Option.ite_none_right_eq_some, Option.some.injEq] at h
  obtain ⟨-, rfl⟩ := h
  simp [Tables.hasChain]

theorem add_atomic_iff (c : Chain) (s : Session) :
    Atomic (Session.pfConfigChainAdd c) s ↔ AddHarmless c s := by
  have hrefused : (s.failsAt 0 = true ∨
      s.tables.chainNameFree (s.tables.chainSeq + 1) c.name.chars = false) ↔
        (Session.statement (.insertChain c.name c.enabled) s).1 = none := by
    rw [Session.statement_fails_iff, Session.failsAt_zero]
    simp [Statement.exec]
  unfold AddHarmless
  rw [hrefused]
  cases hrow : Session.statement (.insertChain c.name c.enabled) s with
  | mk r s₁ =>
    cases r with
    | none =>
      have hrun : Session.pfConfigChainAdd c s = (none, s₁) := Act.bind_of_none hrow
      refine iff_of_true (fun _ => ?_) (.inl rfl)
      rw [hrun, (Session.statement_fails hrow).1]
      exact ⟨rfl, rfl⟩
    | some x =>
      have hgives : Act.Gives (Session.statement (.insertChain c.name c.enabled)) s x s₁ := hrow
      obtain ⟨-, hexec, hfails⟩ := Session.statement_gives_iff.mp hgives
      have hrun : Session.pfConfigChainAdd c s =
          Session.insertHops s₁.tables.chainSeq 0 c.hops s₁ := hgives.bind_eq
      have hsucceeds : (Session.insertHops s₁.tables.chainSeq 0 c.hops s₁).1 ≠ none ↔
          Session.HopsExecute s₁.tables s₁.fails c.hops :=
        Session.insertHops_succeeds_iff (insertChain_hopsFree s.store.sound hexec)
      simp only [Statement.exec, Option.ite_none_right_eq_some, Option.some.injEq] at hexec
      have hexecutes : Session.HopsExecute s₁.tables s₁.fails c.hops ↔
          Session.HopsExecute s.tables s.fails.tail c.hops := by
        rw [hfails, ← hexec.2]
        rfl
      rw [or_iff_right (by simp), ← hexecutes, ← hsucceeds]
      refine ⟨fun hatomic hnone => ?_, fun h => atomic_of_gives (by rw [hrun]; exact h)⟩
      -- the new row stays, so the table has grown
      have hchains := (hatomic (by rw [hrun]; exact hnone)).1
      obtain ⟨n, -, htables, -⟩ := Session.insertHops_writes s₁.tables.chainSeq 0 c.hops s₁
      rw [hrun, htables] at hchains
      have hlen := congrArg List.length hchains
      change s₁.tables.chains.length = s.tables.chains.length at hlen
      rw [← hexec.2] at hlen
      simp at hlen

/-! ## Updating a chain -/

/-- Rows under new numbers are new. -/
theorem hops_unchanged_iff {t : Tables} (hs : t.Sound) (id i : Nat) (hops : List Nat) :
    t.hops.filter (fun h => h.2.chainId ≠ id) ++
        Session.numbered t.hopSeq (Session.hopRows id i hops) = t.hops ↔
      (∀ h ∈ t.hops, h.2.chainId ≠ id) ∧ hops = [] := by
  constructor
  · intro heq
    cases hops with
    | nil =>
      rw [Session.hopRows, Session.numbered, List.append_nil, List.filter_eq_self] at heq
      exact ⟨fun h hmem => of_decide_eq_true (heq h hmem), rfl⟩
    | cons hop hops =>
      have hmem : (t.hopSeq + 1, (⟨id, hop, i⟩ : ChainHopRow)) ∈ t.hops := by
        rw [← heq]
        exact List.mem_append_right _ (List.mem_cons_self ..)
      exact absurd (hs.hops.le _ hmem) (Nat.not_succ_le_self _)
  · intro h
    rw [h.2, Session.hopRows, Session.numbered, List.append_nil, List.filter_eq_self]
    exact fun x hx => decide_eq_true (h.1 x hx)

theorem chains_unchanged_iff (rows : List ChainRow) (id : Nat) (name : CStr) (enabled : Int) :
    rows.map (fun r => if r.id = id then ⟨r.id, name, enabled⟩ else r) = rows ↔
      ∀ r ∈ rows, r.id = id → r = ⟨id, name, enabled⟩ := by
  have hrow : ∀ r : ChainRow, (if r.id = id then ⟨r.id, name, enabled⟩ else r) = r ↔
      (r.id = id → r = ⟨id, name, enabled⟩) := by
    intro r
    by_cases h : r.id = id
    · subst h
      rw [if_pos rfl, eq_comm]
      exact ⟨fun heq _ => heq, fun himp => himp rfl⟩
    · rw [if_neg h]
      exact ⟨fun _ hid => absurd hid h, fun _ => rfl⟩
  rw [map_eq_self_iff]
  exact forall₂_congr fun r _ => hrow r

/-- The INSERTs after a DELETE that was executed. -/
theorem reinsert_succeeds_iff {t : Session} (hfree : ∀ h ∈ t.tables.hops, h.2.chainId ≠ c.id) :
    (Session.insertHops c.id 0 c.hops t).1 ≠ none ↔
      (c.hops ≠ [] → t.tables.hasChain c.id = true) ∧
        Session.HopsExecute t.tables t.fails c.hops := by
  cases hchain : t.tables.hasChain c.id with
  | true =>
    rw [Session.insertHops_succeeds_iff ⟨hchain, fun h hmem hid => absurd hid (hfree h hmem)⟩]
    exact (and_iff_right fun _ => rfl).symm
  | false =>
    cases hhops : c.hops with
    | nil =>
      refine iff_of_true (Option.some_ne_none _) ⟨fun h => absurd rfl h, ?_, List.forall_mem_nil _⟩
      simp
    | cons hop hops =>
      have hrefused : (Session.statement (.insertHop c.id hop (0 : Nat)) t).1 = none := by
        rw [Session.statement_fails_iff]
        exact .inr (by rw [Statement.exec, hchain]; rfl)
      have hnone : (Session.insertHops c.id 0 (hop :: hops) t).1 = none :=
        congrArg Prod.fst (Act.bind_of_none (Prod.ext hrefused rfl))
      exact iff_of_false (fun h => h hnone) fun h => absurd (h.1 (List.cons_ne_nil _ _)) (by simp)

/-- The first INSERT after the DELETE. -/
theorem first_refused_iff {t : Session} {id hop : Nat} (hfree : ∀ h ∈ t.tables.hops, h.2.chainId ≠ id) :
    (Session.statement (.insertHop id hop (0 : Nat)) t).1 = none ↔
      t.failsNow = true ∨ t.tables.hasChain id = false ∨ t.tables.hasProxy hop = false := by
  have hexec : (Statement.insertHop id hop (0 : Nat)).exec t.tables = none ↔
      t.tables.hasChain id = false ∨ t.tables.hasProxy hop = false := by
    cases hchain : t.tables.hasChain id with
    | false => exact iff_of_true (by rw [Statement.exec, hchain]; rfl) (.inl rfl)
    | true =>
      have hexec := Session.HopsFree.exec (i := 0)
        ⟨hchain, fun h hmem hid => absurd hid (hfree h hmem)⟩ hop
      rw [hexec]
      cases t.tables.hasProxy hop <;> simp
  rw [Session.statement_fails_iff, hexec]

/-- A failed reinsertion leaves the hops as they were before the DELETE exactly when there were
none and not one was inserted. -/
theorem reinsert_keeps_iff {t : Session} {base : Tables} (hbase : base.Sound)
    (hhops : t.tables.hops = base.hops.filter fun h => h.2.chainId ≠ c.id)
    (hseq : t.tables.hopSeq = base.hopSeq)
    (hnone : (Session.insertHops c.id 0 c.hops t).1 = none) :
    (Session.insertHops c.id 0 c.hops t).2.tables.chains = t.tables.chains ∧
      ((Session.insertHops c.id 0 c.hops t).2.tables.hops = base.hops ↔
        (∀ h ∈ base.hops, h.2.chainId ≠ c.id) ∧ ∀ hop ∈ c.hops.head?,
          (Session.statement (.insertHop c.id hop (0 : Nat)) t).1 = none) := by
  obtain ⟨n, -, htables, -, hfirst⟩ := Session.insertHops_writes c.id 0 c.hops t
  have hfirst := hfirst hnone
  rw [htables]
  refine ⟨rfl, ?_⟩
  rw [Session.withHops, hhops, hseq, hops_unchanged_iff hbase]
  apply and_congr_right'
  cases hlist : c.hops with
  | nil =>
    rw [hlist] at hnone
    cases hnone
  | cons hop hops =>
    rw [List.head?_cons, List.take_eq_nil_iff, or_iff_left (List.cons_ne_nil _ _),
      hfirst hop hops hlist]
    simp

/-- The chain's row as the UPDATE leaves it. -/
def updatedChains (c : Chain) (rows : List ChainRow) : List ChainRow :=
  rows.map fun r => if r.id = c.id then ⟨r.id, c.name.chars, c.enabled⟩ else r

theorem any_updatedChains (c : Chain) (rows : List ChainRow) (id : Nat) :
    ((updatedChains c rows).any fun r => r.id = id) = rows.any fun r => r.id = id := by
  rw [updatedChains, List.any_map]
  refine congrArg rows.any (funext fun r => ?_)
  show decide ((if r.id = c.id then _ else r : ChainRow).id = id) = _
  split <;> rfl

/-- `t` is `s` once the UPDATE and the DELETE have been executed. -/
structure Cleared (c : Chain) (s t : Session) : Prop where
  proxies : t.tables.proxies = s.tables.proxies
  chains : t.tables.chains = updatedChains c s.tables.chains
  hops : t.tables.hops = s.tables.hops.filter fun h => h.2.chainId ≠ c.id
  hopSeq : t.tables.hopSeq = s.tables.hopSeq
  fails : t.fails = s.fails.tail.tail
  second : s.failsAt 1 = false

namespace Cleared

theorem hopsFree (h : Cleared c s t) : ∀ x ∈ t.tables.hops, x.2.chainId ≠ c.id := by
  intro x hmem
  rw [h.hops] at hmem
  exact of_decide_eq_true (List.mem_filter.mp hmem).2

theorem hasChain (h : Cleared c s t) : t.tables.hasChain c.id = s.tables.hasChain c.id := by
  rw [Tables.hasChain, h.chains]
  exact any_updatedChains c s.tables.chains c.id

theorem hasProxy (h : Cleared c s t) (id : Nat) : t.tables.hasProxy id = s.tables.hasProxy id := by
  rw [Tables.hasProxy, h.proxies]
  rfl

theorem failsNow (h : Cleared c s t) : t.failsNow = s.failsAt 2 := by
  rw [← Session.failsAt_called, ← Session.failsAt_called, Session.failsAt_zero]
  exact congrArg (List.headD · false) h.fails

theorem succeeds_iff (h : Cleared c s t) :
    (Session.insertHops c.id 0 c.hops t).1 ≠ none ↔ UpdateExecutes c s := by
  rw [reinsert_succeeds_iff h.hopsFree, h.hasChain, UpdateExecutes, and_iff_right h.second]
  simp only [Session.HopsExecute, h.hasProxy, h.fails]

/-- Between a failed reinsertion and the tables before the UPDATE. -/
theorem keeps_iff (h : Cleared c s t) (hnone : (Session.insertHops c.id 0 c.hops t).1 = none) :
    ((Session.insertHops c.id 0 c.hops t).2.tables.chains = s.tables.chains ∧
      (Session.insertHops c.id 0 c.hops t).2.tables.hops = s.tables.hops) ↔ UpdateIdle c s := by
  obtain ⟨hkept, hsame⟩ := reinsert_keeps_iff (show s.tables.Sound from s.store.sound) h.hops
    h.hopSeq hnone
  have hfirst : ∀ hop, (Session.statement (.insertHop c.id hop (0 : Nat)) t).1 = none ↔
      s.failsAt 2 = true ∨ s.tables.hasChain c.id = false ∨ s.tables.hasProxy hop = false := by
    intro hop
    rw [first_refused_iff h.hopsFree, h.failsNow, h.hasChain, h.hasProxy]
  have hpass : ¬ s.failsAt 1 = true := by
    rw [h.second]
    exact Bool.false_ne_true
  simp only [hfirst] at hsame
  rw [hkept, hsame, h.chains, updatedChains, chains_unchanged_iff, UpdateIdle, or_iff_right hpass]

end Cleared

/-- The state once both statements have been executed. -/
theorem cleared_of_gives {x y : PUnit} {s₁ s₂ : Session}
    (hupdate : Act.Gives (Session.statement (.updateChain c.id c.name c.enabled)) s x s₁)
    (hdelete : Act.Gives (Session.statement (.deleteHops c.id)) s₁ y s₂) : Cleared c s s₂ := by
  obtain ⟨-, hexec, hfails⟩ := Session.statement_gives_iff.mp hupdate
  obtain ⟨hpass, hexec', hfails'⟩ := Session.statement_gives_iff.mp hdelete
  simp only [Statement.exec, Option.ite_none_left_eq_some, Option.some.injEq] at hexec hexec'
  have hsecond : s₁.failsNow = s.failsAt 1 := by
    rw [← Session.failsAt_called, Session.failsAt_zero]
    exact congrArg (List.headD · false) hfails
  rw [← hexec.2] at hexec'
  exact
    { proxies := by rw [← hexec']
      chains := by rw [← hexec']; rfl
      hops := by rw [← hexec']
      hopSeq := by rw [← hexec']
      fails := hfails'.trans (congrArg List.tail hfails)
      second := hsecond.symm.trans hpass }

/-- An UPDATE that was executed is not undone. -/
theorem update_executed_iff {x : PUnit} {s₁ : Session}
    (hrow : Act.Gives (Session.statement (.updateChain c.id c.name c.enabled)) s x s₁) :
    Atomic (Session.pfConfigChainUpdate c) s ↔ UpdateExecutes c s ∨ UpdateIdle c s := by
  obtain ⟨-, hexec, hfails⟩ := Session.statement_gives_iff.mp hrow
  simp only [Statement.exec, Option.ite_none_left_eq_some, Option.some.injEq] at hexec
  have hrun : Session.pfConfigChainUpdate c s = (Session.statement (.deleteHops c.id) >>= fun _ =>
      Session.insertHops c.id 0 c.hops) s₁ := hrow.bind_eq
  have hsecond : s₁.failsNow = s.failsAt 1 := by
    rw [← Session.failsAt_called, Session.failsAt_zero]
    exact congrArg (List.headD · false) hfails
  cases hdelete : Session.statement (.deleteHops c.id) s₁ with
  | mk r s₂ =>
    cases r with
    | none =>
      obtain ⟨rfl, hcause⟩ := Session.statement_fails hdelete
      have hfail : s.failsAt 1 = true := by
        rw [← hsecond]
        exact hcause.resolve_right (by simp [Statement.exec])
      have hnot : ¬ UpdateExecutes c s := fun h => by
        rw [h.1] at hfail
        cases hfail
      rw [or_iff_right hnot, UpdateIdle, and_iff_left (.inl hfail), ← chains_unchanged_iff, Atomic,
        hrun, Act.bind_of_none hdelete]
      show (_ → s₁.tables.chains = _ ∧ s₁.tables.hops = _) ↔ _
      rw [← hexec.2]
      exact ⟨fun h => (h rfl).1, fun h _ => ⟨h, rfl⟩⟩
    | some y =>
      have hcleared : Cleared c s s₂ := cleared_of_gives hrow hdelete
      have hrun' : Session.pfConfigChainUpdate c s = Session.insertHops c.id 0 c.hops s₂ :=
        hrun.trans (Act.Gives.bind_eq hdelete)
      by_cases hnone : (Session.insertHops c.id 0 c.hops s₂).1 = none
      · rw [or_iff_right fun h => hcleared.succeeds_iff.mpr h hnone, ← hcleared.keeps_iff hnone,
          Atomic, hrun']
        exact ⟨fun h => h hnone, fun h _ => h⟩
      · exact iff_of_true (atomic_of_gives (by rwa [hrun'])) (.inl (hcleared.succeeds_iff.mp hnone))

theorem updateRefused_iff (c : Chain) (s : Session) :
    UpdateRefused c s ↔ (Session.statement (.updateChain c.id c.name c.enabled) s).1 = none := by
  rw [Session.statement_fails_iff, UpdateRefused, Session.failsAt_zero]
  simp [Statement.exec]

theorem update_atomic_iff (c : Chain) (s : Session) :
    Atomic (Session.pfConfigChainUpdate c) s ↔ UpdateHarmless c s := by
  unfold UpdateHarmless
  rw [updateRefused_iff]
  cases hrow : Session.statement (.updateChain c.id c.name c.enabled) s with
  | mk r s₁ =>
    cases r with
    | none =>
      have hrun : Session.pfConfigChainUpdate c s = (none, s₁) := Act.bind_of_none hrow
      refine iff_of_true (fun _ => ?_) (.inl rfl)
      rw [hrun, (Session.statement_fails hrow).1]
      exact ⟨rfl, rfl⟩
    | some x =>
      rw [or_iff_right (by simp)]
      exact update_executed_iff hrow

/-- For every chain, database and choice of the calls SQLite fails. -/
theorem chain_writes_atomic_iff (c : Chain) (s : Session) :
    (Atomic (Session.pfConfigChainAdd c) s ↔ AddHarmless c s) ∧
      (Atomic (Session.pfConfigChainUpdate c) s ↔ UpdateHarmless c s) :=
  ⟨add_atomic_iff c s, update_atomic_iff c s⟩

/-! ## A chain with an unknown hop -/

/-- Hop 7 is no proxy of an empty database. -/
def strayChain : Chain := ⟨1, .snprintf (lit "a"), [7], by decide, 1⟩

/-- The new row stays behind; disabled by an update with the same hop, it is changed. -/
theorem strayChain_left_behind :
    ¬ Atomic (Session.pfConfigChainAdd strayChain) ⟨.empty, []⟩ ∧
      ¬ Atomic (Session.pfConfigChainUpdate { strayChain with enabled := 0 })
        (Session.pfConfigChainAdd strayChain ⟨.empty, []⟩).2 := by
  unfold Atomic
  decide

end Proxiflare.Guarantees.ChainAtomicity
