import Proxiflare.Daemon.Handler
import Proxiflare.Guarantees.ChainAtomicity
import Proxiflare.Guarantees.PartialEdits

/-!
# The hops a chain is stored with

A `chain.add` or `chain.edit` answered with ok stores the first eight ids of the list it was given,
and `chain.list` gives the chains whose names sort first: the list comes back whole exactly where
neither limit is reached and the chain is there.
-/

namespace Proxiflare.Guarantees.SubmittedHops

open Lib.CString Lib
open Proxiflare.Daemon

/-- The ids of `hop_proxy_ids`, or of `hops`, as the daemon reads them. -/
def submittedHops (params : Json) : List Nat :=
  match params.getEither (lit "hop_proxy_ids") (lit "hops") with
  | some (.arr items) => items.map fun v => toUInt32 v.valuedouble
  | _ => []

/-- `chain.list`, with no query failing, gives the chain with these hops. -/
def Reports (db : Db) (id : Nat) (hops : List Nat) : Prop :=
  ∃ chains, pfConfigChainList none (fun _ => none) db = some chains ∧
    ∃ c ∈ chains, c.id = id ∧ c.hops = hops

/-- Answered with ok, the chain under this id is listed with the hops of the request. -/
def Whole (a : Answer) (id : Nat) (params : Json) : Prop :=
  a.1 = .ok → Reports a.2.session.db id (submittedHops params)

/-! ## The conditions -/

/-- The names of other chains that sort before this one. -/
def namesBefore (t : Tables) (id : Nat) (name : CStr) : Nat :=
  t.chains.countP fun r => r.id ≠ id ∧ r.name < name

/-- Neither the list nor the chain is cut off. -/
def Fits (t : Tables) (id : Nat) (params : Json) : Prop :=
  (submittedHops params).length ≤ pfMaxHops ∧
    namesBefore t id (Host.chainFromJson params).name.chars < pfMaxChains

/-- Every statement of the addition is executed. -/
def AddExecutes (c : Chain) (s : Session) : Prop :=
  s.failsAt 0 = false ∧ s.tables.chainNameFree (s.tables.chainSeq + 1) c.name.chars = true ∧
    Session.HopsExecute s.tables s.fails.tail c.hops

/-- Every statement of the update is executed. -/
def EditExecutes (c : Chain) (s : Session) : Prop :=
  ¬ ChainAtomicity.UpdateRefused c s ∧ ChainAtomicity.UpdateExecutes c s

variable {c : Chain} {t t' : Tables} {s s' : Session} {params : Json}

theorem chainFromJson_hops (params : Json) :
    (Host.chainFromJson params).hops = (submittedHops params).take pfMaxHops := by
  unfold submittedHops
  show Host.hopsFromJson (params.getEither (lit "hop_proxy_ids") (lit "hops")) = _
  cases params.getEither (lit "hop_proxy_ids") (lit "hops") with
  | none => rfl
  | some v =>
    cases v with
    | arr items => exact List.map_take
    | _ => rfl

/-! ## What is listed -/

/-- The row and the hops of a chain, whose name no other row has. -/
structure Stored (t : Tables) (c : Chain) : Prop where
  row : (⟨c.id, c.name.chars, c.enabled⟩ : ChainRow) ∈ t.chains
  named : ∀ r ∈ t.chains, r.name = c.name.chars → r.id = c.id
  hops : loadChainHops t.db c.id = c.hops

theorem chainNameFree_iff {id : Nat} {name : CStr} :
    t.chainNameFree id name = true ↔ ∀ r ∈ t.chains, r.name = name → r.id = id := by
  rw [Tables.chainNameFree, List.all_eq_true]
  refine forall₂_congr fun r _ => ?_
  rw [Bool.or_eq_true, decide_eq_true_iff, decide_eq_true_iff]
  tauto

/-- The rows `chain.list` is given, and what it makes of one. -/
def listedRows (db : Db) : List ChainRow :=
  (db.chains.insertionSort fun a b => a.name ≤ b.name).take pfMaxChains

theorem listedHops_fit (db : Db) (st : ChainRow) :
    (loadChainHops db st.id).length ≤ pfMaxHops := List.length_take_le _ _

def listedChain (db : Db) (st : ChainRow) : Chain where
  id := st.id
  name := .snprintf st.name
  hops := loadChainHops db st.id
  hopsFit := listedHops_fit db st
  enabled := st.enabled

theorem pfConfigChainList_eq (db : Db) :
    pfConfigChainList none (fun _ => none) db = some ((listedRows db).map (listedChain db)) := by
  show (listedRows db).zipIdx.mapM (fun st => some (listedChain db st.1)) = _
  have hmap : (listedRows db).zipIdx.map (listedChain db ∘ Prod.fst) =
      (listedRows db).map (listedChain db) := by
    rw [← List.map_map, List.zipIdx_map_fst]
  rw [← hmap]
  exact List.mapM_pure

theorem Stored.listed_iff (h : Stored t c) (hs : t.Sound) :
    (⟨c.id, c.name.chars, c.enabled⟩ : ChainRow) ∈ listedRows t.db ↔
      namesBefore t c.id c.name.chars < pfMaxChains := by
  have hkey : ∀ r ∈ t.chains, r.id = c.id → r = ⟨c.id, c.name.chars, c.enabled⟩ :=
    fun r hr hid => hs.chains.eq_of_key hr h.row hid
  have hsorted : (t.db.chains.insertionSort fun a b => a.name ≤ b.name).Pairwise
      fun a b => a.name ≤ b.name := List.pairwise_insertionSort _ _
  have hcount : (t.db.chains.insertionSort fun a b => a.name ≤ b.name).countP
      (fun r => ¬ c.name.chars ≤ r.name) = namesBefore t c.id c.name.chars := by
    rw [(List.perm_insertionSort _ _).countP_eq]
    refine List.countP_congr fun r hr => ?_
    rw [decide_eq_true_iff, decide_eq_true_iff, List.not_le]
    refine ⟨fun hlt => ⟨fun hid => ?_, hlt⟩, fun hlt => hlt.2⟩
    rw [hkey r hr hid] at hlt
    exact List.lt_irrefl _ hlt
  rw [listedRows, mem_take_sorted_iff hsorted ((List.mem_insertionSort _).mpr h.row) (List.le_refl _)
    fun r hr hle hge => ?_]
  · rw [hcount]
  · have hr := (List.mem_insertionSort _).mp hr
    exact hkey r hr (h.named r hr (List.le_antisymm hle hge))

theorem Stored.reports_iff (h : Stored t c) (hs : t.Sound) (hops : List Nat) :
    Reports t.db c.id hops ↔ c.hops = hops ∧ namesBefore t c.id c.name.chars < pfMaxChains := by
  rw [← h.listed_iff hs, Reports, pfConfigChainList_eq]
  constructor
  · rintro ⟨_, hlist, _, hmem, hid, hhops⟩
    obtain rfl := Option.some.inj hlist
    obtain ⟨r, hr, rfl⟩ := List.mem_map.mp hmem
    obtain rfl := hs.chains.eq_of_key
      ((List.mem_insertionSort _).mp (List.mem_of_mem_take hr)) h.row hid
    exact ⟨h.hops.symm.trans hhops, hr⟩
  · rintro ⟨hhops, hr⟩
    exact ⟨_, rfl, _, List.mem_map_of_mem hr, rfl, h.hops.trans hhops⟩

/-! ## Adding -/

theorem add_executes_iff (c : Chain) (s : Session) :
    (Session.pfConfigChainAdd c s).1 ≠ none ↔ AddExecutes c s := by
  unfold AddExecutes
  rw [Session.failsAt_zero]
  cases hrow : Session.statement (.insertChain c.name c.enabled) s with
  | mk r s₁ =>
    cases r with
    | none =>
      have hrun : Session.pfConfigChainAdd c s = (none, s₁) := Act.bind_of_none hrow
      rw [hrun]
      refine iff_of_false (fun h => h rfl) ?_
      rintro ⟨hpass, hfree, -⟩
      rcases (Session.statement_fails hrow).2 with hfail | hnone
      · rw [hpass] at hfail
        cases hfail
      · rw [Statement.exec, hfree] at hnone
        cases hnone
    | some x =>
      have hgives : Act.Gives (Session.statement (.insertChain c.name c.enabled)) s x s₁ := hrow
      obtain ⟨hpass, hexec, hfails⟩ := Session.statement_gives_iff.mp hgives
      have hrun : Session.pfConfigChainAdd c s =
          Session.insertHops s₁.tables.chainSeq 0 c.hops s₁ := hgives.bind_eq
      rw [hrun, Session.insertHops_succeeds_iff
        (ChainAtomicity.insertChain_hopsFree s.store.sound hexec)]
      simp only [Statement.exec, Option.ite_none_right_eq_some, Option.some.injEq] at hexec
      rw [and_iff_right hpass, and_iff_right hexec.1, hfails, ← hexec.2]
      rfl

theorem chainAdd_ok_iff (h : Host) (params : Json) :
    (h.chainAdd (some params)).1 = .ok ↔ AddExecutes (Host.chainFromJson params) h.session := by
  rw [← add_executes_iff]
  unfold Host.chainAdd
  cases hadd : h.config (Session.pfConfigChainAdd (Host.chainFromJson params)) with
  | mk done h₁ =>
    rw [show (Session.pfConfigChainAdd _ h.session).1 = done from congrArg Prod.fst hadd]
    simp only [hadd]
    cases done with
    | none => exact iff_of_false (fun hok => Reply.noConfusion hok) fun hne => hne rfl
    | some _ => exact iff_of_true rfl (Option.some_ne_none _)

/-- The chain that was added. -/
theorem stored_add (h : Act.Gives (Session.pfConfigChainAdd c) s ⟨⟩ s') :
    Stored s'.tables { c with id := s.tables.chainSeq + 1 } ∧
      s'.tables.chainSeq = s.tables.chainSeq + 1 ∧
      ∀ name, namesBefore s'.tables (s.tables.chainSeq + 1) name =
        namesBefore s.tables (s.tables.chainSeq + 1) name := by
  obtain ⟨_, s₁, hrow, hrest⟩ := Act.gives_bind_iff.mp h
  obtain ⟨id, s₂, hlast, hhops⟩ := Act.gives_bind_iff.mp hrest
  obtain ⟨hid, rfl⟩ := Prod.mk.inj hlast
  obtain rfl := Option.some.inj hid
  obtain ⟨-, hexec, -⟩ := Session.statement_gives_iff.mp hrow
  have hnone := StoredRecords.insertChain_noHops s.store.sound hexec
  simp only [Statement.exec, Option.ite_none_right_eq_some, Option.some.injEq] at hexec
  have htables := StoredRecords.insertHops_tables hhops
  have hseq : s₁.tables.chainSeq = s.tables.chainSeq + 1 := by rw [← hexec.2]
  have hchains : s'.tables.chains =
      s.tables.chains ++ [⟨s.tables.chainSeq + 1, c.name.chars, c.enabled⟩] := by
    rw [htables, ← hexec.2]
    rfl
  have hload := StoredRecords.loadChainHops_withHops c.hopsFit hnone
  rw [← htables, hseq] at hload
  refine ⟨⟨?_, fun r hr hname => ?_, hload⟩, ?_, fun name => ?_⟩
  · rw [hchains]
    exact List.mem_append_right _ (List.mem_singleton_self _)
  · rw [hchains] at hr
    rcases List.mem_append.mp hr with hr | hr
    · exact chainNameFree_iff.mp hexec.1 r hr hname
    · rw [List.mem_singleton.mp hr]
  · rw [htables]
    exact hseq
  · rw [namesBefore, hchains, List.countP_append, List.countP_singleton]
    simp [namesBefore]

/-- A longer list is never reported, so it has to be answered with an error. -/
theorem Reports.length_le {db : Db} {id : Nat} {hops : List Nat} (h : Reports db id hops) :
    hops.length ≤ pfMaxHops := by
  obtain ⟨_, -, c, -, -, rfl⟩ := h
  exact c.hopsFit

theorem not_whole {a : Answer} {id : Nat} (hok : a.1 = .ok)
    (hlong : ¬ (submittedHops params).length ≤ pfMaxHops) : ¬ Whole a id params :=
  fun h => hlong (h hok).length_le

theorem Reports.hasChain {id : Nat} {hops : List Nat} (h : Reports t.db id hops) :
    t.hasChain id = true := by
  rw [Reports, pfConfigChainList_eq] at h
  obtain ⟨_, hlist, _, hmem, hid, -⟩ := h
  obtain rfl := Option.some.inj hlist
  obtain ⟨r, hr, rfl⟩ := List.mem_map.mp hmem
  have hrow : r ∈ t.chains := (List.mem_insertionSort _).mp (List.mem_of_mem_take hr)
  exact List.any_eq_true.mpr ⟨r, hrow, decide_eq_true hid⟩

/-- A stored chain has at most eight of the hops of its request. -/
theorem Stored.whole_iff {hops : List Nat} (h : Stored t c) (hs : t.Sound)
    (hcut : c.hops = hops.take pfMaxHops) :
    Reports t.db c.id hops ↔
      hops.length ≤ pfMaxHops ∧ namesBefore t c.id c.name.chars < pfMaxChains := by
  rw [h.reports_iff hs, hcut, List.take_eq_self_iff]

theorem add_whole_iff (h : Host) (params : Json) :
    Whole (h.chainAdd (some params)) (h.session.tables.chainSeq + 1) params ↔
      (AddExecutes (Host.chainFromJson params) h.session →
        Fits h.session.tables (h.session.tables.chainSeq + 1) params) := by
  unfold Whole Fits
  rw [chainAdd_ok_iff]
  refine imp_congr_right fun hexecutes => ?_
  have hok := (chainAdd_ok_iff h params).mpr hexecutes
  unfold Host.chainAdd at hok ⊢
  cases hadd : h.config (Session.pfConfigChainAdd (Host.chainFromJson params)) with
  | mk done h₁ =>
    simp only [hadd] at hok ⊢
    cases done with
    | none => cases hok
    | some _ =>
      obtain ⟨hstored, -, hnames⟩ := stored_add (PartialEdits.config_gives hadd)
      rw [← hnames]
      exact hstored.whole_iff h₁.session.store.sound (chainFromJson_hops params)

/-! ## Editing -/

theorem edit_executes_iff (c : Chain) (s : Session) :
    (Session.pfConfigChainUpdate c s).1 ≠ none ↔ EditExecutes c s := by
  unfold EditExecutes
  rw [ChainAtomicity.updateRefused_iff]
  cases hrow : Session.statement (.updateChain c.id c.name c.enabled) s with
  | mk r s₁ =>
    cases r with
    | none =>
      have hrun : Session.pfConfigChainUpdate c s = (none, s₁) := Act.bind_of_none hrow
      rw [hrun]
      exact iff_of_false (fun h => h rfl) fun h => h.1 rfl
    | some x =>
      have hgives : Act.Gives (Session.statement (.updateChain c.id c.name c.enabled)) s x s₁ :=
        hrow
      have hrun : Session.pfConfigChainUpdate c s =
          (Session.statement (.deleteHops c.id) >>= fun _ =>
            Session.insertHops c.id 0 c.hops) s₁ := hgives.bind_eq
      rw [hrun, and_iff_right (Option.some_ne_none x)]
      cases hdelete : Session.statement (.deleteHops c.id) s₁ with
      | mk r s₂ =>
        cases r with
        | none =>
          rw [Act.bind_of_none hdelete]
          refine iff_of_false (fun h => h rfl) fun h => ?_
          have hfail := (Session.statement_fails hdelete).2.resolve_right (by simp [Statement.exec])
          have hfails := (Session.statement_gives_iff.mp hgives).2.2
          have hnext : s₁.failsNow = s.failsAt 1 := by
            rw [← Session.failsAt_called, Session.failsAt_zero]
            exact congrArg (List.headD · false) hfails
          rw [hnext, h.1] at hfail
          cases hfail
        | some y =>
          rw [Act.Gives.bind_eq hdelete]
          exact (ChainAtomicity.cleared_of_gives hgives hdelete).succeeds_iff

theorem chainEdit_ok_iff (h : Host) (params : Json) :
    (h.chainEdit (some params)).1 = .ok ↔ EditExecutes (Host.chainFromJson params) h.session := by
  rw [← edit_executes_iff]
  unfold Host.chainEdit
  cases hedit : h.config (Session.pfConfigChainUpdate (Host.chainFromJson params)) with
  | mk done h₁ =>
    rw [show (Session.pfConfigChainUpdate _ h.session).1 = done from congrArg Prod.fst hedit]
    simp only [hedit]
    cases done with
    | none => exact iff_of_false (fun hok => Reply.noConfusion hok) fun hne => hne rfl
    | some _ => exact iff_of_true rfl (Option.some_ne_none _)

/-- The table after an edit. -/
theorem chains_edit (h : Act.Gives (Session.pfConfigChainUpdate c) s ⟨⟩ s') :
    s'.tables.chains = ChainAtomicity.updatedChains c s.tables.chains ∧
      loadChainHops s'.tables.db c.id = c.hops ∧
      (s.tables.hasChain c.id = true → s.tables.chainNameFree c.id c.name.chars = true) := by
  obtain ⟨_, s₁, hupdate, hrest⟩ := Act.gives_bind_iff.mp h
  obtain ⟨_, s₂, hdelete, hhops⟩ := Act.gives_bind_iff.mp hrest
  have hcleared := ChainAtomicity.cleared_of_gives hupdate hdelete
  have htables := StoredRecords.insertHops_tables hhops
  have hload := StoredRecords.loadChainHops_withHops c.hopsFit hcleared.hopsFree
  rw [← htables] at hload
  refine ⟨?_, hload, fun hchain => ?_⟩
  · rw [htables, ← hcleared.chains]
    rfl
  · obtain ⟨-, hexec, -⟩ := Session.statement_gives_iff.mp hupdate
    rw [Statement.exec, hchain, Bool.true_and] at hexec
    by_contra hused
    rw [Bool.not_eq_true] at hused
    rw [hused] at hexec
    cases hexec

theorem namesBefore_updatedChains (c : Chain) (rows : List ChainRow) (name : CStr) :
    (ChainAtomicity.updatedChains c rows).countP (fun r => r.id ≠ c.id ∧ r.name < name) =
      rows.countP fun r => r.id ≠ c.id ∧ r.name < name := by
  rw [ChainAtomicity.updatedChains, List.countP_map]
  refine List.countP_congr fun r _ => ?_
  by_cases hid : r.id = c.id <;> simp [hid]

/-- The chain that was edited. -/
theorem stored_edit (hold : s.tables.hasChain c.id = true)
    (h : Act.Gives (Session.pfConfigChainUpdate c) s ⟨⟩ s') : Stored s'.tables c := by
  obtain ⟨hchains, hload, hfree⟩ := chains_edit h
  obtain ⟨row, hrow, hid⟩ := List.any_eq_true.mp hold
  have hid := of_decide_eq_true hid
  refine ⟨?_, fun r hr hname => ?_, hload⟩
  · rw [hchains]
    exact List.mem_map.mpr ⟨row, hrow, by rw [if_pos hid, hid]⟩
  · rw [hchains] at hr
    obtain ⟨r', hr', rfl⟩ := List.mem_map.mp hr
    by_cases hsame : r'.id = c.id
    · rw [if_pos hsame]
      exact hsame
    · rw [if_neg hsame] at hname ⊢
      exact chainNameFree_iff.mp (hfree hold) r' hr' hname

theorem edit_whole_iff (h : Host) (params : Json) :
    Whole (h.chainEdit (some params)) (Host.chainFromJson params).id params ↔
      (EditExecutes (Host.chainFromJson params) h.session →
        h.session.tables.hasChain (Host.chainFromJson params).id = true ∧
          Fits h.session.tables (Host.chainFromJson params).id params) := by
  unfold Whole Fits
  rw [chainEdit_ok_iff]
  refine imp_congr_right fun hexecutes => ?_
  have hok := (chainEdit_ok_iff h params).mpr hexecutes
  unfold Host.chainEdit at hok ⊢
  cases hedit : h.config (Session.pfConfigChainUpdate (Host.chainFromJson params)) with
  | mk done h₁ =>
    simp only [hedit] at hok ⊢
    cases done with
    | none => cases hok
    | some _ =>
      have hgives := PartialEdits.config_gives hedit
      obtain ⟨hchains, -, -⟩ := chains_edit hgives
      have hnames : ∀ name, namesBefore h.session.tables (Host.chainFromJson params).id name =
          namesBefore h₁.session.tables (Host.chainFromJson params).id name := by
        intro name
        rw [namesBefore, namesBefore, hchains, namesBefore_updatedChains]
      rw [hnames]
      cases hold : h.session.tables.hasChain (Host.chainFromJson params).id with
      | true =>
        rw [and_iff_right rfl]
        exact (stored_edit hold hgives).whole_iff h₁.session.store.sound (chainFromJson_hops params)
      | false =>
        refine iff_of_false (fun hreports => ?_) fun hfits => Bool.false_ne_true hfits.1
        have hchain : h₁.session.tables.hasChain _ = true := hreports.hasChain
        rw [Tables.hasChain, hchains, ChainAtomicity.any_updatedChains] at hchain
        exact absurd (hchain.symm.trans hold) (by decide)

/-! ## Both -/

/-- For every state, every list and every outcome of SQLite's calls. -/
theorem hops_whole_iff (h : Host) (params : Json) :
    (Whole (h.chainAdd (some params)) (h.session.tables.chainSeq + 1) params ↔
      (AddExecutes (Host.chainFromJson params) h.session →
        Fits h.session.tables (h.session.tables.chainSeq + 1) params)) ∧
    (Whole (h.chainEdit (some params)) (Host.chainFromJson params).id params ↔
      (EditExecutes (Host.chainFromJson params) h.session →
        h.session.tables.hasChain (Host.chainFromJson params).id = true ∧
          Fits h.session.tables (Host.chainFromJson params).id params)) :=
  ⟨add_whole_iff h params, edit_whole_iff h params⟩

/-- Nine times through the one proxy. -/
def nineHops : Json :=
  .obj [(lit "id", .num 1), (lit "name", .str (lit "n")),
    (lit "hop_proxy_ids", .arr (List.replicate 9 (.num 1)))]

/-- Both requests are answered with ok, and the last hop is gone. -/
theorem ninth_hop_dropped :
    ¬ Whole (PartialEdits.stocked.chainAdd (some nineHops)) 2 nineHops ∧
      ¬ Whole (PartialEdits.stocked.chainEdit (some nineHops)) 1 nineHops := by
  have hlong : ¬ (submittedHops nineHops).length ≤ pfMaxHops := by decide
  exact ⟨not_whole (by decide +kernel) hlong, not_whole (by decide +kernel) hlong⟩

end Proxiflare.Guarantees.SubmittedHops
