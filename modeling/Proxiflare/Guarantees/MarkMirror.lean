import Proxiflare.Lib.Enumerates
import Proxiflare.Lib.Runs
import Proxiflare.Daemon.Requests
import Proxiflare.Guarantees.MarkRemoval

/-!
# Marks against the rules table

Every request maintains the marks in place with a test of its own. A step from a
state whose marks mirror the table leads to one that does exactly when the test of
that step agrees with what the table asks for; runs of such steps keep the mirror.
-/

namespace Proxiflare.Guarantees.MarkMirror

open Lib Lib.CString Lib.Runs
open Proxiflare.Daemon

def tableRules (db : Db) : List Rule := db.rules.map rowToRule

/-- The rules start-up and `proxy.edit` read. -/
def seenRules (db : Db) : List Rule := pfConfigRuleList db pfMaxRules

def proxyOn (db : Db) (pid : Nat) : Bool := db.proxies.any fun p => p.id = pid && p.enabled ≠ 0

/-- What the table asks for. -/
def wanted (db : Db) (r : Rule) : Bool :=
  r.enabled ≠ 0 && r.appPath.nonempty && r.action ≠ .direct &&
    (r.action ≠ .proxy || proxyOn db r.proxyId)

def WantsMark (db : Db) (id : Int) : Prop := ∃ r ∈ tableRules db, (r.id : Int) = id ∧ wanted db r

instance (db : Db) : DecidablePred (WantsMark db) := fun id =>
  inferInstanceAs (Decidable (∃ r ∈ tableRules db, (r.id : Int) = id ∧ wanted db r))

/-- One mark for each rule that wants one, and no other. -/
def Mirrored (n : Node) : Prop := Enumerates n.marks (WantsMark n.state.db)

/-- Nothing wanted lies beyond the rules start-up reads, and no rule it restores has its proxy off. -/
def RestoresExactly (db : Db) : Prop :=
  (∀ r ∈ tableRules db, wanted db r → r ∈ seenRules db) ∧
    ∀ r ∈ seenRules db, intercepted r → r.action = .proxy → proxyOn db r.proxyId

/-- Where the test of a request agrees with the table: an application rule is added enabled and
with its proxy on, one is edited with its proxy on, a proxy is switched while all its rules are
among those read. -/
def Meets (n : Node) : Change → Prop
  | .ruleAdd params => ∀ p ∈ params,
      (ruleFromJson p).appPath.nonempty → (ruleFromJson p).action ≠ .direct →
        (ruleFromJson p).enabled ≠ 0 ∧
          ((ruleFromJson p).action = .proxy → proxyOn n.state.db (ruleFromJson p).proxyId)
  | .ruleEdit params => ∀ p ∈ params, ∀ stored ∈ loadRule n.state.db p.idOf,
      intercepted (ruleOverlay p stored) → (ruleOverlay p stored).action = .proxy →
        proxyOn n.state.db (ruleOverlay p stored).proxyId
  | .ruleDelete _ => True
  | .proxyEdit params => ∀ p ∈ params, ∀ stored ∈ loadProxy n.state.db p.idOf,
      stored.enabled ≠ (proxyOverlay p stored).enabled →
        ∀ r ∈ tableRules n.state.db, followsProxy stored.id r → r ∈ seenRules n.state.db
  | .restart => RestoresExactly n.state.db

instance (db : Db) : Decidable (RestoresExactly db) := instDecidableAnd

instance (n : Node) : DecidablePred (Meets n)
  | .ruleAdd _ | .ruleEdit _ | .ruleDelete _ | .proxyEdit _ | .restart => by
    dsimp only [Meets]
    infer_instance

variable {db db' : Db} {n n' : Node}

/-! ## The marks are those of the chain -/

theorem markOf_add (chain : List NftRule) (handle id : Nat) :
    ((pfNftAddCgroupMark chain handle id).filterMap NftRule.markOf).map Int.ofNat =
      applyOp ((chain.filterMap NftRule.markOf).map Int.ofNat) (.nftAddCgroupMark id) := by
  simp [pfNftAddCgroupMark, applyOp, NftRule.markOf]

theorem markOf_remove {printed : Nat → CStr} {chain : List NftRule} {id : Nat}
    (hexact : MarkRemoval.ExactRemoval printed chain id) :
    ((pfNftRemoveCgroupMark printed chain id).filterMap NftRule.markOf).map Int.ofNat =
      applyOp ((chain.filterMap NftRule.markOf).map Int.ofNat) (.nftRemoveCgroupMark id) := by
  rw [hexact, applyOp, List.filter_map, List.filterMap_filter, List.filter_filterMap]
  congr 2
  funext r
  cases r with
  | mark handle j => by_cases h : j = id <;> simp [NftRule.markOf, Option.filter, h]
  | other handle line => simp [NftRule.markOf]

/-! ## Rules of a table -/

theorem seen_subset {r : Rule} (h : r ∈ seenRules db) : r ∈ tableRules db := by
  obtain ⟨row, hrow, rfl⟩ := List.mem_map.mp h
  exact List.mem_map_of_mem ((List.mem_insertionSort _).mp (List.mem_of_mem_take hrow))

theorem table_unique (hs : db.Sound) {r r' : Rule} (hr : r ∈ tableRules db)
    (hr' : r' ∈ tableRules db) (hid : r.id = r'.id) : r = r' := by
  obtain ⟨row, hrow, rfl⟩ := List.mem_map.mp hr
  obtain ⟨row', hrow', rfl⟩ := List.mem_map.mp hr'
  rw [List.inj_on_of_nodup_map hs.ruleIds hrow hrow' hid]

/-- The ids of the rules read are distinct. -/
theorem seen_ids_nodup (hs : db.Sound) : ((seenRules db).map fun r => (r.id : Int)).Nodup := by
  have hperm := ((List.perm_insertionSort (fun a b : RuleRow => a.priority ≤ b.priority)
    db.rules).map RuleRow.id).nodup_iff.mpr hs.ruleIds
  have htake := hperm.sublist ((List.take_sublist pfMaxRules _).map RuleRow.id)
  have hcast := htake.map Int.ofNat_injective
  unfold seenRules pfConfigRuleList
  rw [List.map_map] at hcast ⊢
  exact hcast

theorem wanted_imp_intercepted {r : Rule} (h : wanted db r = true) : intercepted r = true := by
  simp only [wanted, Bool.and_eq_true] at h
  simp only [intercepted, Bool.and_eq_true]
  exact ⟨⟨h.1.1.2, h.1.1.1⟩, h.1.2⟩

/-- An intercepted rule wants its mark unless its proxy is off. -/
theorem wanted_iff {r : Rule} (h : intercepted r = true) :
    wanted db r = true ↔ (r.action = .proxy → proxyOn db r.proxyId = true) := by
  simp only [intercepted, Bool.and_eq_true] at h
  simp only [wanted, h.1.1, h.1.2, h.2, Bool.true_and, Bool.or_eq_true, decide_eq_true_eq, ne_eq,
    Decidable.imp_iff_not_or]

/-! ## Requests on one rule -/

/-- The test of `rule.add`. -/
def marksOnAdd (r : Rule) : Bool := r.appPath.nonempty && r.action ≠ .direct

/-- A rule marked when it is added wants its mark if it is enabled and its proxy on. -/
theorem wanted_iff_of_marksOnAdd {r : Rule} (h : marksOnAdd r = true) :
    wanted db r = true ↔ r.enabled ≠ 0 ∧ (r.action = .proxy → proxyOn db r.proxyId = true) := by
  simp only [marksOnAdd, Bool.and_eq_true] at h
  simp only [wanted, h.1, h.2, Bool.and_true, Bool.and_eq_true, Bool.or_eq_true, decide_eq_true_eq,
    ne_eq, Decidable.imp_iff_not_or]

theorem wanted_imp_marksOnAdd {r : Rule} (h : wanted db r = true) : marksOnAdd r = true := by
  simp only [wanted, Bool.and_eq_true] at h
  simp only [marksOnAdd, Bool.and_eq_true]
  exact ⟨h.1.1.2, h.1.2⟩

theorem wants_add {r : Rule} {newId : Nat} (hadd : pfConfigRuleAdd db r = some (db', newId))
    (id : Int) : WantsMark db' id ↔ WantsMark db id ∨ id = newId ∧ wanted db r := by
  simp only [pfConfigRuleAdd, Option.ite_none_right_eq_some, Option.some.injEq,
    Prod.mk.injEq] at hadd
  obtain ⟨-, rfl, rfl⟩ := hadd
  have hrow : rowToRule (ruleToRow (db.ruleSeq + 1) r) = { r with id := db.ruleSeq + 1 } :=
    rowToRule_ruleToRow _ r
  constructor
  · intro hwants
    obtain ⟨r', hr', rfl, hw⟩ := hwants
    rw [tableRules, List.map_append] at hr'
    rcases List.mem_append.mp hr' with hr' | hr'
    · exact .inl ⟨r', hr', rfl, hw⟩
    · obtain rfl := List.mem_singleton.mp hr'
      rw [hrow] at hw ⊢
      exact .inr ⟨rfl, hw⟩
  · intro hwants
    obtain ⟨r', hr', rfl, hw⟩ | ⟨rfl, hw⟩ := hwants
    · refine ⟨r', ?_, rfl, hw⟩
      rw [tableRules, List.map_append]
      exact List.mem_append_left _ hr'
    · refine ⟨{ r with id := db.ruleSeq + 1 }, ?_, rfl, hw⟩
      rw [tableRules, List.map_append, ← hrow]
      exact List.mem_append_right _ (by simp)

theorem new_unwanted {r : Rule} {newId : Nat} (hs : db.Sound)
    (hadd : pfConfigRuleAdd db r = some (db', newId)) : ¬ WantsMark db newId := by
  simp only [pfConfigRuleAdd, Option.ite_none_right_eq_some, Option.some.injEq,
    Prod.mk.injEq] at hadd
  obtain ⟨-, -, rfl⟩ := hadd
  intro hwants
  obtain ⟨r', hr', hid, -⟩ := hwants
  obtain ⟨row, hrow, rfl⟩ := List.mem_map.mp hr'
  have hle := hs.ruleSeq row hrow
  rw [rowToRule_id] at hid
  omega

/-- An added rule is mirrored when its test and what it wants agree. -/
theorem add_mirrored {marks : List Int} {r : Rule} {newId : Nat} (hs : db.Sound)
    (hm : Enumerates marks (WantsMark db)) (hadd : pfConfigRuleAdd db r = some (db', newId)) :
    Enumerates (if marksOnAdd r then marks ++ [(newId : Int)] else marks) (WantsMark db') ↔
      (marksOnAdd r = true → wanted db r = true) := by
  have hnew := new_unwanted hs hadd
  have hafter := wants_add hadd
  split
  · next hmarks =>
    have hadded : Enumerates (marks ++ [(newId : Int)])
        fun id => WantsMark db id ∨ id = newId := by
      refine hm.append (.singleton _) fun id hid heq => ?_
      rw [heq] at hid
      exact hnew hid
    rw [hadded.iff_congr]
    constructor
    · intro h _
      exact (((hafter newId).mp ((h newId).mp (.inr rfl))).resolve_left hnew).2
    · intro hw id
      rw [hafter id, and_iff_left (hw hmarks)]
  · next hmarks =>
    rw [hm.iff_congr]
    refine iff_of_true (fun id => ?_) fun h => absurd h hmarks
    rw [hafter id]
    refine (or_iff_left fun hw => hmarks (wanted_imp_marksOnAdd hw.2)).symm

theorem step_ruleAdd {params : Option Json} (hs : n.state.db.Sound) (hm : Mirrored n)
    (h : n.step (.ruleAdd params) = some n') : Mirrored n' ↔ Meets n (.ruleAdd params) := by
  obtain ⟨hok, rfl⟩ := answered_some h
  obtain ⟨p, db, newId, rfl, hadd, heq⟩ := ruleAdd_ok hok
  have hmarks : (ruleAdd n.state (some p)).ops.foldl applyOp n.marks =
      if marksOnAdd (ruleFromJson p) then n.marks ++ [(newId : Int)] else n.marks := by
    rw [heq, marksOnAdd]
    split <;> rfl
  have hstep := add_mirrored hs hm hadd
  rw [← hmarks] at hstep
  unfold Mirrored
  rw [heq]
  rw [heq] at hstep
  refine hstep.trans ((forall_congr' wanted_iff_of_marksOnAdd).trans ?_)
  simp only [Meets, Option.mem_some_iff, forall_eq', marksOnAdd, Bool.and_eq_true,
    decide_eq_true_eq, and_imp]

theorem removed {marks : List Int} (hm : Enumerates marks (WantsMark db)) (gone : Int) :
    Enumerates (marks.filter (· ≠ gone)) fun id => WantsMark db id ∧ id ≠ gone :=
  (hm.filter _).congr fun id => by rw [decide_eq_true_iff]

theorem wants_edit {r stored : Rule} (hstored : stored ∈ tableRules db) (hid : stored.id = r.id)
    (hupd : pfConfigRuleUpdate db r = some db') (id : Int) :
    WantsMark db' id ↔ (WantsMark db id ∧ id ≠ r.id) ∨ id = r.id ∧ wanted db r := by
  simp only [pfConfigRuleUpdate, Option.ite_none_right_eq_some, Option.some.injEq] at hupd
  obtain ⟨-, rfl⟩ := hupd
  have hrow : rowToRule (ruleToRow r.id r) = r := rowToRule_ruleToRow _ r
  constructor
  · intro hwants
    obtain ⟨r', hr', rfl, hw⟩ := hwants
    rw [tableRules, List.map_map] at hr'
    obtain ⟨row, hmem, rfl⟩ := List.mem_map.mp hr'
    simp only [Function.comp_apply] at hw ⊢
    split at hw
    · next heq =>
      rw [if_pos heq, hrow]
      rw [hrow] at hw
      exact .inr ⟨rfl, hw⟩
    · next hne =>
      rw [if_neg hne, rowToRule_id]
      exact .inl ⟨⟨rowToRule row, List.mem_map_of_mem hmem, rfl, hw⟩, by exact_mod_cast hne⟩
  · intro hwants
    obtain ⟨⟨r', hr', rfl, hw⟩, hne⟩ | ⟨rfl, hw⟩ := hwants
    · obtain ⟨row, hmem, rfl⟩ := List.mem_map.mp hr'
      have hkept : row.id ≠ r.id := by exact_mod_cast hne
      refine ⟨rowToRule row, ?_, rfl, hw⟩
      rw [tableRules, List.map_map]
      exact List.mem_map.mpr ⟨row, hmem, by rw [Function.comp_apply, if_neg hkept]⟩
    · obtain ⟨row, hmem, rfl⟩ := List.mem_map.mp hstored
      rw [rowToRule_id] at hid
      refine ⟨r, ?_, rfl, hw⟩
      rw [tableRules, List.map_map]
      exact List.mem_map.mpr ⟨row, hmem, by rw [Function.comp_apply, if_pos hid, hrow]⟩

/-- An edited rule is mirrored when its test and what it wants agree. -/
theorem edit_mirrored {marks : List Int} {r stored : Rule}
    (hm : Enumerates marks (WantsMark db)) (hstored : stored ∈ tableRules db)
    (hid : stored.id = r.id) (hupd : pfConfigRuleUpdate db r = some db') :
    Enumerates (if intercepted r then marks.filter (· ≠ (r.id : Int)) ++ [(r.id : Int)]
      else marks.filter (· ≠ (r.id : Int))) (WantsMark db') ↔
      (intercepted r = true → wanted db r = true) := by
  have hafter := wants_edit hstored hid hupd
  have hgone := removed hm r.id
  split
  · next hmarks =>
    have hadded := hgone.append (.singleton (r.id : Int)) fun id hw heq => hw.2 heq
    rw [hadded.iff_congr]
    constructor
    · intro h _
      have hself := (hafter r.id).mp ((h r.id).mp (.inr rfl))
      exact (hself.resolve_left fun hw => hw.2 rfl).2
    · intro hw id
      rw [hafter id, and_iff_left (hw hmarks)]
  · next hmarks =>
    rw [hgone.iff_congr]
    refine iff_of_true (fun id => ?_) fun h => absurd h hmarks
    rw [hafter id]
    exact (or_iff_left fun hw => hmarks (wanted_imp_intercepted hw.2)).symm

theorem loadRule_some {rid : Int} {stored : Rule} (h : loadRule db rid = some stored) :
    stored ∈ tableRules db := by
  obtain ⟨row, hrow, rfl, -⟩ := pfConfigRuleGet_some (Option.ite_none_right_eq_some.mp h).2
  exact List.mem_map_of_mem hrow

theorem step_ruleEdit {params : Option Json} (hm : Mirrored n)
    (h : n.step (.ruleEdit params) = some n') : Mirrored n' ↔ Meets n (.ruleEdit params) := by
  obtain ⟨hok, rfl⟩ := answered_some h
  obtain ⟨p, stored, db, rfl, hload, hupd, heq⟩ := ruleEdit_ok hok
  have hmarks : (ruleEdit n.state (some p)).ops.foldl applyOp n.marks =
      if intercepted (ruleOverlay p stored) then
        n.marks.filter (· ≠ (stored.id : Int)) ++ [(stored.id : Int)]
      else n.marks.filter (· ≠ (stored.id : Int)) := by
    rw [heq]
    split <;> rfl
  have hid : stored.id = (ruleOverlay p stored).id := rfl
  have hstep := edit_mirrored hm (loadRule_some hload) hid hupd
  unfold Mirrored
  rw [hmarks, heq]
  apply hstep.trans
  simp only [Meets, Option.mem_some_iff, forall_eq', hload]
  exact forall_congr' wanted_iff

/-- A deletion always keeps the mirror. -/
theorem step_ruleDelete {params : Option Json} (hm : Mirrored n)
    (h : n.step (.ruleDelete params) = some n') : Mirrored n' := by
  obtain ⟨hok, rfl⟩ := answered_some h
  obtain ⟨gone, heq⟩ := ruleDelete_ok hok
  unfold Mirrored
  rw [heq]
  apply (removed hm gone).congr
  intro id
  constructor
  · intro hwants
    obtain ⟨⟨r, hr, rfl, hw⟩, hne⟩ := hwants
    obtain ⟨row, hmem, rfl⟩ := List.mem_map.mp hr
    exact ⟨rowToRule row, List.mem_map_of_mem (List.mem_filter.mpr ⟨hmem, by simpa using hne⟩),
      rfl, hw⟩
  · intro hwants
    obtain ⟨r, hr, rfl, hw⟩ := hwants
    obtain ⟨row, hmem, rfl⟩ := List.mem_map.mp hr
    obtain ⟨hmem, hne⟩ := List.mem_filter.mp hmem
    exact ⟨⟨rowToRule row, List.mem_map_of_mem hmem, rfl, hw⟩, by simpa using hne⟩

/-! ## Loops over the rules read -/

/-- The ids of the rules read that satisfy `p`. -/
theorem seen_enumerates (hs : db.Sound) (p : Rule → Bool) :
    Enumerates (((seenRules db).filter p).map fun r => (r.id : Int))
      fun id => ∃ r ∈ seenRules db, p r ∧ (r.id : Int) = id :=
  .map_filter (seen_ids_nodup hs) p

theorem foldl_adds {ops : Rule → List KernelOp}
    (hops : ∀ r marks, (ops r).foldl applyOp marks = marks ++ [(r.id : Int)]) (l : List Rule)
    (marks : List Int) :
    (l.flatMap ops).foldl applyOp marks = marks ++ l.map fun r => (r.id : Int) := by
  induction l generalizing marks with
  | nil => simp
  | cons r l ih =>
    rw [List.flatMap_cons, List.foldl_append, hops, ih, List.append_assoc]
    rfl

theorem foldl_removes {ops : Rule → List KernelOp}
    (hops : ∀ r marks, (ops r).foldl applyOp marks = marks.filter (· ≠ (r.id : Int)))
    (l : List Rule) (marks : List Int) :
    (l.flatMap ops).foldl applyOp marks =
      marks.filter (· ∉ l.map fun r => (r.id : Int)) := by
  induction l generalizing marks with
  | nil => simp
  | cons r l ih =>
    rw [List.flatMap_cons, List.foldl_append, hops, ih, List.filter_filter]
    apply List.filter_congr
    intro id _
    simp only [List.map_cons, List.mem_cons, not_or, Bool.decide_and, Bool.and_comm]

/-- A restart mirrors the table exactly when it restores exactly. -/
theorem start_mirrored (hs : db.Sound) : Mirrored (.start db) ↔ RestoresExactly db := by
  have hmarks : (Node.start db).marks =
      ((seenRules db).filter intercepted).map fun r => (r.id : Int) := by
    have hadds : (setupCgroupsForExistingRules (seenRules db)).foldl applyOp [] = _ :=
      foldl_adds (fun _ _ => rfl) ((seenRules db).filter intercepted) []
    rwa [List.nil_append] at hadds
  have hlist := seen_enumerates hs intercepted
  rw [← hmarks] at hlist
  apply hlist.iff_congr.trans
  constructor
  · intro h
    refine ⟨fun r hr hw => ?_, fun r hr hi => ?_⟩
    · obtain ⟨r', hr', -, hid⟩ := (h r.id).mpr ⟨r, hr, rfl, hw⟩
      have heq : r' = r := table_unique hs (seen_subset hr') hr (by exact_mod_cast hid)
      exact heq ▸ hr'
    · obtain ⟨r', hr', hid, hw⟩ := (h r.id).mp ⟨r, hr, hi, rfl⟩
      have heq : r' = r := table_unique hs hr' (seen_subset hr) (by exact_mod_cast hid)
      exact (wanted_iff hi).mp (heq ▸ hw)
  · intro hrestore id
    obtain ⟨hall, hon⟩ := hrestore
    constructor
    · rintro ⟨r, hr, hi, rfl⟩
      exact ⟨r, seen_subset hr, rfl, (wanted_iff hi).mpr (hon r hr hi)⟩
    · rintro ⟨r, hr, rfl, hw⟩
      exact ⟨r, hall r hr hw, wanted_imp_intercepted hw, rfl⟩

/-! ## Switching a proxy -/

theorem proxyOn_stored (hs : db.Sound) {st : ProxyRow} (hst : st ∈ db.proxies) :
    proxyOn db st.id = true ↔ st.enabled ≠ 0 := by
  simp only [proxyOn, List.any_eq_true, Bool.and_eq_true, decide_eq_true_eq]
  constructor
  · intro hany
    obtain ⟨st', hst', hid, hon⟩ := hany
    rwa [List.inj_on_of_nodup_map hs.proxyIds hst hst' hid.symm]
  · exact fun hon => ⟨st, hst, rfl, hon⟩

theorem proxyOn_update {p : Proxy} {st : ProxyRow} (hst : st ∈ db.proxies) (hid : st.id = p.id)
    (hupd : pfConfigProxyUpdate db p = some db') (pid : Nat) :
    proxyOn db' pid = if pid = p.id then decide (p.enabled ≠ 0) else proxyOn db pid := by
  simp only [pfConfigProxyUpdate, Option.ite_none_left_eq_some, Option.some.injEq] at hupd
  obtain ⟨-, rfl⟩ := hupd
  rw [Bool.eq_iff_iff]
  simp only [proxyOn, List.any_map, List.any_eq_true, Function.comp_apply, Bool.and_eq_true,
    decide_eq_true_eq]
  split
  · next hpid =>
    subst hpid
    rw [decide_eq_true_iff]
    constructor
    · intro hany
      obtain ⟨row, -, hrow, hon⟩ := hany
      by_cases heq : row.id = p.id
      · rwa [if_pos heq] at hon
      · rw [if_neg heq] at hrow
        exact absurd hrow heq
    · intro hon
      refine ⟨st, hst, ?_⟩
      rw [if_pos hid]
      exact ⟨hid, hon⟩
  · next hpid =>
    rw [List.any_eq_true]
    apply exists_congr
    intro row
    apply and_congr_right
    intro _
    by_cases heq : row.id = p.id
    · have hne : row.id ≠ pid := fun h => hpid (h.symm.trans heq)
      simp [heq, proxyToRow, Ne.symm hpid]
    · simp [heq]

theorem wanted_of_follows {pid : Nat} {r : Rule} (h : followsProxy pid r = true) :
    wanted db r = proxyOn db pid := by
  simp only [followsProxy, Bool.and_eq_true, decide_eq_true_eq] at h
  obtain ⟨⟨⟨haction, rfl⟩, henabled⟩, happ⟩ := h
  simp [wanted, haction, henabled, happ]

/-- A rule that does not follow the proxy wants what it wanted. -/
theorem wanted_of_not_follows {pid : Nat} {r : Rule} (h : ¬ followsProxy pid r = true)
    (hon : ∀ pid' ≠ pid, proxyOn db' pid' = proxyOn db pid') : wanted db' r = wanted db r := by
  simp only [followsProxy, Bool.and_eq_true, decide_eq_true_eq] at h
  unfold wanted
  by_cases hproxy : r.action = .proxy ∧ r.proxyId = pid
  · have hoff : ¬ (r.enabled ≠ 0 ∧ r.appPath.nonempty = true) := fun hr => h ⟨⟨hproxy, hr.1⟩, hr.2⟩
    have hfalse : (decide (r.enabled ≠ 0) && r.appPath.nonempty) = false := by
      rw [Bool.eq_false_iff]
      simpa only [ne_eq, Bool.and_eq_true, decide_eq_true_eq] using hoff
    rw [hfalse, Bool.false_and, Bool.false_and, Bool.false_and]
  · by_cases haction : r.action = .proxy
    · rw [hon r.proxyId fun hid => hproxy ⟨haction, hid⟩]
    · simp [haction]

/-- Some rule with this id follows the proxy. -/
def Follows (db : Db) (pid : Nat) (id : Int) : Prop :=
  ∃ r ∈ tableRules db, followsProxy pid r ∧ (r.id : Int) = id

/-- Some rule read with this id follows the proxy. -/
def SeenFollows (db : Db) (pid : Nat) (id : Int) : Prop :=
  ∃ r ∈ seenRules db, followsProxy pid r ∧ (r.id : Int) = id

theorem SeenFollows.follows {pid : Nat} {id : Int} (h : SeenFollows db pid id) :
    Follows db pid id := by
  obtain ⟨r, hr, hf, rfl⟩ := h
  exact ⟨r, seen_subset hr, hf, rfl⟩

theorem all_seen_iff (hs : db.Sound) (pid : Nat) :
    (∀ id, Follows db pid id → SeenFollows db pid id) ↔
      ∀ r ∈ tableRules db, followsProxy pid r → r ∈ seenRules db := by
  constructor
  · intro h r hr hf
    obtain ⟨r', hr', -, hid⟩ := h r.id ⟨r, hr, hf, rfl⟩
    have heq : r' = r := table_unique hs (seen_subset hr') hr (by exact_mod_cast hid)
    exact heq ▸ hr'
  · rintro h id ⟨r, hr, hf, rfl⟩
    exact ⟨r, h r hr hf, hf, rfl⟩

/-- Whether the rules of a proxy want their marks is its flag. -/
theorem follows_wants (hs : db.Sound) {pid : Nat} {id : Int} (hf : Follows db pid id) :
    WantsMark db id ↔ proxyOn db pid = true := by
  obtain ⟨r, hr, hfollows, rfl⟩ := hf
  constructor
  · intro hwants
    obtain ⟨r', hr', hid, hw⟩ := hwants
    have heq : r' = r := table_unique hs hr' hr (by exact_mod_cast hid)
    rwa [heq, wanted_of_follows hfollows] at hw
  · exact fun hon => ⟨r, hr, rfl, by rwa [wanted_of_follows hfollows]⟩

/-- What is wanted once the proxy is on or off; the rules are the same. -/
theorem wants_switch (hs : db.Sound) {pid : Nat} (hrules : db'.rules = db.rules)
    (hon : ∀ pid' ≠ pid, proxyOn db' pid' = proxyOn db pid') (id : Int) :
    WantsMark db' id ↔
      if proxyOn db' pid then WantsMark db id ∧ ¬ Follows db pid id ∨ Follows db pid id
      else WantsMark db id ∧ ¬ Follows db pid id := by
  have htable : tableRules db' = tableRules db := by rw [tableRules, hrules, tableRules]
  have hsplit : WantsMark db' id ↔
      WantsMark db id ∧ ¬ Follows db pid id ∨ Follows db pid id ∧ proxyOn db' pid = true := by
    unfold WantsMark
    rw [htable]
    constructor
    · intro hwants
      obtain ⟨r, hr, rfl, hw⟩ := hwants
      by_cases hf : followsProxy pid r = true
      · exact .inr ⟨⟨r, hr, hf, rfl⟩, by rwa [wanted_of_follows hf] at hw⟩
      · rw [wanted_of_not_follows hf hon] at hw
        refine .inl ⟨⟨r, hr, rfl, hw⟩, ?_⟩
        intro hfollows
        obtain ⟨r', hr', hf', hid⟩ := hfollows
        have heq : r' = r := table_unique hs hr' hr (by exact_mod_cast hid)
        exact hf (heq ▸ hf')
    · intro hwants
      obtain ⟨⟨r, hr, rfl, hw⟩, hnot⟩ | ⟨⟨r, hr, hf, rfl⟩, hwon⟩ := hwants
      · have hf : ¬ followsProxy pid r = true := fun hf => hnot ⟨r, hr, hf, rfl⟩
        exact ⟨r, hr, rfl, by rwa [wanted_of_not_follows hf hon]⟩
      · exact ⟨r, hr, rfl, by rwa [wanted_of_follows hf]⟩
  rw [hsplit]
  split
  · next h => rw [and_iff_left h]
  · next h => exact or_iff_left fun hf => h hf.2

/-- A switched proxy is mirrored when all its rules are among those read. -/
theorem switch_mirrored (hs : db.Sound) {marks : List Int} {pid : Nat}
    (hm : Enumerates marks (WantsMark db)) (hrules : db'.rules = db.rules)
    (hon : ∀ pid' ≠ pid, proxyOn db' pid' = proxyOn db pid')
    (hswitch : ¬ proxyOn db pid = proxyOn db' pid) :
    Enumerates ((((seenRules db).filter (followsProxy pid)).flatMap
      (syncRule (proxyOn db' pid))).foldl applyOp marks) (WantsMark db') ↔
      ∀ r ∈ tableRules db, followsProxy pid r → r ∈ seenRules db := by
  have hseen : Enumerates _ (SeenFollows db pid) := seen_enumerates hs (followsProxy pid)
  have hafter := wants_switch hs hrules hon
  have hwants : ∀ id, Follows db pid id → (WantsMark db id ↔ proxyOn db pid = true) :=
    fun id hf => follows_wants hs hf
  have hsub : ∀ id, SeenFollows db pid id → Follows db pid id := fun id h => h.follows
  rw [← all_seen_iff hs]
  cases hflag : proxyOn db' pid with
  | true =>
    have hoff : ¬ proxyOn db pid = true := fun h => hswitch (h.trans hflag.symm)
    rw [foldl_adds (fun _ _ => rfl)]
    have hadded := hm.append hseen fun id hw hs' => hoff ((hwants id (hsub id hs')).mp hw)
    rw [hadded.iff_congr]
    apply forall_congr'
    intro id
    have hunwanted : Follows db pid id → ¬ WantsMark db id := fun hf hw => hoff ((hwants id hf).mp hw)
    have hfollows := hsub id
    rw [hafter id, if_pos hflag]
    grind
  | false =>
    have hwason : proxyOn db pid = true := by
      cases h : proxyOn db pid
      · exact absurd (h.trans hflag.symm) hswitch
      · rfl
    rw [foldl_removes (fun _ _ => rfl)]
    rw [(hm.filter _).iff_congr]
    apply forall_congr'
    intro id
    have hwanted : Follows db pid id → WantsMark db id := fun hf => (hwants id hf).mpr hwason
    have hfollows := hsub id
    rw [hafter id, if_neg (by simp [hflag]), decide_eq_true_iff, hseen.mem_iff]
    grind

theorem proxyUpdate_rules {p : Proxy} (hupd : pfConfigProxyUpdate db p = some db') :
    db'.rules = db.rules := by
  simp only [pfConfigProxyUpdate, Option.ite_none_left_eq_some, Option.some.injEq] at hupd
  rw [← hupd.2]

theorem wants_congr (hrules : db'.rules = db.rules) (hon : ∀ pid, proxyOn db' pid = proxyOn db pid)
    (id : Int) : WantsMark db id ↔ WantsMark db' id := by
  have hw : ∀ r, wanted db' r = wanted db r := fun r => by rw [wanted, hon, wanted]
  simp only [WantsMark, tableRules, hrules, hw]

theorem step_proxyEdit {params : Option Json} (hs : n.state.db.Sound) (hm : Mirrored n)
    (h : n.step (.proxyEdit params) = some n') : Mirrored n' ↔ Meets n (.proxyEdit params) := by
  obtain ⟨hok, rfl⟩ := answered_some h
  obtain ⟨p, stored, db', rfl, hload, hupd, heq⟩ := proxyEdit_ok hok
  obtain ⟨st, hst, rfl⟩ := pfConfigProxyGet_some (Option.ite_none_right_eq_some.mp hload).2
  have hrules := proxyUpdate_rules hupd
  have hafter := proxyOn_update hst rfl hupd
  have hbefore := proxyOn_stored hs hst
  have hself : proxyOn db' st.id = decide ((proxyOverlay p (rowToProxy st)).enabled ≠ 0) :=
    (hafter st.id).trans (if_pos rfl)
  have hothers : ∀ pid ≠ st.id, proxyOn db' pid = proxyOn n.state.db pid :=
    fun pid hne => (hafter pid).trans (if_neg hne)
  have hmeets : Meets n (.proxyEdit (some p)) ↔
      ((rowToProxy st).enabled ≠ (proxyOverlay p (rowToProxy st)).enabled →
        ∀ r ∈ tableRules n.state.db, followsProxy st.id r → r ∈ seenRules n.state.db) := by
    simp only [Meets, Option.mem_some_iff, forall_eq', hload, rowToProxy_id]
  have hflags := hs.proxyFlags st hst
  have hflags' := proxyOverlay_enabled (p := rowToProxy st) p hflags
  rw [hmeets]
  unfold Mirrored
  rw [heq]
  by_cases hsame : (rowToProxy st).enabled = (proxyOverlay p (rowToProxy st)).enabled
  · rw [if_neg (not_not.mpr hsame)]
    have hon : ∀ pid, proxyOn db' pid = proxyOn n.state.db pid := by
      intro pid
      by_cases hpid : pid = st.id
      · rw [hpid, hself, ← hsame, Bool.eq_iff_iff, hbefore, decide_eq_true_iff]
        rfl
      · exact hothers pid hpid
    exact iff_of_true (hm.congr (wants_congr hrules hon)) fun hne => absurd hsame hne
  · have hswitch : ¬ proxyOn n.state.db st.id = proxyOn db' st.id := by
      intro hon
      rw [hself, Bool.eq_iff_iff, hbefore, decide_eq_true_iff] at hon
      rw [rowToProxy_enabled] at hsame
      omega
    have hseen : pfConfigRuleList db' pfMaxRules = seenRules n.state.db := by
      rw [seenRules, pfConfigRuleList, pfConfigRuleList, hrules]
    have hstep := switch_mirrored hs hm hrules hothers hswitch
    rw [if_pos hsame, hseen, ← hself]
    exact hstep.trans ⟨fun h _ => h, fun h => h hsame⟩

/-! ## Every run -/

/-- From a mirrored state a step leads to one exactly when its test agrees with the table. -/
theorem step_mirrors {c : Change} (hs : n.state.db.Sound) (hm : Mirrored n)
    (h : n.step c = some n') : Mirrored n' ↔ Meets n c := by
  cases c with
  | ruleAdd params => exact step_ruleAdd hs hm h
  | ruleEdit params => exact step_ruleEdit hm h
  | ruleDelete params => exact iff_of_true (step_ruleDelete hm h) trivial
  | proxyEdit params => exact step_proxyEdit hs hm h
  | restart =>
    obtain rfl := Option.some.inj h
    exact start_mirrored hs

structure Kept (n : Node) : Prop where
  sound : n.state.db.Sound
  mirrored : Mirrored n

theorem kept_step {c : Change} (hk : Kept n) (hg : Meets n c) (h : n.step c = some n') : Kept n' :=
  ⟨Node.step_sound hk.sound h, (step_mirrors hk.sound hk.mirrored h).mpr hg⟩

/-- A daemon started on a database it maintains. -/
def Started (n : Node) : Prop := ∃ db : Db, db.Sound ∧ n = .start db

/-- In every run whose start and steps restore, add, edit and switch within those tests, each rule
id has one mark if the table asks for it and none otherwise. -/
theorem marks_mirror_database
    (hr : Reach Node.step Meets (fun n => Started n ∧ RestoresExactly n.state.db) n) (id : Int) :
    n.marks.count id = if WantsMark n.state.db id then 1 else 0 := by
  have hkept : Kept n := by
    refine hr.invariant (fun s hs => ?_) fun _ _ _ => kept_step
    obtain ⟨⟨db, hdb, rfl⟩, hrestore⟩ := hs
    exact ⟨hdb, (start_mirrored hdb).mpr hrestore⟩
  exact hkept.mirrored.count id

/-- A database with one enabled proxy and no rule. -/
def oneProxy : Db :=
  { Db.empty with
    proxies := [⟨1, lit "p", lit "socks5", lit "10.0.0.1", 1080, none, none, none, 1, 0, 0⟩] }

theorem oneProxy_sound : oneProxy.Sound := ⟨by decide, by decide, by decide, by decide⟩

def request (fields : List (String × Json)) : Option Json :=
  some (.obj (fields.map fun f => (lit f.1, f.2)))

/-- A PROXY and a BLOCK rule; the proxy off and on again; the second rule disabled, the first
deleted; a restart. -/
def aSession : List Change :=
  [.ruleAdd (request [("match_app", .str (lit "/usr/bin/firefox")), ("action", .str (lit "PROXY")),
      ("proxy_id", .num 1)]),
    .ruleAdd (request [("match_app", .str (lit "/usr/bin/curl")), ("action", .str (lit "BLOCK"))]),
    .proxyEdit (request [("id", .num 1), ("enabled", .bool false)]),
    .proxyEdit (request [("id", .num 1), ("enabled", .bool true)]),
    .ruleEdit (request [("id", .num 2), ("enabled", .bool false)]),
    .restart,
    .ruleDelete (request [("id", .num 2)])]

def ruleDisabled : Change :=
  .ruleAdd (request [("match_app", .str (lit "/usr/bin/curl")), ("action", .str (lit "BLOCK")),
    ("enabled", .bool false)])

theorem oneProxy_start :
    Started (.start oneProxy) ∧ RestoresExactly (Node.start oneProxy).state.db :=
  ⟨⟨oneProxy, oneProxy_sound, rfl⟩, by decide⟩

theorem marks_mirror_database_aSession :
    ∃ n, Reach Node.step Meets (fun n => Started n ∧ RestoresExactly n.state.db) n ∧
      n.marks = [1] ∧ ∀ id, n.marks.count id = if WantsMark n.state.db id then 1 else 0 := by
  have hmarks : ((run (guarded Node.step fun n c => decide (Meets n c)) (.start oneProxy)
      aSession).map Node.marks) = some [1] := by decide
  obtain ⟨n, hrun, hone⟩ := Option.map_eq_some_iff.mp hmarks
  have hstart : Reach Node.step (fun n c => decide (Meets n c) = true)
      (fun n => Started n ∧ RestoresExactly n.state.db) (.start oneProxy) := .start oneProxy_start
  have hreach := (hstart.run_guarded hrun).mono fun n c => of_decide_eq_true (p := Meets n c)
  exact ⟨n, hreach, hone, marks_mirror_database hreach⟩

/-- A rule added disabled is marked although nothing asks for it. -/
theorem disabled_rule_is_marked :
    ∃ n, Reach Node.step (fun _ _ => True) Started n ∧
      ¬ ∀ id, n.marks.count id = if WantsMark n.state.db id then 1 else 0 := by
  have hwrong : (run Node.step (.start oneProxy) [ruleDisabled]).any fun n =>
      decide (n.marks.count 1 = 1 ∧ ¬ WantsMark n.state.db 1) := by decide
  obtain ⟨n, hrun, hn⟩ := Option.any_eq_true _ _ |>.mp hwrong
  obtain ⟨hone, hnone⟩ := of_decide_eq_true hn
  refine ⟨n, Reach.run (.start oneProxy_start.1) (fun _ _ _ => trivial) hrun, fun h => ?_⟩
  rw [h 1, if_neg hnone] at hone
  cases hone

end Proxiflare.Guarantees.MarkMirror
