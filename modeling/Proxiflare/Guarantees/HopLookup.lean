import Proxiflare.Daemon.Routing
import Proxiflare.Daemon.Tables
import Mathlib.Data.List.Sort
import Mathlib.Data.List.Lex

/-!
# Where the hops of a chain are looked up

A proxy named by a rule is read by its id. The hops of a chain are searched in the
listing of all proxies by name, which ends after 256 of them: a proxy that as many names
sort before is unknown there.
-/

namespace Proxiflare.Guarantees.HopLookup

open Lib.CString Lib Lib.Runs
open Proxiflare.Daemon

/-- What the constraints of the schema guarantee of proxies and hops. -/
structure Constrained (t : Tables) : Prop where
  ids : Keyed ProxyRow.id t.proxySeq t.proxies
  names : (t.proxies.map ProxyRow.name).Nodup
  hopProxy : ∀ h ∈ t.hops, ∃ r ∈ t.proxies, r.id = h.2.proxyId

/-! ## The constraints are kept -/

theorem Constrained.empty : Constrained Tables.empty :=
  ⟨.nil _ _, List.nodup_nil, List.forall_mem_nil _⟩

theorem name_free_iff {t : Tables} {id : Nat} {name : CStr} :
    t.proxyNameFree id name = true ↔ ∀ r ∈ t.proxies, r.id = id ∨ r.name ≠ name := by
  simp [Tables.proxyNameFree]

variable {t t' : Tables}

/-- Hops keep their proxies when every proxy is still there under its id. -/
theorem hopProxy_of_ids (h : Constrained t) {rows : List ProxyRow}
    (hids : ∀ r ∈ t.proxies, ∃ r' ∈ rows, r'.id = r.id) :
    ∀ hop ∈ t.hops, ∃ r ∈ rows, r.id = hop.2.proxyId := by
  intro hop hhop
  obtain ⟨r, hr, heq⟩ := h.hopProxy hop hhop
  obtain ⟨r', hr', heq'⟩ := hids r hr
  exact ⟨r', hr', heq'.trans heq⟩

theorem names_update {rows : List ProxyRow} {id : Nat} {name : CStr} {f : ProxyRow → ProxyRow}
    (hids : (rows.map ProxyRow.id).Nodup) (hnames : (rows.map ProxyRow.name).Nodup)
    (hf : ∀ r, (f r).name = if r.id = id then name else r.name)
    (hfree : ∀ r ∈ rows, r.id = id ∨ r.name ≠ name) : ((rows.map f).map ProxyRow.name).Nodup := by
  rw [List.map_map]
  refine List.Nodup.map_on ?_ (List.Nodup.of_map _ hids)
  intro a ha b hb heq
  simp only [Function.comp_apply, hf] at heq
  by_cases hai : a.id = id
  · by_cases hbi : b.id = id
    · exact List.inj_on_of_nodup_map hids ha hb (hai.trans hbi.symm)
    · rw [if_pos hai, if_neg hbi] at heq
      exact absurd heq.symm ((hfree b hb).resolve_left hbi)
  · by_cases hbi : b.id = id
    · rw [if_neg hai, if_pos hbi] at heq
      exact absurd heq ((hfree a ha).resolve_left hai)
    · rw [if_neg hai, if_neg hbi] at heq
      exact List.inj_on_of_nodup_map hnames ha hb heq

theorem Constrained.exec (stmt : Statement) (h : Constrained t) (hexec : stmt.exec t = some t') :
    Constrained t' := by
  cases stmt with
  | insertProxy p =>
    simp only [Statement.exec, Option.ite_none_right_eq_some, Option.some.injEq] at hexec
    obtain ⟨hfree, rfl⟩ := hexec
    have hnew : p.name.chars ∉ t.proxies.map ProxyRow.name := by
      intro hmem
      obtain ⟨r, hr, heq⟩ := List.mem_map.mp hmem
      have hid := (name_free_iff.mp hfree r hr).resolve_right (not_not.mpr heq)
      have hle := h.ids.le r hr
      omega
    refine ⟨h.ids.insert rfl, ?_, hopProxy_of_ids h fun r hr => ?_⟩
    · rw [List.map_append, List.nodup_append']
      exact ⟨h.names, List.nodup_singleton _, List.disjoint_singleton.mpr hnew⟩
    · exact ⟨r, List.mem_append_left _ hr, rfl⟩
  | updateProxy p =>
    simp only [Statement.exec, Option.ite_none_left_eq_some, Option.some.injEq] at hexec
    obtain ⟨hfree, rfl⟩ := hexec
    have hid : ∀ r : ProxyRow, (if r.id = p.id then proxyToRow r.id p else r).id = r.id := by
      intro r
      split <;> rfl
    refine ⟨h.ids.map hid, ?_, hopProxy_of_ids h fun r hr => ?_⟩
    · by_cases hthere : t.hasProxy p.id = true
      · rw [hthere, Bool.true_and, Bool.not_eq_true', Bool.not_eq_false] at hfree
        refine names_update h.ids.nodup h.names (fun r => ?_) (name_free_iff.mp hfree)
        split <;> rfl
      · have hnone : ∀ r ∈ t.proxies, (if r.id = p.id then proxyToRow r.id p else r) = r := by
          intro r hr
          refine if_neg fun heq => hthere ?_
          exact List.any_eq_true.mpr ⟨r, hr, decide_eq_true heq⟩
        show ((t.proxies.map fun r => if r.id = p.id then proxyToRow r.id p else r).map
          ProxyRow.name).Nodup
        rw [map_eq_self_iff.mpr hnone]
        exact h.names
    · exact ⟨_, List.mem_map_of_mem hr, hid r⟩
  | deleteProxy id =>
    simp only [Statement.exec, Option.ite_none_left_eq_some, Option.some.injEq] at hexec
    obtain ⟨hused, rfl⟩ := hexec
    refine ⟨h.ids.filter _, h.names.sublist (List.filter_sublist.map _), fun hop hhop => ?_⟩
    obtain ⟨r, hr, heq⟩ := h.hopProxy hop hhop
    refine ⟨r, List.mem_filter.mpr ⟨hr, decide_eq_true fun hid => hused ?_⟩, heq⟩
    have hany : (t.hops.any fun h => (h.2.proxyId : Int) = id) = true :=
      List.any_eq_true.mpr ⟨hop, hhop, decide_eq_true (heq ▸ hid)⟩
    rw [hany, Bool.or_true]
  | updateHealth id health latencyMs =>
    obtain rfl := Option.some.inj hexec
    have hid : ∀ r : ProxyRow, (if (r.id : Int) = id then
        { r with health := health, latencyMs := intOfUInt32 (uint32OfInt latencyMs) } else r).id =
          r.id := by
      intro r
      split <;> rfl
    refine ⟨h.ids.map hid, ?_, hopProxy_of_ids h fun r hr => ⟨_, List.mem_map_of_mem hr, hid r⟩⟩
    have hname : ∀ r : ProxyRow, (if (r.id : Int) = id then
        { r with health := health, latencyMs := intOfUInt32 (uint32OfInt latencyMs) } else r).name =
          r.name := by
      intro r
      split <;> rfl
    show ((t.proxies.map _).map ProxyRow.name).Nodup
    rw [List.map_map]
    exact (List.map_congr_left fun r _ => hname r) ▸ h.names
  | deleteChain id =>
    simp only [Statement.exec, Option.ite_none_left_eq_some, Option.some.injEq] at hexec
    obtain ⟨-, rfl⟩ := hexec
    exact { h with hopProxy := forall_mem_filter h.hopProxy _ }
  | deleteHops chainId =>
    obtain rfl := Option.some.inj hexec
    exact { h with hopProxy := forall_mem_filter h.hopProxy _ }
  | insertHop chainId proxyId hopOrder =>
    simp only [Statement.exec, Option.ite_none_right_eq_some, Option.some.injEq] at hexec
    obtain ⟨hok, rfl⟩ := hexec
    simp only [Bool.and_eq_true, Tables.hasProxy, List.any_eq_true, decide_eq_true_eq] at hok
    exact { h with hopProxy := forall_mem_snoc h.hopProxy hok.1.2 }
  | insertRule r =>
    simp only [Statement.exec, Option.ite_none_right_eq_some, Option.some.injEq] at hexec
    obtain ⟨-, rfl⟩ := hexec
    exact { h with }
  | updateRule r =>
    simp only [Statement.exec, Option.ite_none_left_eq_some, Option.some.injEq] at hexec
    obtain ⟨-, rfl⟩ := hexec
    exact { h with }
  | insertChain name enabled =>
    simp only [Statement.exec, Option.ite_none_right_eq_some, Option.some.injEq] at hexec
    obtain ⟨-, rfl⟩ := hexec
    exact { h with }
  | updateChain id name enabled =>
    simp only [Statement.exec, Option.ite_none_left_eq_some, Option.some.injEq] at hexec
    obtain ⟨-, rfl⟩ := hexec
    exact { h with }
  | deleteRule id =>
    obtain rfl := Option.some.inj hexec
    exact { h with }
  | setPriority priority id =>
    obtain rfl := Option.some.inj hexec
    exact { h with }
  | setConfig key value =>
    obtain rfl := Option.some.inj hexec
    exact { h with }

/-- Whatever statements are executed or refused. -/
theorem constrained_of_reach
    (hr : Reach (fun t (stmt : Statement) => stmt.exec t) (fun _ _ => True) (· = Tables.empty) t) :
    Constrained t := by
  refine hr.invariant (fun t ht => ?_) fun t stmt t' h _ hs => h.exec stmt hs
  rw [ht]
  exact .empty

/-! ## A listing cut off -/

/-- An element of a sorted list is among the first `n` when fewer than `n` come before it. -/
theorem mem_take_iff {α : Type} {lt : α → α → Prop} [DecidableRel lt]
    (hasymm : ∀ a b, lt a b → ¬ lt b a) {l : List α} {x : α} {n : Nat} (hsorted : l.Pairwise lt)
    (hx : x ∈ l) : x ∈ l.take n ↔ l.countP (fun a => lt a x) < n := by
  have hirrefl : ∀ a, ¬ lt a a := fun a h => hasymm a a h h
  induction l generalizing n with
  | nil => cases hx
  | cons a l ih =>
    obtain ⟨hhead, htail⟩ := List.pairwise_cons.mp hsorted
    cases n with
    | zero => simp
    | succ n =>
      rw [List.take_succ_cons, List.mem_cons]
      rcases List.mem_cons.mp hx with rfl | hin
      · have hnone : (x :: l).countP (fun a => lt a x) = 0 := by
          rw [List.countP_eq_zero]
          intro b hb
          rcases List.mem_cons.mp hb with rfl | hb
          · simpa using hirrefl b
          · simpa using hasymm x b (hhead b hb)
        rw [hnone]
        exact iff_of_true (.inl rfl) n.succ_pos
      · have hlt := hhead x hin
        have hne : x ≠ a := by
          rintro rfl
          exact hirrefl x hlt
        have hrest : x ∈ l.take n ↔ l.countP (fun a => lt a x) < n := ih htail hin
        rw [List.countP_cons_of_pos (by simpa using hlt), Nat.add_lt_add_iff_right, ← hrest]
        exact or_iff_right hne

/-- How many proxies are named before this one. -/
def rank (t : Tables) (r : ProxyRow) : Nat := t.proxies.countP fun a => a.name < r.name

theorem mem_listed_iff (h : Constrained t) {r : ProxyRow} (hr : r ∈ t.proxies) (max : Nat) :
    r ∈ (t.proxies.insertionSort fun a b => a.name ≤ b.name).take max ↔ rank t r < max := by
  have hperm := List.perm_insertionSort (fun a b : ProxyRow => a.name ≤ b.name) t.proxies
  have hle := List.pairwise_insertionSort (fun a b : ProxyRow => a.name ≤ b.name) t.proxies
  have hnodup := (hperm.map ProxyRow.name).nodup_iff.mpr h.names
  have hsorted : (t.proxies.insertionSort fun a b => a.name ≤ b.name).Pairwise
      fun a b => a.name < b.name := by
    refine (hle.and (List.pairwise_map.mp hnodup)).imp fun hab => ?_
    exact Std.lt_of_le_of_ne hab.1 hab.2
  have hasymm : ∀ a b : ProxyRow, a.name < b.name → ¬ b.name < a.name := fun _ _ => Std.Asymm.asymm _ _
  rw [mem_take_iff hasymm hsorted (hperm.mem_iff.mpr hr)]
  unfold rank
  rw [hperm.countP_eq]

/-- The listing has the proxy if fewer than `max` are named before it. -/
theorem findProxy_listed (h : Constrained t) {r : ProxyRow} (hr : r ∈ t.proxies) (max : Nat) :
    findProxy (pfConfigProxyList t.db max) r.id =
      if rank t r < max then some (rowToProxy r) else none := by
  have hperm := List.perm_insertionSort (fun a b : ProxyRow => a.name ≤ b.name) t.proxies
  have hsame : ∀ a ∈ (t.proxies.insertionSort fun a b => a.name ≤ b.name).take max,
      a.id = r.id → a = r := fun a ha heq =>
    h.ids.eq_of_key (hperm.mem_iff.mp (List.mem_of_mem_take ha)) hr heq
  have hlisted : findProxy (pfConfigProxyList t.db max) r.id =
      (((t.proxies.insertionSort fun a b => a.name ≤ b.name).take max).find?
        fun a => a.id = r.id).map rowToProxy := List.find?_map
  rw [hlisted]
  by_cases hrank : rank t r < max
  · have hin := (mem_listed_iff h hr max).mpr hrank
    rw [if_pos hrank]
    cases hfind : ((t.proxies.insertionSort fun a b => a.name ≤ b.name).take max).find?
        fun a => a.id = r.id with
    | none =>
      have hother := List.find?_eq_none.mp hfind r hin
      exact absurd (decide_eq_true rfl) hother
    | some a =>
      have hid := List.find?_some hfind
      rw [hsame a (List.mem_of_find?_eq_some hfind) (of_decide_eq_true hid)]
      rfl
  · rw [if_neg hrank, Option.map_eq_none_iff, List.find?_eq_none]
    intro a ha heq
    obtain rfl := hsame a ha (of_decide_eq_true heq)
    exact hrank ((mem_listed_iff h hr max).mp ha)

theorem proxyGet_stored (h : Constrained t) {r : ProxyRow} (hr : r ∈ t.proxies) :
    pfConfigProxyGet t.db r.id = some (rowToProxy r) := by
  unfold pfConfigProxyGet
  rw [show t.db.proxies.find? _ = some r from h.ids.find? hr fun x => by simp]
  rfl

theorem hop_stored (h : Constrained t) {id : Int} {chain : Chain}
    (hget : pfConfigChainGet t.db id = some chain) {hop : Nat} (hhop : hop ∈ chain.hops) :
    ∃ r ∈ t.proxies, r.id = hop := by
  obtain ⟨row, -, rfl⟩ := Option.map_eq_some_iff.mp hget
  obtain ⟨hrow, hin, rfl⟩ := List.mem_map.mp (List.mem_of_mem_take hhop)
  have hmem := List.mem_of_mem_filter ((List.perm_insertionSort _ _).mem_iff.mp hin)
  obtain ⟨stored, hstored, heq⟩ := List.mem_map.mp hmem
  obtain ⟨r, hr, hid⟩ := h.hopProxy stored hstored
  exact ⟨r, hr, hid.trans (congrArg ChainHopRow.proxyId heq)⟩

/-- Every hop of the chain is found as it is stored. -/
def HopsResolve (t : Tables) (chain : Chain) : Prop :=
  ∀ hop ∈ chain.hops, ∃ p, findProxy (pfConfigProxyList t.db pfMaxProxies) hop = some p ∧
    pfConfigProxyGet t.db hop = some p

/-- The hops of a stored chain are found exactly if fewer than 256 proxies are named before each. -/
theorem hops_resolve_iff (h : Constrained t) {id : Int} {chain : Chain}
    (hget : pfConfigChainGet t.db id = some chain) :
    HopsResolve t chain ↔
      ∀ hop ∈ chain.hops, ∀ r ∈ t.proxies, r.id = hop → rank t r < pfMaxProxies := by
  constructor
  · rintro hresolve hop hhop r hr rfl
    obtain ⟨p, hfind, -⟩ := hresolve r.id hhop
    rw [findProxy_listed h hr] at hfind
    by_contra hrank
    rw [if_neg hrank] at hfind
    cases hfind
  · intro hranks hop hhop
    obtain ⟨r, hr, rfl⟩ := hop_stored h hget hhop
    refine ⟨rowToProxy r, ?_, proxyGet_stored h hr⟩
    rw [findProxy_listed h hr, if_pos (hranks r.id hhop r hr rfl)]

/-! ## A table too long -/

/-- Proxies named in the order of their ids. -/
def numberedProxy (i : Nat) : ProxyRow :=
  ⟨i + 1, [UInt8.ofNat (97 + i / 16), UInt8.ofNat (97 + i % 16)], lit "socks5", lit "10.0.0.1",
    1080, none, none, none, 1, 0, 0⟩

/-- So many proxies, and a chain through the last of them. -/
def crowded (n : Nat) : Tables :=
  { Tables.empty with
    proxies := (List.range n).map numberedProxy
    proxySeq := n
    chains := [⟨1, lit "c", 1⟩]
    chainSeq := 1
    hops := [(1, ⟨1, n, 0⟩)]
    hopSeq := 1 }

theorem hops_resolve_iff_two :
    ∃ chain, pfConfigChainGet (crowded 2).db 1 = some chain ∧ chain.hops = [2] ∧
      (HopsResolve (crowded 2) chain ↔
        ∀ hop ∈ chain.hops, ∀ r ∈ (crowded 2).proxies, r.id = hop →
          rank (crowded 2) r < pfMaxProxies) := by
  have h : Constrained (crowded 2) := ⟨⟨by decide, by decide⟩, by decide, by decide⟩
  obtain ⟨chain, hget⟩ := Option.isSome_iff_exists.mp
    (show (pfConfigChainGet (crowded 2).db 1).isSome = true by decide)
  have hhops : (pfConfigChainGet (crowded 2).db 1).map Chain.hops = some [2] := by decide
  rw [hget] at hhops
  exact ⟨chain, hget, Option.some.inj hhops, hops_resolve_iff h hget⟩

theorem last_proxy_is_unknown :
    ∃ chain, pfConfigChainGet (crowded 257).db 1 = some chain ∧
      (∀ hop ∈ chain.hops, (pfConfigProxyGet (crowded 257).db hop).isSome = true) ∧
      ¬ HopsResolve (crowded 257) chain := by
  refine ⟨_, rfl, by decide +kernel, fun h => ?_⟩
  obtain ⟨p, hfind, -⟩ := h 257 (by decide +kernel)
  have hnone : (findProxy (pfConfigProxyList (crowded 257).db pfMaxProxies) 257).isNone = true := by
    decide +kernel
  rw [hfind] at hnone
  cases hnone

end Proxiflare.Guarantees.HopLookup
