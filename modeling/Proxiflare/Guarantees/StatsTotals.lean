import Proxiflare.Daemon.Stats

/-!
# Totals since the last reset

Every run of updates and resets: the entry of an id is what its updates since the last reset add
up to. The byte counters are exact modulo 2^64. The number of connections and the latencies are
added up in an `int`, so they are exact as long as these sums fit.
-/

namespace Proxiflare.Guarantees.StatsTotals

open Lib.Tally
open Proxiflare.Daemon

/-! ## The history -/

def seenBy (ids : List Int32) : StatsCall → List Int32
  | .update u => addKey ids u.proxyId
  | .reset => ids

/-- The ids that were updated, in the order of the first update. -/
def seen (calls : List StatsCall) : List Int32 := calls.foldl seenBy []

def sinceBy (updates : List StatsUpdate) : StatsCall → List StatsUpdate
  | .update u => updates ++ [u]
  | .reset => []

/-- The updates since the last reset. -/
def sinceReset (calls : List StatsCall) : List StatsUpdate := calls.foldl sinceBy []

def ownUpdates (updates : List StatsUpdate) (id : Int32) : List StatsUpdate :=
  updates.filter fun u => u.proxyId = id

/-- The positive latencies. -/
def samples (updates : List StatsUpdate) : List Nat :=
  (updates.filter fun u => 0 < u.latencyMs).map fun u => u.latencyMs.toInt.toNat

/-- What the statistics of an id should say of its updates. -/
def exactRow (updates : List StatsUpdate) (id : Int32) : StatsRow :=
  let own := ownUpdates updates id
  { proxyId := id.toInt
    bytesTx := (own.map fun u => u.bytesTx.toNat).sum % 2 ^ 64
    bytesRx := (own.map fun u => u.bytesRx.toNat).sum % 2 ^ 64
    connections := own.length
    avgLatencyMs := ((samples own).sum / (samples own).length : Nat) }

/-- The number of updates and the sum of the latencies fit into an `int`. -/
def FitsInt (own : List StatsUpdate) : Prop := own.length < 2 ^ 31 ∧ (samples own).sum < 2 ^ 31

/-! ## Entries -/

/-- The entry of an id after its updates. -/
def entryOf (id : Int32) (own : List StatsUpdate) : PfStatsEntry :=
  own.foldl (fun e u => e.add u.bytesTx u.bytesRx u.latencyMs) (.zero id)

theorem entryOf_snoc (id : Int32) (own : List StatsUpdate) (u : StatsUpdate) :
    entryOf id (own ++ [u]) = (entryOf id own).add u.bytesTx u.bytesRx u.latencyMs :=
  List.foldl_concat ..

theorem samples_snoc (own : List StatsUpdate) (u : StatsUpdate) : samples (own ++ [u]) =
    samples own ++ if 0 < u.latencyMs then [u.latencyMs.toInt.toNat] else [] := by
  rw [samples, List.filter_append, List.map_append]
  by_cases h : 0 < u.latencyMs
  · rw [if_pos h, List.filter_cons_of_pos (by simpa using h)]
    rfl
  · rw [if_neg h, List.filter_cons_of_neg (by simpa using h)]
    rfl

theorem ofNat_toNat_of_pos {n : Int32} (h : 0 < n) : Int32.ofNat n.toInt.toNat = n := by
  have hpos : 0 < n.toInt := Int32.lt_iff_toInt_lt.mp h
  rw [← Int32.ofInt_eq_ofNat, Int.toNat_of_nonneg hpos.le, Int32.ofInt_toInt]

/-- The sums, each in the width of its counter. -/
theorem entryOf_eq (id : Int32) (own : List StatsUpdate) : entryOf id own = {
    proxyId := id
    bytesTx := UInt64.ofNat (own.map fun u => u.bytesTx.toNat).sum
    bytesRx := UInt64.ofNat (own.map fun u => u.bytesRx.toNat).sum
    connections := Int32.ofNat own.length
    totalLatencyMs := Int32.ofNat (samples own).sum
    latencyCount := Int32.ofNat (samples own).length } := by
  induction own using List.reverseRecOn with
  | nil => rfl
  | append_singleton own u ih =>
    rw [entryOf_snoc, ih, samples_snoc, PfStatsEntry.add]
    simp only [List.map_append, List.map_cons, List.map_nil, List.sum_append, List.sum_cons,
      List.sum_nil, Nat.add_zero, List.length_append, List.length_singleton, UInt64.ofNat_add,
      UInt64.ofNat_toNat, Int32.ofNat_add]
    split
    · next h =>
      rw [List.sum_singleton, List.length_singleton, ofNat_toNat_of_pos h]
      rfl
    · rw [List.sum_nil, List.length_nil, show Int32.ofNat 0 = 0 from rfl, Int32.add_zero,
        Int32.add_zero]
      rfl

/-! ## Numbers that fit -/

theorem bmod_eq_iff (n : Nat) : (n : Int).bmod (2 ^ 32) = n ↔ n < 2 ^ 31 := by
  rw [Int.bmod_def]
  split <;> omega

/-- A sum that has wrapped round is too small by `2^32` at least, which no count makes good. -/
theorem quotient_eq_iff {total count : Nat} (hcount : 0 < count) (hlt : count < 2 ^ 31)
    (hle : count ≤ total) :
    ((total : Int).bmod (2 ^ 32)).tdiv count = (total / count : Nat) ↔ total < 2 ^ 31 := by
  constructor
  · intro h
    by_contra hlarge
    have hwrapped : (total : Int).bmod (2 ^ 32) ≤ (total - count : Nat) := by
      rw [Int.bmod_def]
      split <;> omega
    have hquotient := Int.tdiv_le_tdiv (Int.natCast_pos.mpr hcount) hwrapped
    have hless : (total - count) / count + 1 = total / count :=
      (Nat.div_eq_sub_div hcount hle).symm
    rw [h, ← Int.ofNat_tdiv, Int.ofNat_le] at hquotient
    omega
  · intro h
    rw [(bmod_eq_iff total).mpr h, ← Int.ofNat_tdiv]

theorem length_le_sum_samples (own : List StatsUpdate) :
    (samples own).length ≤ (samples own).sum := by
  refine List.length_le_sum_of_one_le _ fun n hn => ?_
  obtain ⟨u, hu, rfl⟩ := List.mem_map.mp hn
  have hpos : 0 < u.latencyMs.toInt :=
    Int32.lt_iff_toInt_lt.mp (of_decide_eq_true (List.mem_filter.mp hu).2)
  omega

theorem avgLatency_eq_iff (id : Int32) {own : List StatsUpdate} (hlength : own.length < 2 ^ 31) :
    (entryOf id own).avgLatency.toInt = ((samples own).sum / (samples own).length : Nat) ↔
      (samples own).sum < 2 ^ 31 := by
  have hcount : (samples own).length < 2 ^ 31 := by
    rw [samples, List.length_map]
    exact (List.length_filter_le _ _).trans_lt hlength
  have htoInt : (Int32.ofNat (samples own).length).toInt = (samples own).length :=
    Int32.toInt_ofNat_of_lt hcount
  rw [entryOf_eq, PfStatsEntry.avgLatency]
  simp only [Int32.lt_iff_toInt_lt, htoInt]
  by_cases hnone : (samples own).length = 0
  · rw [List.length_eq_zero_iff.mp hnone]
    decide
  · have hpos : Int32.toInt 0 < (samples own).length := by
      show (0 : Int) < _
      omega
    have hne : Int32.ofNat (samples own).length ≠ -1 := by
      intro h
      rw [h] at htoInt
      have hminus : Int32.toInt (-1) = -1 := by decide
      omega
    rw [if_pos hpos, Int32.toInt_div_of_ne_right _ _ hne, htoInt, Int32.toInt_ofNat',
      ← quotient_eq_iff (Nat.pos_of_ne_zero hnone) hcount (length_le_sum_samples own)]
    rfl

/-- The statistics of an id are exact as long as its sums fit. -/
theorem row_eq_iff (updates : List StatsUpdate) (id : Int32) :
    (entryOf id (ownUpdates updates id)).row = exactRow updates id ↔
      FitsInt (ownUpdates updates id) := by
  have hconnections : (entryOf id (ownUpdates updates id)).connections.toInt =
      (ownUpdates updates id).length ↔ (ownUpdates updates id).length < 2 ^ 31 := by
    rw [entryOf_eq, Int32.toInt_ofNat']
    exact bmod_eq_iff _
  have hkept : (entryOf id (ownUpdates updates id)).proxyId = id := by rw [entryOf_eq]
  have htx : (entryOf id (ownUpdates updates id)).bytesTx.toNat =
      ((ownUpdates updates id).map fun u => u.bytesTx.toNat).sum % 2 ^ 64 := by
    rw [entryOf_eq, UInt64.toNat_ofNat']
  have hrx : (entryOf id (ownUpdates updates id)).bytesRx.toNat =
      ((ownUpdates updates id).map fun u => u.bytesRx.toNat).sum % 2 ^ 64 := by
    rw [entryOf_eq, UInt64.toNat_ofNat']
  rw [PfStatsEntry.row, exactRow, StatsRow.mk.injEq, hkept, htx, hrx, hconnections]
  simp only [true_and]
  exact and_congr_right fun hlength => avgLatency_eq_iff id hlength

/-! ## The table -/

section Table

variable {stats : PfStats} {ids : List Int32} {g : Int32 → PfStatsEntry}

/-- An update changes the entry of its id, which may be a new one. -/
theorem entries_update (hentries : stats.entries = ids.map g) (hkey : ∀ x, (g x).proxyId = x)
    (hnodup : ids.Nodup) {id : Int32} (hroom : (addKey ids id).length ≤ pfMaxProxies)
    (hfresh : id ∉ ids → g id = .zero id) (tx rx : UInt64) (latency : Int32) :
    (pfStatsUpdate stats id tx rx latency).entries =
      (addKey ids id).map fun x => if x = id then (g x).add tx rx latency else g x := by
  rw [pfStatsUpdate, findOrCreate, addKey]
  rw [addKey] at hroom
  cases hfound : stats.entries.findIdx? fun e => decide (e.proxyId = id) with
  | some i =>
    rw [hentries] at hfound
    have hmem : id ∈ ids := by
      by_contra hmem
      cases hfound.symm.trans ((findIdx?_eq_none_iff hkey).mpr hmem)
    rw [if_pos hmem]
    show stats.entries.modify i _ = _
    rw [hentries, modify_found hkey hnodup _ hfound]
  | none =>
    rw [hentries] at hfound
    have hmem := (findIdx?_eq_none_iff hkey).mp hfound
    rw [if_neg hmem, List.length_append, List.length_singleton] at hroom
    have hspace : ¬ stats.entries.length ≥ pfMaxProxies := by
      rw [hentries, List.length_map]
      omega
    rw [if_neg hmem, dif_neg hspace]
    show (stats.entries ++ [PfStatsEntry.zero id]).modify stats.entries.length _ = _
    have hothers : ∀ x ∈ ids, (if x = id then (g x).add tx rx latency else g x) = g x :=
      fun x hx => if_neg fun hxid : x = id => hmem (hxid ▸ hx)
    have hlen : ids.length = (ids.map g).length := (List.length_map g).symm
    rw [hentries, List.map_append, List.map_congr_left hothers, List.map_singleton, if_pos rfl,
      hfresh hmem, List.modify_eq_take_drop, List.length_map, hlen, List.take_left, List.drop_left]
    rfl

end Table

theorem ownUpdates_snoc (updates : List StatsUpdate) (u : StatsUpdate) (id : Int32) :
    ownUpdates (updates ++ [u]) id =
      if id = u.proxyId then ownUpdates updates id ++ [u] else ownUpdates updates id := by
  rw [ownUpdates, List.filter_append]
  by_cases h : id = u.proxyId
  · rw [if_pos h, List.filter_cons_of_pos (by simpa using h.symm)]
    rfl
  · rw [if_neg h, List.filter_cons_of_neg (by simpa using fun hid => h hid.symm)]
    exact List.append_nil _

/-- Every id that was updated has its entry, and there are no others. -/
theorem entries_run (calls : List StatsCall) (hids : (seen calls).length ≤ pfMaxProxies) :
    (pfStatsRun calls).entries =
        (seen calls).map (fun id => entryOf id (ownUpdates (sinceReset calls) id)) ∧
      (seen calls).Nodup ∧ ∀ u ∈ sinceReset calls, u.proxyId ∈ seen calls := by
  induction calls using List.reverseRecOn with
  | nil => exact ⟨rfl, List.nodup_nil, List.forall_mem_nil _⟩
  | append_singleton calls call ih =>
    have hkey : ∀ id, (entryOf id (ownUpdates (sinceReset calls) id)).proxyId = id := by
      intro id
      rw [entryOf_eq]
    have hrun : pfStatsRun (calls ++ [call]) = (pfStatsRun calls).call call := List.foldl_concat ..
    have hseen : seen (calls ++ [call]) = seenBy (seen calls) call := List.foldl_concat ..
    have hsince : sinceReset (calls ++ [call]) = sinceBy (sinceReset calls) call :=
      List.foldl_concat ..
    rw [hseen] at hids
    rw [hrun, hseen, hsince]
    cases call with
    | reset =>
      obtain ⟨hentries, hnodup, -⟩ := ih hids
      refine ⟨?_, hnodup, List.forall_mem_nil _⟩
      show (pfStatsRun calls).entries.map (fun e => PfStatsEntry.zero e.proxyId) = _
      rw [hentries, List.map_map]
      exact List.map_congr_left fun id _ => congrArg PfStatsEntry.zero (hkey id)
    | update u =>
      obtain ⟨hentries, hnodup, hmem⟩ := ih (length_le_addKey.trans hids)
      refine ⟨?_, nodup_addKey hnodup, fun v hv => mem_addKey.mpr ?_⟩
      · have hfresh : u.proxyId ∉ seen calls →
            entryOf u.proxyId (ownUpdates (sinceReset calls) u.proxyId) = .zero u.proxyId := by
          intro hnew
          have hnone : ownUpdates (sinceReset calls) u.proxyId = [] := by
            rw [ownUpdates, List.filter_eq_nil_iff]
            exact fun v hv => by simpa using fun hid : v.proxyId = u.proxyId => hnew (hid ▸ hmem v hv)
          rw [hnone]
          rfl
        refine (entries_update hentries hkey hnodup hids hfresh _ _ _).trans ?_
        refine List.map_congr_left fun id _ => ?_
        rw [sinceBy, ownUpdates_snoc]
        split
        · exact (entryOf_snoc id _ u).symm
        · rfl
      · rcases List.mem_append.mp hv with hv | hv
        · exact .inl (hmem v hv)
        · exact .inr (congrArg StatsUpdate.proxyId (List.mem_singleton.mp hv))

/-- Every run over no more ids than there is room for: the statistics are exact exactly when, for
each id, the number of its updates since the last reset and the sum of their latencies fit. -/
theorem stats_exact_iff (calls : List StatsCall) (hids : (seen calls).length ≤ pfMaxProxies) :
    (pfStatsRun calls).rows = (seen calls).map (exactRow (sinceReset calls)) ↔
      ∀ id ∈ seen calls, FitsInt (ownUpdates (sinceReset calls) id) := by
  rw [PfStats.rows, (entries_run calls hids).1, List.map_map, List.map_inj_left]
  exact forall₂_congr fun id _ => row_eq_iff (sinceReset calls) id

def sample (latencyMs : Int32) : StatsCall := .update ⟨1, 100, 200, latencyMs⟩

theorem two_samples_exact :
    (pfStatsRun [sample 10, .reset, sample 3, sample 4]).rows = [⟨1, 200, 400, 2, 3⟩] :=
  have hseen : seen [sample 10, .reset, sample 3, sample 4] = [1] := by decide
  (stats_exact_iff [sample 10, .reset, sample 3, sample 4] (by decide)).mpr (by
    rw [hseen, List.forall_mem_singleton, FitsInt]
    decide)

/-- Two latencies of twelve days each, and their mean is negative. -/
theorem long_latencies_wrap :
    ¬ ∀ calls, (∀ u, StatsCall.update u ∈ calls → 0 ≤ u.latencyMs) →
      (seen calls).length ≤ pfMaxProxies →
      (pfStatsRun calls).rows = (seen calls).map (exactRow (sinceReset calls)) := by
  intro h
  have hexact := h [sample 1073741824, sample 1073741824] (by
    intro u hu
    simp only [List.mem_cons, sample, StatsCall.update.injEq, List.not_mem_nil, or_false, or_self]
      at hu
    rw [hu]
    decide) (by decide)
  exact absurd hexact (by decide)

end Proxiflare.Guarantees.StatsTotals
