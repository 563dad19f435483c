import Proxiflare.Daemon.Captures
import Proxiflare.Daemon.Types
import Proxiflare.Lib.Tally

/-!
# Statistics of the proxies

`stats.c`: one entry a proxy id, in the order of the first update. An `int` that overflows wraps
round, as compiled.
-/

namespace Proxiflare.Daemon

open Lib.CString Lib.Tally

/-- `pf_stats_entry_t`. -/
structure PfStatsEntry where
  proxyId : Int32
  bytesTx : UInt64
  bytesRx : UInt64
  connections : Int32
  totalLatencyMs : Int32
  latencyCount : Int32
  deriving DecidableEq

/-- `pf_stats_t`; `count` is the number of entries. -/
structure PfStats where
  entries : List PfStatsEntry
  fits : entries.length ≤ pfMaxProxies

namespace PfStats

/-- `pf_stats_init`. -/
def init : PfStats := ⟨[], Nat.zero_le _⟩

end PfStats

/-- After `memset`. -/
def PfStatsEntry.zero (proxyId : Int32) : PfStatsEntry := ⟨proxyId, 0, 0, 0, 0, 0⟩

theorem PfStats.fits_append (stats : PfStats) (proxyId : Int32)
    (h : ¬ stats.entries.length ≥ pfMaxProxies) :
    (stats.entries ++ [PfStatsEntry.zero proxyId]).length ≤ pfMaxProxies := by
  rw [List.length_append, List.length_singleton]
  omega

/-- The place of the entry and the table with it, or NULL when the table is full. -/
def findOrCreate (stats : PfStats) (proxyId : Int32) : Option (Nat × PfStats) :=
  match stats.entries.findIdx? fun e => decide (e.proxyId = proxyId) with
  | some i => some (i, stats)
  | none =>
    if h : stats.entries.length ≥ pfMaxProxies then none
    else some (stats.entries.length, {
      entries := stats.entries ++ [.zero proxyId]
      fits := PfStats.fits_append stats proxyId h })

/-- What an update adds to its entry. -/
def PfStatsEntry.add (e : PfStatsEntry) (bytesTx bytesRx : UInt64) (latencyMs : Int32) :
    PfStatsEntry :=
  let e := { e with
    bytesTx := e.bytesTx + bytesTx
    bytesRx := e.bytesRx + bytesRx
    connections := e.connections + 1 }
  if 0 < latencyMs then { e with
    totalLatencyMs := e.totalLatencyMs + latencyMs
    latencyCount := e.latencyCount + 1 }
  else e

def pfStatsUpdate (stats : PfStats) (proxyId : Int32) (bytesTx bytesRx : UInt64)
    (latencyMs : Int32) : PfStats :=
  match findOrCreate stats proxyId with
  | none => stats
  | some (i, stats) => {
      entries := stats.entries.modify i fun e => e.add bytesTx bytesRx latencyMs
      fits := by
        rw [List.length_modify]
        exact stats.fits }

/-- The ids keep their places. -/
def pfStatsReset (stats : PfStats) : PfStats where
  entries := stats.entries.map fun e => .zero e.proxyId
  fits := by
    rw [List.length_map]
    exact stats.fits

def PfStatsEntry.avgLatency (e : PfStatsEntry) : Int32 :=
  if 0 < e.latencyCount then e.totalLatencyMs / e.latencyCount else 0

/-- The numbers of an object, before they become doubles. -/
structure StatsRow where
  proxyId : Int
  bytesTx : Nat
  bytesRx : Nat
  connections : Int
  avgLatencyMs : Int
  deriving DecidableEq

def PfStatsEntry.row (e : PfStatsEntry) : StatsRow :=
  ⟨e.proxyId.toInt, e.bytesTx.toNat, e.bytesRx.toNat, e.connections.toInt, e.avgLatency.toInt⟩

def StatsRow.json {ν : Type} (d : Doubles ν) (r : StatsRow) : Cjson ν :=
  .obj [(lit "proxy_id", .num (d.ofInt r.proxyId)), (lit "bytes_tx", .num (d.ofInt r.bytesTx)),
    (lit "bytes_rx", .num (d.ofInt r.bytesRx)), (lit "connections", .num (d.ofInt r.connections)),
    (lit "avg_latency_ms", .num (d.ofInt r.avgLatencyMs))]

def PfStats.rows (stats : PfStats) : List StatsRow := stats.entries.map PfStatsEntry.row

def pfStatsGetJson {ν : Type} (d : Doubles ν) (stats : PfStats) : Cjson ν :=
  .arr (stats.rows.map (StatsRow.json d))

/-! ## Calls -/

structure StatsUpdate where
  proxyId : Int32
  bytesTx : UInt64
  bytesRx : UInt64
  latencyMs : Int32
  deriving DecidableEq

inductive StatsCall where
  | update (u : StatsUpdate)
  | reset
  deriving DecidableEq

def PfStats.call (stats : PfStats) : StatsCall → PfStats
  | .update u => pfStatsUpdate stats u.proxyId u.bytesTx u.bytesRx u.latencyMs
  | .reset => pfStatsReset stats

/-- The statistics after these calls. -/
def pfStatsRun (calls : List StatsCall) : PfStats := calls.foldl PfStats.call .init

end Proxiflare.Daemon
