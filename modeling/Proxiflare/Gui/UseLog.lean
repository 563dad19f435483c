import Proxiflare.Daemon.LogRing
import Proxiflare.Gui.InspectPage

/-!
# The log feed

`useLog` of `gui/src/hooks/useLog.ts` with `api.logRecent`, run against the log ring. React calls
the updater given to `setDropped` in the next render, when `seqRef` has already moved on; only
with nothing queued for the component may it call it at once.
-/

namespace Proxiflare.Gui

open Lib.CString
open Proxiflare.Daemon

variable {ν : Type}

/-- `+` and `-` of JavaScript. -/
structure Sums (ν : Type) where
  add : ν → ν → ν
  sub : ν → ν → ν

variable (d : Doubles ν) (sums : Sums ν)

/-- `raw?.result ?? raw`, as for the inspect list. -/
def apiLogRecent (raw : Cjson ν) : List (Cjson ν) := apiInspectList raw

/-- `log_recent`. -/
def logRecentParams (sinceSeq : ν) : Cjson ν := .obj [(lit "since_seq", .num sinceSeq)]

/-- What `logRecent` returns while the daemon holds `s`. -/
def fetchLog (s : Captures ν) (sinceSeq : ν) : List (Cjson ν) :=
  match unwrapResponse
      (.obj [(lit "result", logRecent d s (some (logRecentParams sinceSeq)))]) with
  | .ok raw => apiLogRecent raw
  | .error _ => []

def maxEntries : Nat := 10000

/-- The state of the hook; `paused` is `pausedRef.current`. -/
structure UseLog (ν : Type) where
  entries : List (Cjson ν)
  paused : Bool
  dropped : ν
  seqRef : ν

def UseLog.start : UseLog ν := ⟨[], false, d.ofInt 0, d.ofInt 0⟩

/-- `newEntries.slice().sort(...)`. -/
def sortBySeq (newEntries : List (Cjson ν)) : List (Cjson ν) :=
  newEntries.mergeSort fun a b => !d.lt (entrySeq d b) (entrySeq d a)

/-- `sorted[0]?.seq || 0`. -/
def firstSeq (newEntries : List (Cjson ν)) : ν :=
  ((sortBySeq d newEntries).head?.map (entrySeq d)).getD (d.ofInt 0)

def lastSeq (newEntries : List (Cjson ν)) : ν :=
  ((sortBySeq d newEntries).getLast?.map (entrySeq d)).getD (d.ofInt 0)

/-- The daemon ring rolled over some entries since the last poll. -/
def UseLog.gap (f : UseLog ν) (newEntries : List (Cjson ν)) : Bool :=
  d.lt (d.ofInt 0) f.seqRef && d.lt (sums.add f.seqRef (d.ofInt 1)) (firstSeq d newEntries)

/-- `seqRef.current` after the poll. -/
def UseLog.nextSeq (f : UseLog ν) (newEntries : List (Cjson ν)) : ν :=
  if d.lt f.seqRef (lastSeq d newEntries) then lastSeq d newEntries else f.seqRef

/-- `tick` from the answer on. The updater of `setDropped` reads `seqRef.current` when it is called:
`atOnce`, or after the assignment that follows it. -/
def UseLog.receive (f : UseLog ν) (newEntries : List (Cjson ν)) (atOnce : Bool) : UseLog ν :=
  if newEntries.isEmpty then f
  else
    let sorted := sortBySeq d newEntries
    let current := if atOnce then f.seqRef else f.nextSeq d newEntries
    { f with
      dropped :=
        if f.gap d sums newEntries then
          sums.add f.dropped (sums.sub (sums.sub (firstSeq d newEntries) current) (d.ofInt 1))
        else f.dropped
      seqRef := f.nextSeq d newEntries
      entries :=
        if maxEntries < f.entries.length + sorted.length then
          f.entries.drop (f.entries.length + sorted.length - maxEntries) ++ sorted
        else f.entries ++ sorted }

/-! ## What a poll fetches -/

variable {d sums} {s : Captures ν} {log : List (Cjson ν)} {c n : Nat} {entry : Cjson ν}

/-- Everything after the cursor that the ring still holds. -/
theorem fetchLog_eq (h : s.LogNumbering d log) (hd : d.ExactInts) (hlen : log.length < 2 ^ 31)
    (hc : c < 2 ^ 31) :
    fetchLog d s (d.ofInt c) = log.drop (max c (log.length - pfLogRingSize)) := by
  have hkey : strcaseeq (cstr (lit "since_seq")) (lit "since_seq") = true := by decide
  have hsince : paramInt d (some (logRecentParams (d.ofInt c))) "since_seq" 0 = c := by
    simp only [paramInt, Option.bind_some, logRecentParams, Cjson.getItemAnyCase,
      List.find?_cons_of_pos, hkey, Option.map_some]
    exact hd.toInt c hc
  rw [← h.filter_newer hd hlen hc]
  unfold fetchLog logRecent
  rw [hsince]
  rfl

theorem entrySeq_log (h : IsLogEntry d n entry) : entrySeq d entry = d.ofInt n := by
  obtain ⟨e, ts, dstIp, dstPort, rfl⟩ := h
  have hkeys : ((e.members d ts dstIp dstPort).find? fun m => m.1 = lit "seq") = none := by
    rw [List.find?_eq_none]
    have hall : ∀ key ∈ (e.members d ts dstIp dstPort).map Prod.fst, key ≠ lit "seq" := by
      simp only [LogEvent.members, List.map_cons, List.map_nil, List.forall_mem_cons]
      decide
    intro m hm
    simpa using hall m.1 (List.mem_map_of_mem hm)
  unfold entrySeq Gui.get
  simp only [List.find?_append, hkeys, Option.none_or, List.find?_cons_of_pos, decide_true,
    Option.map_some]
  rfl

/-! ## What the feed makes of it -/

/-- Sums of small integers are exact. -/
structure Sums.ExactInts (sums : Sums ν) (d : Doubles ν) : Prop where
  add : ∀ m n : Int, m.natAbs < 2 ^ 32 → n.natAbs < 2 ^ 32 →
    sums.add (d.ofInt m) (d.ofInt n) = d.ofInt (m + n)
  sub : ∀ m n : Int, m.natAbs < 2 ^ 32 → n.natAbs < 2 ^ 32 →
    sums.sub (d.ofInt m) (d.ofInt n) = d.ofInt (m - n)

/-- The entries numbered `lo + 1` to `hi`, in order. -/
structure Stretch (d : Doubles ν) (lo hi : Nat) (es : List (Cjson ν)) : Prop where
  lt : lo < hi
  length : es.length = hi - lo
  numbered : ∀ (i : Nat) (e : Cjson ν), es[i]? = some e → IsLogEntry d (lo + i + 1) e

variable {lo hi : Nat} {es : List (Cjson ν)}

theorem isEmpty_stretch (h : Stretch d lo hi es) : es.isEmpty = false := by
  have hlt := h.lt
  have hlen := h.length
  rw [List.isEmpty_eq_false_iff, ← List.length_pos_iff]
  omega

variable (hd : d.ExactInts) (h : Stretch d lo hi es)
  (hhi : hi < 2 ^ 31)
include hd h hhi

/-- They come sorted. -/
theorem sortBySeq_stretch : sortBySeq d es = es := by
  apply List.mergeSort_of_pairwise
  rw [List.pairwise_iff_getElem]
  intro i j hi' hj hij
  have hlen := h.length
  have hseqI := entrySeq_log (h.numbered i es[i] (List.getElem?_eq_getElem hi'))
  have hseqJ := entrySeq_log (h.numbered j es[j] (List.getElem?_eq_getElem hj))
  rw [hseqI, hseqJ, hd.lt (lo + j + 1) (lo + i + 1) (by omega) (by omega)]
  simp only [Bool.not_eq_true', decide_eq_false_iff_not]
  omega

theorem firstSeq_stretch : firstSeq d es = d.ofInt (lo + 1 : Nat) := by
  have hlt := h.lt
  have hlen := h.length
  have hpos : 0 < es.length := by omega
  have hseq := entrySeq_log (h.numbered 0 es[0] (List.getElem?_eq_getElem hpos))
  rw [firstSeq, sortBySeq_stretch hd h hhi, List.head?_eq_getElem?, List.getElem?_eq_getElem hpos,
    Option.map_some, Option.getD_some, hseq, Nat.add_zero]

theorem lastSeq_stretch : lastSeq d es = d.ofInt hi := by
  have hlt := h.lt
  have hlen := h.length
  have hlast : es.length - 1 < es.length := by omega
  have hseq := entrySeq_log (h.numbered _ es[es.length - 1] (List.getElem?_eq_getElem hlast))
  rw [lastSeq, sortBySeq_stretch hd h hhi, List.getLast?_eq_getElem?, List.getElem?_eq_getElem hlast,
    Option.map_some, Option.getD_some, hseq, show lo + (es.length - 1) + 1 = hi by omega]

variable {f : UseLog ν} (hc : c ≤ lo) (hseq : f.seqRef = d.ofInt c)
include hc hseq

theorem nextSeq_stretch : f.nextSeq d es = d.ofInt hi := by
  have hlt := h.lt
  rw [UseLog.nextSeq, lastSeq_stretch hd h hhi, hseq, hd.lt c hi (by omega) hhi,
    if_pos (decide_eq_true (by omega))]

theorem receive_seqRef (sums : Sums ν) (atOnce : Bool) :
    (f.receive d sums es atOnce).seqRef = d.ofInt hi := by
  rw [UseLog.receive, isEmpty_stretch h]
  exact nextSeq_stretch hd h hhi hc hseq

variable (ha : sums.ExactInts d)
include ha

/-- A gap is seen where there is one. -/
theorem gap_stretch : f.gap d sums es = decide (0 < c ∧ c < lo) := by
  have hlt := h.lt
  have hnext : sums.add (d.ofInt c) (d.ofInt 1) = d.ofInt (c + 1 : Nat) :=
    ha.add c 1 (by omega) (by decide)
  have hzero := hd.lt 0 c (by omega) (by omega)
  have hfirst := hd.lt (c + 1) (lo + 1) (by omega) (by omega)
  rw [UseLog.gap, firstSeq_stretch hd h hhi, hseq, hnext, hfirst]
  rw [Nat.cast_zero] at hzero
  rw [hzero, ← Bool.decide_and, decide_eq_decide]
  omega

variable (hn : n ≤ c) (hdropped : f.dropped = d.ofInt n)
include hn hdropped

omit hseq in
/-- What the updater computes when it sees `k` as the cursor. -/
theorem gap_sum {k : Nat} (hk : k < 2 ^ 31) :
    sums.add f.dropped (sums.sub (sums.sub (firstSeq d es) (d.ofInt k)) (d.ofInt 1)) =
      d.ofInt (n + (lo - k)) := by
  have hlt := h.lt
  rw [firstSeq_stretch hd h hhi, hdropped, ha.sub _ _ (by omega) (by omega),
    ha.sub _ _ (by omega) (by omega), ha.add _ _ (by omega) (by omega)]
  congr 1
  omega

/-- The count is right if there is no gap or the updater still sees the old cursor. -/
theorem receive_dropped {atOnce : Bool} (hgood : atOnce = true ∨ f.gap d sums es = false) :
    (f.receive d sums es atOnce).dropped =
      d.ofInt ((if c = 0 then 0 else n + (lo - c) : Nat) : Int) := by
  have hlt := h.lt
  have hgapEq := gap_stretch hd h hhi hc hseq ha
  have hne : es.isEmpty = false := isEmpty_stretch h
  rw [UseLog.receive, hne, hgapEq]
  rw [hgapEq] at hgood
  simp only [Bool.false_eq_true, if_false]
  by_cases hgap : 0 < c ∧ c < lo
  · obtain rfl : atOnce = true := hgood.resolve_right (by simp [hgap])
    rw [if_pos (decide_eq_true hgap), if_pos rfl, hseq,
      gap_sum hd h hhi hc ha hn hdropped (by omega), if_neg (by omega)]
    congr 1
    omega
  · rw [if_neg (by simpa using hgap), hdropped]
    congr 1
    split <;> omega

/-- With a gap and the new cursor, what was delivered is subtracted. -/
theorem receive_dropped_late (hgap : 0 < c ∧ c < lo) :
    (f.receive d sums es false).dropped = d.ofInt (n + (lo - hi) : Int) := by
  have hgapEq := gap_stretch hd h hhi hc hseq ha
  have hnext := nextSeq_stretch hd h hhi hc hseq
  have hne : es.isEmpty = false := isEmpty_stretch h
  rw [UseLog.receive, hne, hgapEq]
  simp only [Bool.false_eq_true, if_false]
  rw [if_pos (decide_eq_true hgap), hnext, gap_sum hd h hhi hc ha hn hdropped hhi]

end Proxiflare.Gui
