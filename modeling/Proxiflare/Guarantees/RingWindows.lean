import Proxiflare.Guarantees.LogGaps

/-!
# What the rings give back

After any traffic both rings answer a cursor with the stretch of numbers above it that
they still hold, without gaps and in order. `inspect.list` walks from the newest entry and
turns what it took round, so its limit leaves the newest of the stretch.
-/

namespace Proxiflare.Guarantees.RingWindows

open Lib.CString
open Proxiflare.Daemon
open Proxiflare.Guarantees.LogGaps (intDoubles)
open Proxiflare.Guarantees.ReadableReplies (noCodecs direct)

variable {ν α β : Type} {d : Doubles ν} {codecs : Codecs} {traffic : List Traffic}

/-- The entries of a run with numbers above the cursor and among the newest `size`: entry `i` of
the list has the number `i + 1`. -/
def window (size : Nat) (cursor : Int) (entries : List α) : List α :=
  entries.drop (max cursor (entries.length - size)).toNat

def newest (limit : Nat) (entries : List α) : List α := entries.drop (entries.length - limit)

/-- Every entry carries its number. -/
def NumberedFromOne (d : Doubles ν) (entries : List (Cjson ν)) : Prop :=
  ∀ (i : Nat) (e : Cjson ν), entries[i]? = some e → Numbered d (i + 1) e

/-! ## One ring -/

/-- The walk over a ring with the newest of `entries` finds the window. -/
theorem filter_window (hd : d.OrdersInts) {r : EntryRing (Cjson ν)} {size : Nat}
    {entries : List (Cjson ν)} (hring : r.Holds size (entries.drop (entries.length - size)))
    (hnum : NumberedFromOne d entries) (hlen : entries.length < 2 ^ 64) {cursor : Int}
    (hcursor : -2 ^ 31 ≤ cursor ∧ cursor < 2 ^ 31) :
    (r.oldestFirst size).filter (newer d cursor) = window size cursor entries := by
  have hnewer : ∀ (i : Nat) (e : Cjson ν), entries[i]? = some e →
      newer d cursor e = decide (cursor.toNat < i + 1) := by
    intro i e hi
    have hlt := (List.getElem?_eq_some_iff.mp hi).1
    exact newer_of_numbered hd hcursor (by omega) (hnum i e hi)
  rw [hring.oldestFirst, filter_drop_of_position hnewer, window]
  congr 1
  omega

/-- Taking from the newest on and turning round leaves the newest in order. -/
theorem take_newest (f : α → β) (p : α → Bool) (limit : Nat) (xs : List α) :
    (((xs.reverse.filter p).take limit).map f).reverse = (newest limit (xs.filter p)).map f := by
  rw [List.filter_reverse, List.take_reverse, List.map_reverse, List.reverse_reverse, newest]

/-! ## Both rings after a run -/

section Runs

variable {log kept : List (Cjson ν)} {params : Option (Cjson ν)} {cursor : Int}

theorem logRecent_window (hd : d.OrdersInts)
    (hlog : log = (Captures.start : Captures ν).loggedBy d codecs traffic)
    (hlen : log.length < 2 ^ 64) (hsince : paramInt d params "since_seq" 0 = cursor)
    (hcursor : -2 ^ 31 ≤ cursor ∧ cursor < 2 ^ 31) :
    logRecent d (captureRun d codecs traffic) params =
        .obj [(lit "result", .arr (window pfLogRingSize cursor log))] ∧
      NumberedFromOne d log := by
  have h : (captureRun d codecs traffic).LogNumbering d log := by
    rw [hlog] at hlen ⊢
    exact Captures.LogNumbering.start.run hlen
  have hnum : NumberedFromOne d log := fun i e hi => (h.numbered i e hi).numbered
  refine ⟨?_, hnum⟩
  rw [logRecent, hsince, filter_window hd h.ring hnum hlen hcursor]

theorem inspectList_window (hd : d.OrdersInts)
    (hkept : kept = (Captures.start : Captures ν).capturedBy d codecs traffic)
    (hlen : kept.length < 2 ^ 64) (hsince : paramInt d params "since_seq" 0 = cursor)
    (hcursor : -2 ^ 31 ≤ cursor ∧ cursor < 2 ^ 31) {limit : Nat}
    (hlimit : paramInt d params "limit" 500 = limit) (hrange : 1 ≤ limit ∧ limit ≤ 1000) :
    inspectList d (captureRun d codecs traffic) params =
        .obj [(lit "result", .arr ((newest limit (window pfInspectRingSize cursor kept)).map slim))] ∧
      NumberedFromOne d kept := by
  have h : (captureRun d codecs traffic).Numbering d kept := by
    rw [hkept] at hlen ⊢
    exact Captures.Numbering.start.run hlen
  refine ⟨?_, h.numbered⟩
  have hkeep : ¬ ((limit : Int) ≤ 0 ∨ 1000 < (limit : Int)) := by omega
  rw [inspectList, hsince, hlimit, if_neg hkeep, Int.toNat_natCast, take_newest,
    filter_window hd h.ring h.numbered hlen hcursor]

end Runs

/-- For all traffic, cursors and limits. -/
theorem rings_give_windows (hd : d.OrdersInts) (traffic : List Traffic)
    (hlog : ((Captures.start : Captures ν).loggedBy d codecs traffic).length < 2 ^ 64)
    (hkept : ((Captures.start : Captures ν).capturedBy d codecs traffic).length < 2 ^ 64)
    (params : Option (Cjson ν)) (cursor : Int) (hsince : paramInt d params "since_seq" 0 = cursor)
    (hcursor : -2 ^ 31 ≤ cursor ∧ cursor < 2 ^ 31) :
    (logRecent d (captureRun d codecs traffic) params =
        .obj [(lit "result", .arr (window pfLogRingSize cursor
          ((Captures.start : Captures ν).loggedBy d codecs traffic)))] ∧
      NumberedFromOne d ((Captures.start : Captures ν).loggedBy d codecs traffic)) ∧
    ∀ limit : Nat, paramInt d params "limit" 500 = limit → 1 ≤ limit ∧ limit ≤ 1000 →
      inspectList d (captureRun d codecs traffic) params =
          .obj [(lit "result", .arr ((newest limit (window pfInspectRingSize cursor
            ((Captures.start : Captures ν).capturedBy d codecs traffic))).map slim))] ∧
        NumberedFromOne d ((Captures.start : Captures ν).capturedBy d codecs traffic) :=
  ⟨logRecent_window hd rfl hlog hsince hcursor, fun _ hlimit hrange =>
    inspectList_window hd rfl hkept hsince hcursor hlimit hrange⟩

theorem intDoubles_orders : intDoubles.OrdersInts := fun _ _ _ _ _ => rfl

/-- A connection, two requests, a connection. -/
def smallTraffic : List Traffic :=
  let request : Traffic := .chunk .unused (lit "GET / HTTP/1.1\x0d\x0aHost: a\x0d\x0a\x0d\x0a") true 0
  [direct (lit "a.b"), request, request, direct (lit "a.b")]

def smallParams : Option (Cjson Int) :=
  some (.obj [(lit "since_seq", .num (-1)), (lit "limit", .num 1)])

theorem smallTraffic_windows :
    ((Captures.start : Captures Int).loggedBy intDoubles noCodecs smallTraffic).length = 2 ∧
      logRecent intDoubles (captureRun intDoubles noCodecs smallTraffic) smallParams =
        .obj [(lit "result", .arr (window pfLogRingSize (-1)
          ((Captures.start : Captures Int).loggedBy intDoubles noCodecs smallTraffic)))] ∧
      inspectList intDoubles (captureRun intDoubles noCodecs smallTraffic) smallParams =
        .obj [(lit "result", .arr ((newest 1 (window pfInspectRingSize (-1)
          ((Captures.start : Captures Int).capturedBy intDoubles noCodecs smallTraffic))).map slim))] :=
  have hlog : ((Captures.start : Captures Int).loggedBy intDoubles noCodecs smallTraffic).length <
      2 ^ 64 := by decide +kernel
  have h := rings_give_windows intDoubles_orders smallTraffic hlog (by decide +kernel) smallParams
    (-1) rfl (by decide)
  ⟨by decide +kernel, h.1.1, (h.2 1 rfl (by decide)).1⟩

end Proxiflare.Guarantees.RingWindows
