import Proxiflare.Daemon.CaptureWorker
import Proxiflare.Guarantees.CaptureFifo
import Proxiflare.Lib.Runs

/-!
# No lost wake-up between the producers and the capture worker

A push stores first and writes the eventfd afterwards, and the worker goes back to
its `read` only after a drain that found nothing. So while it waits on a zero
counter, what is queued was stored by pushes that still have their write to do.
-/

namespace Proxiflare.Guarantees.CaptureWakeups

open Lib
open Proxiflare.Daemon
open Proxiflare.Guarantees.CaptureFifo

variable {P : Type} {s s' : CaptureSys P}

/-- The push of this message has not written the eventfd yet. -/
def Pending (s : CaptureSys P) (m : P × Nat) : Prop := s.pushing m.1 = true ∧ m.2 = s.calls m.1

/-- The messages `pf_capture_queue_close` would find. -/
def Queued (s : CaptureSys P) (m : P × Nat) : Prop := some m ∈ (pfCaptureQueueClose s.q).2

/-! ## One call on the ring -/

theorem push_holds {μ : Type} {q : CaptureQueue μ} {xs : List μ} (h : Holds q xs) (m : μ) :
    ∃ kept, Holds (pfCaptureQueuePush q (some m)).q (kept ++ [m]) ∧ kept <:+ xs := by
  by_cases hroom : xs.length < pfCaptureQueueSize
  · exact ⟨xs, (h.push_room hroom m).holds, List.suffix_rfl⟩
  · cases xs with
    | nil => exact absurd (by decide : 0 < pfCaptureQueueSize) hroom
    | cons x rest =>
      exact ⟨rest, (h.push_full (Nat.le_of_not_lt hroom) m).holds, List.suffix_cons x rest⟩

theorem drain_holds {μ : Type} {q : CaptureQueue μ} {xs : List μ} (h : Holds q xs) :
    (pfCaptureQueueDrain q drainBatch).2.length = min 64 xs.length ∧
      Holds (pfCaptureQueueDrain q drainBatch).1 (xs.drop 64) := by
  obtain ⟨hout, hq⟩ := h.takeLoop 64
  refine ⟨?_, hq⟩
  show (q.takeLoop 64).2.length = _
  rw [hout, List.length_map, List.length_take]

theorem queued_iff {xs : List (P × Nat)} (h : Holds s.q xs) (m : P × Nat) : Queued s m ↔ m ∈ xs := by
  obtain ⟨hout, -⟩ := h.takeLoop xs.length
  unfold Queued pfCaptureQueueClose
  rw [h.used_toNat, hout, List.take_length]
  simp

/-! ## The invariant -/

/-- Before its loop condition or in `read`, with nothing to read. -/
def Idle (s : CaptureSys P) : Prop := (s.pc = .top ∨ s.pc = .reading) ∧ s.eventfd = 0

/-- The ring holds some messages, all of them pending when the worker is idle. -/
def WakesOwed (s : CaptureSys P) : Prop :=
  ∃ xs, Holds s.q xs ∧ (Idle s → ∀ m ∈ xs, Pending s m)

theorem wakesOwed_start (h : s.Starts) : WakesOwed s :=
  ⟨[], holds_nil h.1, fun _ => List.forall_mem_nil _⟩

/-- A step that leaves the ring alone and after which the worker is not idle. -/
theorem WakesOwed.of_busy (h : WakesOwed s) (hq : s'.q = s.q) (hbusy : ¬ Idle s') : WakesOwed s' := by
  obtain ⟨xs, hholds, -⟩ := h
  exact ⟨xs, hq ▸ hholds, fun hidle => absurd hidle hbusy⟩

/-- A step of the worker or of `stop` between idle states, or out of them. -/
theorem WakesOwed.of_idle (h : WakesOwed s) (hq : s'.q = s.q) (hp : s'.pushing = s.pushing)
    (hc : s'.calls = s.calls) (hidle : Idle s' → Idle s) : WakesOwed s' := by
  obtain ⟨xs, hholds, howed⟩ := h
  refine ⟨xs, hq ▸ hholds, fun hi m hm => ?_⟩
  have hpending := howed (hidle hi) m hm
  unfold Pending at hpending ⊢
  rwa [hp, hc]

theorem addOne_ne_zero (n : Nat) : CaptureSys.addOne n ≠ 0 := by
  unfold CaptureSys.addOne eventfdMax
  split <;> omega

/-! ## Its steps -/

variable [DecidableEq P]

def step (s : CaptureSys P) (l : CaptureStep P) : Option (CaptureSys P) := s.step l

def Reachable : CaptureSys P → Prop := Runs.Reach step (fun _ _ => True) CaptureSys.Starts

/-- Storing adds a pending message and may drop the oldest one. -/
theorem wakesOwed_store {p : P} (h : WakesOwed s) (hs : step s (.store p) = some s') :
    WakesOwed s' := by
  obtain ⟨xs, hholds, howed⟩ := h
  unfold step CaptureSys.step at hs
  dsimp only at hs
  split at hs
  · cases hs
  · next hidle =>
    obtain rfl := Option.some.inj hs
    obtain ⟨kept, hkept, hsuffix⟩ := push_holds hholds (p, s.calls p)
    refine ⟨kept ++ [(p, s.calls p)], hkept, fun hi m hm => ?_⟩
    rcases List.mem_append.mp hm with hm | hm
    · obtain ⟨hpushing, hcall⟩ := howed hi m (hsuffix.subset hm)
      refine ⟨?_, hcall⟩
      by_cases heq : m.1 = p
      · rw [heq] at hpushing
        exact absurd hpushing hidle
      · show Function.update s.pushing p true m.1 = true
        rw [Function.update_of_ne heq, hpushing]
    · obtain rfl := List.mem_singleton.mp hm
      exact ⟨Function.update_self p true s.pushing, rfl⟩

/-- The worker: only a drain that finds nothing makes it idle again. -/
theorem wakesOwed_worker (h : WakesOwed s) (hs : step s .worker = some s') : WakesOwed s' := by
  have hstep : s.workerStep = some s' := hs
  unfold CaptureSys.workerStep at hstep
  cases hpc : s.pc with
  | top =>
    rw [hpc] at hstep
    obtain rfl := Option.some.inj hstep
    exact h.of_idle rfl rfl rfl fun hi => ⟨.inl hpc, hi.2⟩
  | reading =>
    rw [hpc] at hstep
    dsimp only at hstep
    split at hstep
    · cases hstep
    · obtain rfl := Option.some.inj hstep
      exact h.of_busy rfl fun hi => by rcases hi.1 with hc | hc <;> cases hc
  | woken =>
    rw [hpc] at hstep
    obtain rfl := Option.some.inj hstep
    refine h.of_busy rfl fun hi => ?_
    rcases hi.1 with hc | hc <;> cases hrun : s.running <;> simp [hrun] at hc
  | draining =>
    rw [hpc] at hstep
    obtain rfl := Option.some.inj hstep
    obtain ⟨xs, hholds, -⟩ := h
    obtain ⟨hlen, hrest⟩ := drain_holds hholds
    refine ⟨xs.drop 64, hrest, fun hi => ?_⟩
    have hnone : (pfCaptureQueueDrain s.q drainBatch).2.length = 0 := by
      by_contra hne
      rcases hi.1 with hc | hc <;> simp [hne] at hc
    rw [hlen] at hnone
    have hempty : xs = [] := List.length_eq_zero_iff.mp (by omega)
    rw [hempty]
    exact List.forall_mem_nil _
  | exited =>
    rw [hpc] at hstep
    cases hstep

theorem wakesOwed_step (h : WakesOwed s) (l : CaptureStep P) (hs : step s l = some s') :
    WakesOwed s' := by
  cases l with
  | store p => exact wakesOwed_store h hs
  | wake p =>
    unfold step CaptureSys.step at hs
    dsimp only at hs
    split at hs
    · obtain rfl := Option.some.inj hs
      exact h.of_busy rfl fun hi => addOne_ne_zero s.eventfd hi.2
    · cases hs
  | stop =>
    unfold step CaptureSys.step at hs
    dsimp only at hs
    split at hs
    · obtain rfl := Option.some.inj hs
      exact h.of_idle rfl rfl rfl id
    · cases hs
  | stopWake =>
    unfold step CaptureSys.step at hs
    dsimp only at hs
    split at hs
    · obtain rfl := Option.some.inj hs
      exact h.of_busy rfl fun hi => addOne_ne_zero s.eventfd hi.2
    · cases hs
  | worker => exact wakesOwed_worker h hs
  | interrupt =>
    unfold step CaptureSys.step at hs
    dsimp only at hs
    split at hs
    · next hpc =>
      obtain rfl := Option.some.inj hs
      exact h.of_idle rfl rfl rfl fun hi => ⟨.inr hpc, hi.2⟩
    · cases hs
  | readError =>
    unfold step CaptureSys.step at hs
    dsimp only at hs
    split at hs
    · obtain rfl := Option.some.inj hs
      exact h.of_busy rfl fun hi => by rcases hi.1 with hc | hc <;> cases hc
    · cases hs

theorem wakesOwed_reachable (hr : Reachable s) : WakesOwed s :=
  Runs.Reach.invariant (fun _ => wakesOwed_start) (fun _ l _ hinv _ hs => wakesOwed_step hinv l hs) hr

/-- For any producers and every interleaving: while the worker is blocked on a zero counter, each
queued message belongs to a push that has not written the eventfd. -/
theorem no_lost_wakeup (s : CaptureSys P) (hr : Reachable s) (hpc : s.pc = .reading)
    (hzero : s.eventfd = 0) : ∀ m, Queued s m → Pending s m := by
  obtain ⟨xs, hholds, howed⟩ := wakesOwed_reachable hr
  intro m hm
  exact howed ⟨.inr hpc, hzero⟩ m ((queued_iff hholds m).mp hm)

/-! ## A push half done -/

def freshSys : CaptureSys Nat :=
  ⟨.emptyAt 0 fun _ => none, 0, fun _ => false, fun _ => 0, true, false, .top⟩

/-- Producer 5 stores while the worker goes to sleep. -/
def halfPushed : CaptureSys Nat := ((Runs.run step freshSys [.store 5, .worker]).getD freshSys)

theorem half_pushed_pending :
    halfPushed.pc = .reading ∧ halfPushed.eventfd = 0 ∧ Queued halfPushed (5, 0) ∧
      ∀ m, Queued halfPushed m → Pending halfPushed m := by
  have hrun : Runs.run step freshSys [.store 5, .worker] = some halfPushed := rfl
  have hstart : freshSys.Starts := ⟨rfl, rfl, fun _ => rfl, rfl, rfl, rfl⟩
  have hr : Reachable halfPushed := Runs.Reach.run (.start hstart) (fun _ _ _ => trivial) hrun
  refine ⟨rfl, rfl, ?_, no_lost_wakeup halfPushed hr rfl rfl⟩
  unfold Queued
  decide

end Proxiflare.Guarantees.CaptureWakeups
