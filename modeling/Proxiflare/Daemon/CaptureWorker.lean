import Mathlib.Logic.Function.Basic
import Proxiflare.Daemon.CaptureQueue

/-!
# The capture worker and its producers

`pf_capture_queue_push` with its wake, `worker_main` and `pf_capture_worker_stop` in
`daemon/src/capture_queue.c` and `capture_worker.c`, for one start of the worker.
A step is what runs between two points where another thread can come in: a locked
section, a read or a write of the eventfd, a look at `g_running`. `P` stands for the
producers; a message is the producer and the number of its call. What becomes of a
drained message is left out.
-/

namespace Proxiflare.Daemon

def drainBatch : Int := 64

/-- The largest value of an eventfd counter. -/
def eventfdMax : Nat := 2 ^ 64 - 2

/-- Where `worker_main` is: before the loop condition, in `read`, before the second look at
`g_running`, before a drain, or returned. -/
inductive WorkerPc where
  | top | reading | woken | draining | exited
  deriving DecidableEq

/-- `pushing p`: `p` has stored its message and not yet written the eventfd. `calls p`: the pushes
`p` has completed. `stopping`: `g_running` is cleared and the eventfd not yet written for it. -/
structure CaptureSys (P : Type) where
  q : CaptureQueue (P × Nat)
  eventfd : Nat
  pushing : P → Bool
  calls : P → Nat
  running : Bool
  stopping : Bool
  pc : WorkerPc

/-- `store` and `wake` are the two steps of a push. `interrupt` and `readError` end a `read`
without a value. -/
inductive CaptureStep (P : Type) where
  | store (p : P)
  | wake (p : P)
  | stop
  | stopWake
  | worker
  | interrupt
  | readError

variable {P : Type}

/-- `write` of 1. On a full counter it blocks; a signal ends it without effect. -/
def CaptureSys.addOne (eventfd : Nat) : Nat := if eventfd < eventfdMax then eventfd + 1 else eventfd

def CaptureSys.workerStep (s : CaptureSys P) : Option (CaptureSys P) :=
  match s.pc with
  | .top => some { s with pc := if s.running then .reading else .exited }
  | .reading => if s.eventfd = 0 then none else some { s with eventfd := 0, pc := .woken }
  | .woken => some { s with pc := if s.running then .draining else .exited }
  | .draining =>
    let out := pfCaptureQueueDrain s.q drainBatch
    some { s with q := out.1, pc := if out.2.length = 0 then .top else .draining }
  | .exited => none

def CaptureSys.step [DecidableEq P] (s : CaptureSys P) : CaptureStep P → Option (CaptureSys P)
  | .store p =>
    if s.pushing p then none
    else some { s with
      q := (pfCaptureQueuePush s.q (some (p, s.calls p))).q
      pushing := Function.update s.pushing p true }
  | .wake p =>
    if s.pushing p then
      some { s with
        eventfd := addOne s.eventfd
        pushing := Function.update s.pushing p false
        calls := Function.update s.calls p (s.calls p + 1) }
    else none
  | .stop => if s.running then some { s with running := false, stopping := true } else none
  | .stopWake =>
    if s.stopping then some { s with eventfd := addOne s.eventfd, stopping := false } else none
  | .worker => s.workerStep
  | .interrupt => if s.pc = .reading then some { s with pc := .top } else none
  | .readError => if s.pc = .reading then some { s with pc := .exited } else none

/-- An empty queue and a worker about to enter its loop. -/
def CaptureSys.Starts (s : CaptureSys P) : Prop :=
  s.q.head = s.q.tail ∧ s.eventfd = 0 ∧ (∀ p, s.pushing p = false) ∧ s.running = true ∧
    s.stopping = false ∧ s.pc = .top

end Proxiflare.Daemon
