import Mathlib.Data.Nat.ModEq
import Proxiflare.Lib.DropOldest

/-!
# The capture queue

The ring between the relay threads and the capture worker
(`daemon/src/capture_queue.c`). Each call runs under the queue's mutex; the eventfd,
a pure wake signal, is left out. `μ` stands for the messages, `none` for a null pointer.
-/

namespace Proxiflare.Daemon

open Lib.DropOldest

def pfCaptureQueueSize : Nat := 4096

def pfCaptureQueueMask : UInt32 := 4095

variable {μ : Type}

structure CaptureQueue (μ : Type) where
  head : UInt32
  tail : UInt32
  slots : Nat → Option μ
  dropped : UInt64
  enqueued : UInt64

/-- Empty, with both indices anywhere. -/
def CaptureQueue.emptyAt (start : UInt32) (slots : Nat → Option μ) : CaptureQueue μ :=
  ⟨start, start, slots, 0, 0⟩

/-- `i & PF_CAPTURE_QUEUE_MASK`. -/
def slotOf (i : UInt32) : Nat := (i &&& pfCaptureQueueMask).toNat

theorem slotOf_eq (i : UInt32) : slotOf i = i.toNat % pfCaptureQueueSize := by
  show (i &&& pfCaptureQueueMask).toNat = _
  rw [UInt32.toNat_and]
  exact Nat.and_two_pow_sub_one_eq_mod i.toNat 12

/-- Reads the slot at `tail`, clears it and steps `tail`. -/
def CaptureQueue.takeTail (q : CaptureQueue μ) : CaptureQueue μ × Option μ :=
  ({ q with
      slots := Function.update q.slots (slotOf q.tail) none
      tail := q.tail + 1 },
    q.slots (slotOf q.tail))

/-- At most `n` turns of a loop that takes messages while `tail != head`. -/
def CaptureQueue.takeLoop (q : CaptureQueue μ) : Nat → CaptureQueue μ × List (Option μ)
  | 0 => (q, [])
  | n + 1 =>
    if q.tail = q.head then (q, [])
    else
      let rest := q.takeTail.1.takeLoop n
      (rest.1, q.takeTail.2 :: rest.2)

structure PushOut (μ : Type) where
  q : CaptureQueue μ
  freed : List (Option μ)
  ret : Int

def pfCaptureQueuePush (q : CaptureQueue μ) (msg : Option μ) : PushOut μ :=
  match msg with
  | none => ⟨q, [], -1⟩
  | some m =>
    let used := q.head - q.tail
    let dropping := pfCaptureQueueSize ≤ used.toNat
    let q' := if dropping then { q.takeTail.1 with dropped := q.dropped + 1 } else q
    ⟨{ q' with
        slots := Function.update q'.slots (slotOf q'.head) (some m)
        head := q'.head + 1
        enqueued := q'.enqueued + 1 },
      if dropping then [q.takeTail.2] else [], 0⟩

/-- The queue afterwards and `out[0..got)`; the call returns its length. -/
def pfCaptureQueueDrain (q : CaptureQueue μ) (max : Int) : CaptureQueue μ × List (Option μ) :=
  if max ≤ 0 then (q, []) else q.takeLoop max.toNat

/-- Frees what is left. The loop runs `head - tail` times. -/
def pfCaptureQueueClose (q : CaptureQueue μ) : CaptureQueue μ × List (Option μ) :=
  q.takeLoop (q.head - q.tail).toNat

/-! ## Sequences of calls -/

inductive QueueCall (μ : Type) where
  | push (msg : Option μ)
  | drain (max : Int)

/-- The queue, where each message it let go of went, and the batch of each drain. -/
structure QueueTrace (μ : Type) where
  q : CaptureQueue μ
  gone : List (Fate × Option μ)
  batches : List (List (Option μ))

def QueueTrace.call (t : QueueTrace μ) : QueueCall μ → QueueTrace μ
  | .push msg =>
    let out := pfCaptureQueuePush t.q msg
    ⟨out.q, t.gone ++ tag .freed out.freed, t.batches⟩
  | .drain max =>
    let out := pfCaptureQueueDrain t.q max
    ⟨out.1, t.gone ++ tag .handed out.2, t.batches ++ [out.2]⟩

def QueueTrace.close (t : QueueTrace μ) : QueueTrace μ :=
  let out := pfCaptureQueueClose t.q
  { t with q := out.1, gone := t.gone ++ tag .freed out.2 }

def queueRun (q : CaptureQueue μ) (calls : List (QueueCall μ)) : QueueTrace μ :=
  calls.foldl QueueTrace.call ⟨q, [], []⟩

/-- The calls on the bounded FIFO: a null message is not queued, a `max` of zero or less takes
nothing. -/
def fifoOps (calls : List (QueueCall μ)) : List (Op μ) :=
  calls.filterMap fun
    | .push msg => msg.map .push
    | .drain max => some (.drain max.toNat)

def fifoRun (calls : List (QueueCall μ)) : Ledger μ :=
  (fifoOps calls).foldl (Ledger.step pfCaptureQueueSize) Ledger.empty

end Proxiflare.Daemon
