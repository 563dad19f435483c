import Proxiflare.Daemon.CaptureQueue

/-!
# The capture queue against a bounded FIFO

From any `head = tail`, any sequence of calls behaves as the same sequence on a FIFO
of `PF_CAPTURE_QUEUE_SIZE` elements that drops its oldest one when full. The
counters wrap at `2^32`; the ring size divides it, so the masked slots go on in
order across the wrap.
-/

namespace Proxiflare.Guarantees.CaptureFifo

open Lib.DropOldest
open Proxiflare.Daemon

variable {μ : Type} {q : CaptureQueue μ} {xs : List μ}

/-- The ring holds `xs`, oldest first. -/
structure Holds (q : CaptureQueue μ) (xs : List μ) : Prop where
  bounded : xs.length ≤ pfCaptureQueueSize
  used : q.head = q.tail + UInt32.ofNat xs.length
  cells : Window pfCaptureQueueSize q.slots q.tail.toNat xs

/-! ## Counters -/

theorem slotOf_add (i : UInt32) (k : Nat) :
    slotOf (i + UInt32.ofNat k) = (i.toNat + k) % pfCaptureQueueSize := by
  rw [slotOf_eq, UInt32.toNat_add, UInt32.toNat_ofNat']
  unfold pfCaptureQueueSize
  omega

theorem succ_mod (i : UInt32) :
    (i + 1).toNat % pfCaptureQueueSize = (i.toNat + 1) % pfCaptureQueueSize := by
  rw [UInt32.toNat_add, UInt32.toNat_one]
  unfold pfCaptureQueueSize
  omega

/-- `head - tail` counts the queued messages, whether or not `head` has wrapped. -/
theorem Holds.used_toNat (h : Holds q xs) : (q.head - q.tail).toNat = xs.length := by
  have hb := h.bounded
  unfold pfCaptureQueueSize at hb
  rw [h.used, UInt32.add_comm, UInt32.add_sub_cancel, UInt32.toNat_ofNat']
  omega

theorem Holds.empty_iff (h : Holds q xs) : q.tail = q.head ↔ xs = [] := by
  rw [← List.length_eq_zero_iff, ← h.used_toNat]
  constructor
  · intro heq
    rw [heq, UInt32.sub_self]
    rfl
  · intro hz
    have hsub : q.head - q.tail = 0 := UInt32.toNat_inj.mp hz
    exact (UInt32.sub_eq_iff_eq_add.mp hsub |>.trans (UInt32.zero_add _)).symm

theorem holds_nil (h : q.head = q.tail) : Holds q [] := by
  constructor
  · exact Nat.zero_le _
  · rw [h]
    exact (UInt32.add_zero _).symm
  · exact Window.nil

/-! ## One message in, one message out -/

theorem Holds.takeTail {x : μ} (h : Holds q (x :: xs)) :
    q.takeTail.2 = some x ∧ Holds q.takeTail.1 xs := by
  have hb := h.bounded
  rw [List.length_cons] at hb
  refine ⟨?_, ?_, ?_, ?_⟩
  · show q.slots (slotOf q.tail) = _
    rw [slotOf_eq]
    exact h.cells.oldest
  · omega
  · show q.head = q.tail + 1 + _
    rw [h.used, List.length_cons, UInt32.ofNat_add, UInt32.add_comm (UInt32.ofNat xs.length),
      ← UInt32.add_assoc]
    rfl
  · show Window _ (Function.update q.slots (slotOf q.tail) none) (q.tail + 1).toNat xs
    rw [slotOf_eq]
    exact (h.cells.pop (by omega)).congr (succ_mod q.tail)

/-- Writing at `head` while there is room. -/
theorem Holds.store (h : Holds q xs) (hroom : xs.length < pfCaptureQueueSize) (m : μ)
    (n : UInt64) :
    Holds { q with
      slots := Function.update q.slots (slotOf q.head) (some m)
      head := q.head + 1
      enqueued := n } (xs ++ [m]) := by
  constructor
  · rw [List.length_append, List.length_singleton]
    omega
  · show q.head + 1 = q.tail + _
    rw [h.used, List.length_append, UInt32.ofNat_add, ← UInt32.add_assoc]
    rfl
  · show Window _ (Function.update q.slots (slotOf q.head) (some m)) q.tail.toNat _
    rw [h.used, slotOf_add]
    exact h.cells.push hroom

/-- What a push leaves: the contents, what it frees, and the counters. -/
structure Pushed (q : CaptureQueue μ) (out : PushOut μ) (xs lost : List μ) : Prop where
  holds : Holds out.q xs
  freed : out.freed = lost.map some
  enqueued : out.q.enqueued = q.enqueued + 1
  dropped : out.q.dropped = q.dropped + UInt64.ofNat lost.length

theorem Holds.push_room (h : Holds q xs) (hroom : xs.length < pfCaptureQueueSize) (m : μ) :
    Pushed q (pfCaptureQueuePush q (some m)) (xs ++ [m]) [] := by
  have hnot : ¬ pfCaptureQueueSize ≤ (q.head - q.tail).toNat := by
    rw [h.used_toNat]
    omega
  unfold pfCaptureQueuePush
  simp only [hnot, if_false]
  exact ⟨h.store hroom m _, rfl, rfl, (UInt64.add_zero _).symm⟩

theorem Holds.push_full {x : μ} (h : Holds q (x :: xs))
    (hfull : pfCaptureQueueSize ≤ (x :: xs).length) (m : μ) :
    Pushed q (pfCaptureQueuePush q (some m)) (xs ++ [m]) [x] := by
  have hb := h.bounded
  obtain ⟨hx, hrest⟩ := h.takeTail
  have hrest' : Holds { q.takeTail.1 with dropped := q.dropped + 1 } xs :=
    ⟨hrest.bounded, hrest.used, hrest.cells⟩
  have hroom : xs.length < pfCaptureQueueSize := by
    rw [List.length_cons] at hb
    omega
  unfold pfCaptureQueuePush
  simp only [h.used_toNat, hfull, if_true, hx]
  exact ⟨hrest'.store hroom m _, rfl, rfl, rfl⟩

theorem takeLoop_counters (q : CaptureQueue μ) (n : Nat) :
    (q.takeLoop n).1.enqueued = q.enqueued ∧ (q.takeLoop n).1.dropped = q.dropped := by
  induction n generalizing q with
  | zero => exact ⟨rfl, rfl⟩
  | succ n ih =>
    unfold CaptureQueue.takeLoop
    split
    · exact ⟨rfl, rfl⟩
    · exact ih q.takeTail.1

/-- The loop takes the `n` oldest messages, or all of them. -/
theorem Holds.takeLoop (h : Holds q xs) (n : Nat) :
    (q.takeLoop n).2 = (xs.take n).map some ∧ Holds (q.takeLoop n).1 (xs.drop n) := by
  induction n generalizing q xs with
  | zero => exact ⟨rfl, h⟩
  | succ n ih =>
    unfold CaptureQueue.takeLoop
    cases xs with
    | nil =>
      rw [if_pos (h.empty_iff.mpr rfl)]
      exact ⟨rfl, h⟩
    | cons x xs =>
      rw [if_neg (by simp [h.empty_iff])]
      obtain ⟨hx, hrest⟩ := h.takeTail
      obtain ⟨hout, hq⟩ := ih hrest
      refine ⟨?_, hq⟩
      show q.takeTail.2 :: _ = _
      rw [hx, hout]
      rfl

/-! ## The simulation -/

/-- The state of the ring and its ledger against those of the FIFO. -/
structure Refines (t : QueueTrace μ) (s : Ledger μ) : Prop where
  holds : Holds t.q s.queue
  gone : t.gone = s.gone.map fun p => (p.1, some p.2)
  batches : t.batches = s.batches.map (List.map some)
  enqueued : t.q.enqueued = UInt64.ofNat s.arrived.length
  dropped : t.q.dropped = UInt64.ofNat (those .freed s.gone).length

theorem tag_some (f : Fate) (xs : List μ) :
    tag f (xs.map some) = (tag f xs).map fun p => (p.1, some p.2) := by
  simp [tag, Function.comp_def]

/-- `enqueued` counts what arrives. -/
theorem Refines.enqueued_push {t : QueueTrace μ} {s : Ledger μ} (h : Refines t s) (m : μ) :
    t.q.enqueued + 1 = UInt64.ofNat (s.step pfCaptureQueueSize (.push m)).arrived.length := by
  have harrived : (s.step pfCaptureQueueSize (.push m)).arrived.length = s.arrived.length + 1 := by
    rw [Ledger.step_arrived, List.length_append]
    rfl
  rw [harrived, h.enqueued, UInt64.ofNat_add]
  rfl

theorem Refines.push_room {t : QueueTrace μ} {s : Ledger μ} (h : Refines t s) (m : μ)
    (hroom : s.queue.length < pfCaptureQueueSize) :
    Refines (t.call (.push (some m))) (s.step pfCaptureQueueSize (.push m)) := by
  have hpush := h.holds.push_room hroom m
  have henq := h.enqueued_push m
  rw [Ledger.step_push_room hroom] at henq ⊢
  refine ⟨hpush.holds, ?_, h.batches, hpush.enqueued.trans henq, ?_⟩
  · show t.gone ++ tag .freed (pfCaptureQueuePush t.q (some m)).freed = _
    rw [hpush.freed, h.gone]
    exact List.append_nil _
  · exact hpush.dropped.trans ((UInt64.add_zero _).trans h.dropped)

/-- On a full ring the oldest message is freed, then the new one takes its place. -/
theorem Refines.push_full {t : QueueTrace μ} {s : Ledger μ} (h : Refines t s) (m : μ)
    (hfull : ¬ s.queue.length < pfCaptureQueueSize) :
    Refines (t.call (.push (some m))) (s.step pfCaptureQueueSize (.push m)) := by
  have hold := h.holds
  have henq := h.enqueued_push m
  rw [Ledger.step_push_full hfull] at henq ⊢
  cases hqueue : s.queue with
  | nil => simp [hqueue, pfCaptureQueueSize] at hfull
  | cons x rest =>
    rw [hqueue] at hold hfull henq
    have hpush := hold.push_full (Nat.le_of_not_lt hfull) m
    refine ⟨hpush.holds, ?_, h.batches, hpush.enqueued.trans henq, ?_⟩
    · show t.gone ++ tag .freed (pfCaptureQueuePush t.q (some m)).freed = _
      rw [hpush.freed, tag_some, h.gone, ← List.map_append]
      rfl
    · refine hpush.dropped.trans ?_
      simp only [those_append, those_tag, List.length_append, UInt64.ofNat_add, h.dropped]
      rfl

theorem Refines.push {t : QueueTrace μ} {s : Ledger μ} (h : Refines t s) (m : μ) :
    Refines (t.call (.push (some m))) (s.step pfCaptureQueueSize (.push m)) := by
  by_cases hroom : s.queue.length < pfCaptureQueueSize
  · exact h.push_room m hroom
  · exact h.push_full m hroom

theorem Refines.drain {t : QueueTrace μ} {s : Ledger μ} (h : Refines t s) (max : Int) :
    Refines (t.call (.drain max)) (s.step pfCaptureQueueSize (.drain max.toNat)) := by
  have hdrain : (pfCaptureQueueDrain t.q max) = t.q.takeLoop max.toNat := by
    unfold pfCaptureQueueDrain
    split
    · next hneg =>
      rw [Int.toNat_of_nonpos hneg]
      rfl
    · rfl
  obtain ⟨hout, hq⟩ := h.holds.takeLoop max.toNat
  obtain ⟨henq, hdrop⟩ := takeLoop_counters t.q max.toNat
  constructor
  · simpa only [QueueTrace.call, hdrain, Ledger.step] using hq
  · simp only [QueueTrace.call, hdrain, hout, Ledger.step, tag_some, h.gone, List.map_append]
  · simp only [QueueTrace.call, hdrain, hout, Ledger.step, h.batches, List.map_append]
    rfl
  · have harrived := Ledger.step_arrived pfCaptureQueueSize s (.drain max.toNat)
    simp only [QueueTrace.call, hdrain, henq, h.enqueued, harrived, pushed]
    simp
  · simp only [QueueTrace.call, hdrain, hdrop, h.dropped, Ledger.step]
    simp

theorem Refines.run {t : QueueTrace μ} {s : Ledger μ} (h : Refines t s)
    (calls : List (QueueCall μ)) :
    Refines (calls.foldl QueueTrace.call t)
      ((fifoOps calls).foldl (Ledger.step pfCaptureQueueSize) s) := by
  induction calls generalizing t s with
  | nil => exact h
  | cons c calls ih =>
    cases c with
    | push msg =>
      cases msg with
      | none =>
        have hcall : t.call (.push none) = t := by
          simp [QueueTrace.call, pfCaptureQueuePush, tag]
        rw [List.foldl_cons, hcall]
        exact ih h
      | some m => exact ih (h.push m)
    | drain max => exact ih (h.drain max)

theorem Refines.close {t : QueueTrace μ} {s : Ledger μ} (h : Refines t s) :
    t.close.q.head = t.close.q.tail ∧
      t.close.gone = s.close.gone.map fun p => (p.1, some p.2) := by
  have hused := h.holds.used_toNat
  obtain ⟨hout, hq⟩ := h.holds.takeLoop (t.q.head - t.q.tail).toNat
  rw [hused, List.take_length] at hout
  rw [hused, List.drop_length] at hq
  constructor
  · simp only [QueueTrace.close, pfCaptureQueueClose, hused]
    exact (hq.empty_iff.mpr rfl).symm
  · simp only [QueueTrace.close, pfCaptureQueueClose, hused, hout, Ledger.close, tag_some, h.gone,
      List.map_append]

/-! ## From any `head = tail` -/

/-- The messages of the calls that queue one, in order. -/
def messages (calls : List (QueueCall μ)) : List μ :=
  calls.filterMap fun
    | .push msg => msg
    | .drain _ => none

theorem pushed_fifoOps (calls : List (QueueCall μ)) : pushed (fifoOps calls) = messages calls := by
  induction calls with
  | nil => rfl
  | cons c calls ih =>
    cases c with
    | push msg =>
      cases msg with
      | none => exact ih
      | some m => exact congrArg (m :: ·) ih
    | drain max => exact ih

theorem refines_emptyAt (start : UInt32) (slots : Nat → Option μ) (calls : List (QueueCall μ)) :
    Refines (queueRun (.emptyAt start slots) calls) (fifoRun calls) := by
  apply Refines.run
  exact ⟨holds_nil rfl, rfl, rfl, rfl, rfl⟩

theorem fifoRun_arrived (calls : List (QueueCall μ)) : (fifoRun calls).arrived = messages calls := by
  unfold fifoRun
  rw [Ledger.run_arrived, pushed_fifoOps]
  rfl

theorem fifoRun_batches (calls : List (QueueCall μ)) :
    (fifoRun calls).batches.flatten = those .handed (fifoRun calls).gone :=
  Ledger.run_batches _ _ rfl

/-- Every message gone was handed out or freed. -/
theorem length_those (log : List (Fate × μ)) :
    (those .freed log).length + (those .handed log).length = log.length := by
  induction log with
  | nil => rfl
  | cons p log ih =>
    obtain ⟨f, m⟩ := p
    cases f <;> simp [those] at ih ⊢ <;> omega

theorem Refines.counters {t : QueueTrace μ} {s : Ledger μ} (h : Refines t s)
    (hb : s.batches.flatten = those .handed s.gone) :
    t.q.enqueued - t.q.dropped - UInt64.ofNat t.batches.flatten.length =
      UInt64.ofNat s.queue.length := by
  have hlen : s.arrived.length =
      s.queue.length + t.batches.flatten.length + (those .freed s.gone).length := by
    rw [h.batches, ← List.map_flatten, List.length_map, hb]
    have hgone := length_those s.gone
    simp only [Ledger.arrived, List.length_append, List.length_map]
    omega
  rw [h.enqueued, h.dropped, hlen, UInt64.ofNat_add, UInt64.ofNat_add, UInt64.add_sub_cancel,
    UInt64.add_sub_cancel]

/-- The batches are those of the FIFO, every message leaves once and in order of arrival, handed
out or freed as the FIFO has it, and the counters agree; closing frees what is left. -/
theorem queue_refines_fifo (start : UInt32) (slots : Nat → Option μ) (calls : List (QueueCall μ)) :
    (queueRun (.emptyAt start slots) calls).batches = (fifoRun calls).batches.map (List.map some) ∧
      (queueRun (.emptyAt start slots) calls).gone =
        (fifoRun calls).gone.map (fun p => (p.1, some p.2)) ∧
      (fifoRun calls).batches.flatten = those .handed (fifoRun calls).gone ∧
      (fifoRun calls).gone.map (·.2) ++ (fifoRun calls).queue = messages calls ∧
      (fifoRun calls).queue.length ≤ pfCaptureQueueSize ∧
      ((queueRun (.emptyAt start slots) calls).q.head -
        (queueRun (.emptyAt start slots) calls).q.tail).toNat = (fifoRun calls).queue.length ∧
      (queueRun (.emptyAt start slots) calls).q.enqueued -
          (queueRun (.emptyAt start slots) calls).q.dropped -
          UInt64.ofNat (queueRun (.emptyAt start slots) calls).batches.flatten.length =
        UInt64.ofNat (fifoRun calls).queue.length ∧
      (queueRun (.emptyAt start slots) calls).close.gone =
        ((fifoRun calls).gone ++ tag .freed (fifoRun calls).queue).map (fun p => (p.1, some p.2)) ∧
      (queueRun (.emptyAt start slots) calls).close.q.head =
        (queueRun (.emptyAt start slots) calls).close.q.tail := by
  have href := refines_emptyAt start slots calls
  have hb := fifoRun_batches calls
  obtain ⟨hclosed, hfreed⟩ := href.close
  exact ⟨href.batches, href.gone, hb, fifoRun_arrived calls, href.holds.bounded,
    href.holds.used_toNat, href.counters hb, hfreed, hclosed⟩

end Proxiflare.Guarantees.CaptureFifo
