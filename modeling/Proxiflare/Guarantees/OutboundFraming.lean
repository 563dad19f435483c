import Proxiflare.Daemon.Ipc

/-!
# Messages on a client's connection

`pf_ipc_send` gives up on an error or on the fifty-first `EAGAIN` in a row, however
much of the message it has written, and the next message follows. The bytes stay
whole messages but for a last one exactly when nothing is written after such a cut.
-/

namespace Proxiflare.Guarantees.OutboundFraming

open Lib.CString
open Proxiflare.Daemon

variable {ν σ : Type}

/-! ## What the results allow -/

/-- The results make the loop give up before `n` bytes are written. -/
def refusedWithin : List WriteRes → Nat → Nat → Bool
  | _, _, 0 => false
  | [], _, _ + 1 => false
  | .wrote k :: rs, _, n + 1 => refusedWithin rs 0 (n + 1 - k)
  | .eintr :: rs, retries, n + 1 => refusedWithin rs retries (n + 1)
  | .eagain :: rs, retries, n + 1 => if retries < 50 then refusedWithin rs (retries + 1) (n + 1) else true
  | .error :: _, _, _ + 1 => true

/-- The results let a byte be written before the loop gives up. -/
def takesByte : List WriteRes → Nat → Bool
  | [], _ => true
  | .wrote k :: rs, _ => 0 < k || takesByte rs 0
  | .eintr :: rs, retries => takesByte rs retries
  | .eagain :: rs, retries => retries < 50 && takesByte rs (retries + 1)
  | .error :: _, _ => false

/-- The send gives up after a part of its message was written. -/
def CutShort (d : Delivery) : Prop :=
  takesByte d.results 0 = true ∧ refusedWithin d.results 0 d.message.length = true

/-! ## One send -/

def wrote (d : Delivery) : CStr := sendBytes d.results 0 d.message

theorem sendBytes_isPrefix (rs : List WriteRes) (retries : Nat) (left : CStr) :
    sendBytes rs retries left <+: left := by
  induction rs generalizing retries left with
  | nil => cases left <;> exact List.prefix_rfl
  | cons r rs ih =>
    cases left with
    | nil => exact List.prefix_rfl
    | cons b left =>
      cases r with
      | wrote n =>
        obtain ⟨rest, hrest⟩ := ih 0 ((b :: left).drop n)
        refine ⟨rest, ?_⟩
        show (b :: left).take n ++ _ ++ rest = b :: left
        rw [List.append_assoc, hrest, List.take_append_drop]
      | eintr => exact ih retries (b :: left)
      | eagain =>
        unfold sendBytes
        split
        · exact ih _ _
        · exact List.nil_prefix
      | error => exact List.nil_prefix

theorem sendBytes_eq_iff (rs : List WriteRes) (retries : Nat) (left : CStr) :
    sendBytes rs retries left = left ↔ refusedWithin rs retries left.length = false := by
  induction rs generalizing retries left with
  | nil => cases left <;> simp [sendBytes, refusedWithin]
  | cons r rs ih =>
    cases left with
    | nil => simp [sendBytes, refusedWithin]
    | cons b left =>
      cases r with
      | wrote n =>
        show (b :: left).take n ++ sendBytes rs 0 ((b :: left).drop n) = b :: left ↔
          refusedWithin rs 0 (left.length + 1 - n) = false
        have hdrop := ih 0 ((b :: left).drop n)
        rw [List.length_drop, List.length_cons] at hdrop
        rw [← hdrop]
        have hsplit := List.take_append_drop n (b :: left)
        constructor
        · intro hall
          exact List.append_cancel_left (hall.trans hsplit.symm)
        · intro hrest
          rw [hrest, hsplit]
      | eintr => exact ih retries (b :: left)
      | eagain =>
        simp only [sendBytes, refusedWithin, List.length_cons]
        split
        · exact ih _ (b :: left)
        · simp
      | error => simp [sendBytes, refusedWithin]

theorem sendBytes_nil_iff (rs : List WriteRes) (retries : Nat) {left : CStr} (h : left ≠ []) :
    sendBytes rs retries left = [] ↔ takesByte rs retries = false := by
  induction rs generalizing retries with
  | nil =>
    cases left with
    | nil => exact absurd rfl h
    | cons b left => simp [sendBytes, takesByte]
  | cons r rs ih =>
    cases left with
    | nil => exact absurd rfl h
    | cons b left =>
      cases r with
      | wrote n =>
        cases n with
        | zero =>
          have hrest := ih 0
          simpa [sendBytes, takesByte] using hrest
        | succ n => simp [sendBytes, takesByte]
      | eintr => exact ih retries
      | eagain =>
        by_cases hlt : retries < 50
        · have hrest := ih (retries + 1)
          simpa [sendBytes, takesByte, hlt] using hrest
        · simp [sendBytes, takesByte, hlt]
      | error => simp [sendBytes, takesByte]

theorem cutShort_iff {d : Delivery} (h : d.message ≠ []) :
    CutShort d ↔ wrote d ≠ [] ∧ wrote d ≠ d.message := by
  unfold CutShort wrote
  rw [Ne, sendBytes_nil_iff _ _ h, Ne, sendBytes_eq_iff, Bool.not_eq_false, Bool.not_eq_false]

/-! ## A sequence of sends -/

/-- Complete messages, then at most one that is cut off, after which nothing is written. -/
def Framed (ds : List Delivery) : Prop :=
  ∃ whole cut rest, ds = whole ++ cut ++ rest ∧ (∀ d ∈ whole, wrote d = d.message ∨ wrote d = []) ∧
    cut.length ≤ 1 ∧ ∀ d ∈ rest, wrote d = []

/-- No send is cut short before one that writes a byte. -/
def NothingAfterCut (ds : List Delivery) : Prop :=
  ds.Pairwise fun d d' => CutShort d → takesByte d'.results 0 = false

theorem framed_iff_of_nonempty {ds : List Delivery} (h : ∀ d ∈ ds, d.message ≠ []) :
    Framed ds ↔ NothingAfterCut ds := by
  constructor
  · intro hframed
    obtain ⟨whole, cut, rest, rfl, hwhole, hcut, hrest⟩ := hframed
    have hsilent : ∀ d ∈ rest, takesByte d.results 0 = false := by
      intro d hd
      exact (sendBytes_nil_iff _ _ (h d (by simp [hd]))).mp (hrest d hd)
    have hnot : ∀ d ∈ whole, ¬ CutShort d := by
      intro d hd hshort
      obtain ⟨hne, hneq⟩ := (cutShort_iff (h d (by simp [hd]))).mp hshort
      exact (hwhole d hd).elim hneq hne
    refine List.pairwise_append.mpr ⟨List.pairwise_append.mpr ⟨?_, ?_, ?_⟩, ?_, ?_⟩
    · exact List.pairwise_of_forall_mem_list fun d hd d' _ hshort => absurd hshort (hnot d hd)
    · cases cut with
      | nil => exact List.Pairwise.nil
      | cons d cut =>
        obtain rfl : cut = [] := List.length_eq_zero_iff.mp (by simpa using hcut)
        exact List.pairwise_singleton _ _
    · intro d hd d' _ hshort
      exact absurd hshort (hnot d hd)
    · exact List.pairwise_of_forall_mem_list fun d _ d' hd' _ => hsilent d' hd'
    · intro d _ d' hd' _
      exact hsilent d' hd'
  · intro hafter
    induction ds with
    | nil => exact ⟨[], [], [], rfl, nofun, Nat.zero_le _, nofun⟩
    | cons d ds ih =>
      obtain ⟨hd, hds⟩ := List.pairwise_cons.mp hafter
      have hne : ∀ d' ∈ ds, d'.message ≠ [] := fun d' hd' => h d' (by simp [hd'])
      by_cases hshort : CutShort d
      · refine ⟨[], [d], ds, rfl, nofun, le_rfl, fun d' hd' => ?_⟩
        exact (sendBytes_nil_iff _ _ (hne d' hd')).mpr (hd d' hd' hshort)
      · obtain ⟨whole, cut, rest, rfl, hwhole, hcut, hrest⟩ := ih hne hds
        refine ⟨d :: whole, cut, rest, by simp, fun d' hd' => ?_, hcut, hrest⟩
        rcases List.mem_cons.mp hd' with rfl | hd'
        · rw [cutShort_iff (h d' (by simp)), not_and_not_right] at hshort
          by_cases hnil : wrote d' = []
          · exact .inr hnil
          · exact .inl (hshort hnil)
        · exact hwhole d' hd'

/-! ## Everything sent to a client -/

theorem sendEach_nonempty (printNumber : ν → CStr) (msgs : List (Cjson ν))
    (results : List (List WriteRes)) : ∀ d ∈ sendEach printNumber msgs results, d.message ≠ [] := by
  induction msgs generalizing results with
  | nil => nofun
  | cons msg msgs ih =>
    intro d hd
    rcases List.mem_cons.mp hd with rfl | hd
    · exact List.append_ne_nil_of_right_ne_nil _ (by simp)
    · exact ih _ d hd

theorem deliveries_nonempty (env : IpcEnv ν σ) (printNumber : ν → CStr)
    (s : Option (σ × IpcClient)) (es : List (ClientEvent ν)) :
    ∀ d ∈ deliveries env printNumber s es, d.message ≠ [] := by
  induction es generalizing s with
  | nil => nofun
  | cons e es ih =>
    intro d hd
    rcases List.mem_append.mp hd with hd | hd
    · unfold clientEvent at hd
      split at hd
      · cases hd
      · split at hd
        · cases hd
        · exact sendEach_nonempty _ _ _ d hd
      · split at hd
        · exact sendEach_nonempty _ _ _ d hd
        · cases hd
      · split at hd
        · exact sendEach_nonempty _ _ _ d hd
        · cases hd
    · exact ih _ d hd

/-- For every sequence of replies and broadcasts and every sequence of `write` results. -/
theorem framed_iff (env : IpcEnv ν σ) (printNumber : ν → CStr) (st : σ) (c : IpcClient)
    (es : List (ClientEvent ν)) :
    Framed (deliveries env printNumber (some (st, c)) es) ↔
      NothingAfterCut (deliveries env printNumber (some (st, c)) es) :=
  framed_iff_of_nonempty (deliveries_nonempty env printNumber _ es)

/-- Every line is a request without a method. -/
def anyEnv : IpcEnv Int Unit := ⟨id, fun _ => some (.obj []), fun st _ _ => (none, st)⟩

/-- Two requests; the first reply is cut after three bytes, the second goes out. -/
def cutThenSend : List (ClientEvent Int) :=
  [.process (.data [49, 10, 50, 10]) [[.wrote 3, .error], []]]

/-- The second reply follows three bytes of the first. -/
theorem reply_after_cut :
    ¬ Framed (deliveries anyEnv (fun n => decimal n.natAbs) (some ((), .free)) cutThenSend) := by
  rw [framed_iff_of_nonempty (deliveries_nonempty _ _ _ _)]
  unfold NothingAfterCut CutShort
  decide

end Proxiflare.Guarantees.OutboundFraming
