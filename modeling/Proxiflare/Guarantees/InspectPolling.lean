import Proxiflare.Gui.InspectPage
import Proxiflare.Guarantees.ReadableReplies
import Proxiflare.Lib.Runs

/-!
# Inspect polls across restarts of the daemon

The daemon withholds what is not above the cursor of the page, so after a restart no
poll sees a smaller number, which is what the page waits for to start over. Nothing is
delivered until the new numbers have passed the old cursor. The cursor is cast to an
`int`; runs here keep the numbers within one.
-/

namespace Proxiflare.Guarantees.InspectPolling

open Lib.Runs Lib.CString
open Proxiflare.Daemon Proxiflare.Gui
open Proxiflare.Guarantees.ReadableReplies (natDoubles noCodecs)

variable {ν : Type} (d : Doubles ν) (codecs : Codecs)

/-- `received` are the numbers delivered since the last restart. -/
structure Desk (ν : Type) where
  captures : Captures ν
  page : InspectPage ν
  received : List ν

inductive Event where
  | traffic (t : Traffic)
  | poll
  | restart

/-- What a poll gets. -/
def Desk.fetched (s : Desk ν) : List (Cjson ν) := fetchEntries d s.captures s.page.seqRef

def step (s : Desk ν) : Event → Option (Desk ν)
  | .traffic t => some { s with captures := s.captures.step d codecs t }
  | .poll => some { s with
      page := s.page.poll d (s.fetched d)
      received := s.received ++ (s.fetched d).map (entrySeq d) }
  | .restart => some { s with captures := .start, received := [] }

def Starts (s : Desk ν) : Prop := s = ⟨.start, .start d, []⟩

/-- The counter stays below 2^31. -/
def InRange (s : Desk ν) : Event → Prop
  | .traffic _ => s.captures.inspectSeq.toNat + 1 < 2 ^ 31
  | _ => True

/-- The ring holds an entry that was not delivered since the last restart. -/
def Missing (s : Desk ν) : Prop :=
  ∃ e ∈ s.captures.inspectRing.oldestFirst pfInspectRingSize, entrySeq d (slim e) ∉ s.received

/-- A poll puts such an entry on the page. -/
def Delivers (s : Desk ν) : Prop :=
  ∃ e ∈ s.fetched d, e ∈ (s.page.poll d (s.fetched d)).entries ∧ entrySeq d e ∉ s.received

/-- The newest entry of the ring is above the cursor. -/
def NewestAbove (s : Desk ν) : Prop :=
  ∃ e, (s.captures.inspectRing.oldestFirst pfInspectRingSize).getLast? = some e ∧
    d.lt s.page.seqRef (entrySeq d (slim e)) = true

/-- The cursor is a number, and no number received since the restart is above it. -/
structure Tracked (s : Desk ν) (kept : List (Cjson ν)) (cursor : Nat) : Prop where
  numbering : s.captures.Numbering d kept
  inRange : kept.length < 2 ^ 31
  cursorRange : cursor < 2 ^ 31
  seqRef : s.page.seqRef = d.ofInt cursor
  received : ∀ v ∈ s.received, ∃ k ≤ cursor, v = d.ofInt (k : Nat)

variable {d codecs} {s s' : Desk ν} {kept : List (Cjson ν)} {cursor : Nat}

theorem fetched_eq (h : Tracked d s kept cursor) :
    s.fetched d = fetchEntries d s.captures (d.ofInt cursor) := by
  unfold Desk.fetched
  rw [h.seqRef]

/-! ## Runs -/

theorem tracked_start (hs : Starts d s) : Tracked d s [] 0 := by
  rw [hs]
  exact ⟨.start, Nat.two_pow_pos 31, Nat.two_pow_pos 31, rfl, by simp⟩

theorem tracked_poll (hd : d.ExactInts) (h : Tracked d s kept cursor)
    (hs : step d codecs s .poll = some s') : ∃ cursor', Tracked d s' kept cursor' := by
  obtain rfl := Option.some.inj hs
  by_cases hnew : cursor < kept.length
  · obtain ⟨ns, hns, hrange⟩ := fetchEntries_new hd h.numbering h.inRange hnew
    rw [← fetched_eq h] at hns
    have hpage := poll_newer hd h.seqRef h.inRange hnew hns hrange
    refine ⟨kept.length, h.numbering, h.inRange, h.inRange, by rw [hpage], ?_⟩
    intro v hv
    rcases List.mem_append.mp hv with hv | hv
    · obtain ⟨k, hk, rfl⟩ := h.received v hv
      exact ⟨k, by omega, rfl⟩
    · rw [hns] at hv
      obtain ⟨k, hk, rfl⟩ := List.mem_map.mp hv
      rcases List.mem_append.mp hk with hk | hk
      · exact ⟨k, (hrange k hk).2, rfl⟩
      · exact ⟨k, Nat.le_of_eq (List.mem_singleton.mp hk), rfl⟩
  · have hnone : s.fetched d = [] := by
      rw [fetched_eq h]
      exact fetchEntries_old hd h.numbering h.cursorRange (by omega)
    refine ⟨cursor, h.numbering, h.inRange, h.cursorRange, ?_, ?_⟩
    · rw [hnone]
      exact h.seqRef
    · rw [hnone, List.map_nil, List.append_nil]
      exact h.received

theorem tracked_step (hd : d.ExactInts) (h : Tracked d s kept cursor) {e : Event}
    (hg : InRange s e) (hs : step d codecs s e = some s') :
    ∃ kept' cursor', Tracked d s' kept' cursor' := by
  cases e with
  | traffic t =>
    obtain rfl := Option.some.inj hs
    have hroom : kept.length + 1 < 2 ^ 31 := h.numbering.seq ▸ hg
    obtain ⟨new, hnum, hlen⟩ := h.numbering.step (by omega) codecs t
    refine ⟨kept ++ new, cursor, hnum, ?_, h.cursorRange, h.seqRef, h.received⟩
    rw [List.length_append]
    omega
  | poll => exact ⟨kept, tracked_poll hd h hs⟩
  | restart =>
    obtain rfl := Option.some.inj hs
    exact ⟨[], cursor, .start, Nat.two_pow_pos 31, h.cursorRange, h.seqRef, by simp⟩

theorem tracked_of_reach (hd : d.ExactInts) (hr : Reach (step d codecs) InRange (Starts d) s) :
    ∃ kept cursor, Tracked d s kept cursor := by
  have hinit : ∀ s, Starts d s → ∃ kept cursor, Tracked d s kept cursor :=
    fun s hs => ⟨[], 0, tracked_start hs⟩
  refine hr.invariant hinit fun s e s' h hg hs => ?_
  obtain ⟨kept, cursor, h⟩ := h
  exact tracked_step hd h hg hs

/-! ## What a poll delivers -/

theorem newestAbove_iff (hd : d.ExactInts) (h : Tracked d s kept cursor) :
    NewestAbove d s ↔ cursor < kept.length := by
  unfold NewestAbove
  by_cases hpos : 0 < kept.length
  · obtain ⟨before, e, hring, hnum⟩ := ring_last h.numbering hpos
    rw [hring, List.getLast?_concat, h.seqRef]
    constructor
    · rintro ⟨o, ho, hlt⟩
      obtain rfl := Option.some.inj ho
      rw [entrySeq_slim hnum, hd.lt cursor kept.length h.cursorRange h.inRange] at hlt
      exact of_decide_eq_true hlt
    · intro hlt
      refine ⟨e, rfl, ?_⟩
      rw [entrySeq_slim hnum, hd.lt cursor kept.length h.cursorRange h.inRange]
      exact decide_eq_true hlt
  · obtain rfl := List.eq_nil_of_length_eq_zero (Nat.eq_zero_of_not_pos hpos)
    rw [h.numbering.ring.oldestFirst, List.drop_nil]
    constructor
    · rintro ⟨o, ho, -⟩
      cases ho
    · intro hlt
      exact absurd hlt (Nat.not_lt_zero cursor)

/-- The newest entry fetched stays on the page. -/
theorem mem_capEntries (before : List (Cjson ν)) (raw : List (Cjson ν)) (e : Cjson ν) :
    e ∈ capEntries (before ++ (raw ++ [e])) := by
  unfold capEntries
  have hle : (before ++ (raw ++ [e])).length - 2000 ≤ (before ++ raw).length := by
    rw [← List.append_assoc, List.length_append, List.length_singleton]
    omega
  rw [← List.append_assoc] at hle ⊢
  rw [List.drop_append_of_le_length hle]
  exact List.mem_append_right _ (List.mem_singleton_self e)

theorem delivers_iff (hd : d.ExactInts) (h : Tracked d s kept cursor) :
    Delivers d s ↔ cursor < kept.length := by
  by_cases hnew : cursor < kept.length
  · refine iff_of_true ?_ hnew
    obtain ⟨ns, hns, hrange⟩ := fetchEntries_new hd h.numbering h.inRange hnew
    rw [← fetched_eq h] at hns
    have hpage := poll_newer hd h.seqRef h.inRange hnew hns hrange
    rw [List.map_append] at hns
    obtain ⟨raw, last, hraw, -, hlast⟩ := List.map_eq_append_iff.mp hns
    obtain ⟨e, rfl, he⟩ := List.map_eq_singleton_iff.mp hlast
    refine ⟨e, ?_, ?_, ?_⟩
    · rw [hraw]
      simp
    · rw [hpage]
      dsimp only
      rw [hraw]
      exact mem_capEntries s.page.entries raw e
    · intro hin
      obtain ⟨k, hk, heq⟩ := h.received _ hin
      have hsame := hd.inj h.inRange (Nat.lt_of_le_of_lt hk h.cursorRange) (he.symm.trans heq)
      omega
  · refine iff_of_false ?_ hnew
    rintro ⟨e, he, -⟩
    rw [fetched_eq h, fetchEntries_old hd h.numbering h.cursorRange (by omega)] at he
    cases he

/-- In every state a run within range reaches, a poll that has something to deliver does so exactly
if the newest number is above the cursor. -/
theorem polls_deliver_iff (hd : d.ExactInts) (hr : Reach (step d codecs) InRange (Starts d) s) :
    (Missing d s → Delivers d s) ↔ (Missing d s → NewestAbove d s) := by
  obtain ⟨kept, cursor, h⟩ := tracked_of_reach hd hr
  rw [delivers_iff hd h, newestAbove_iff hd h]

/-! ## A restart -/

theorem natDoubles_exact : natDoubles.ExactInts where
  toInt _ _ := rfl
  lt _ _ _ _ := rfl

/-- A request on an inspected connection. -/
def request : Event :=
  .traffic (.chunk .unused (lit "GET / HTTP/1.1\x0d\x0aHost: a\x0d\x0a\x0d\x0a") true 0)

def atStart : Desk Nat := ⟨.start, .start natDoubles, []⟩

instance (s : Desk ν) (e : Event) : Decidable (InRange s e) :=
  match e with
  | .traffic _ => inferInstanceAs (Decidable (_ < _))
  | .poll => isTrue trivial
  | .restart => isTrue trivial

/-- One request, a poll, a restart and two requests. -/
def overtaken : Desk Nat :=
  (run (step natDoubles noCodecs) atStart [request, .poll, .restart, request, request]).getD atStart

/-- The second of them has passed the cursor, and the next poll delivers it. -/
theorem polls_deliver_iff_overtaken :
    overtaken.received = [] ∧ overtaken.page.seqRef = 1 ∧ Delivers natDoubles overtaken := by
  have hrun : run (guarded (step natDoubles noCodecs) fun s e => decide (InRange s e)) atStart
      [request, .poll, .restart, request, request] = some overtaken := rfl
  have hstart : Reach (step natDoubles noCodecs) (fun s e => decide (InRange s e) = true)
      (Starts natDoubles) atStart := .start rfl
  have hreach : Reach (step natDoubles noCodecs) InRange (Starts natDoubles) overtaken :=
    (hstart.run_guarded hrun).mono fun _ _ => of_decide_eq_true
  have hring : ∃ e, (overtaken.captures.inspectRing.oldestFirst pfInspectRingSize).getLast? = some e ∧
      natDoubles.lt overtaken.page.seqRef (entrySeq natDoubles (slim e)) = true := by
    have hany : ((overtaken.captures.inspectRing.oldestFirst pfInspectRingSize).getLast?).any
        (fun e => natDoubles.lt overtaken.page.seqRef (entrySeq natDoubles (slim e))) = true := by
      decide +kernel
    exact (Option.any_eq_true _ _).mp hany
  have hreceived : overtaken.received = [] := by decide +kernel
  have hmissing : Missing natDoubles overtaken := by
    obtain ⟨e, he, -⟩ := hring
    refine ⟨e, List.mem_of_getLast? he, ?_⟩
    rw [hreceived]
    exact List.not_mem_nil
  exact ⟨hreceived, by decide +kernel,
    (polls_deliver_iff natDoubles_exact hreach).mpr (fun _ => hring) hmissing⟩

/-- One request, a poll, a restart and another request. -/
def afterRestart : Desk Nat :=
  (run (step natDoubles noCodecs) atStart [request, .poll, .restart, request]).getD atStart

/-- The number of the second request is not above the cursor. -/
theorem poll_after_restart_gets_nothing :
    ¬ ∀ s, Reach (step natDoubles noCodecs) (fun _ _ => True) (Starts natDoubles) s →
      Missing natDoubles s → Delivers natDoubles s := by
  intro h
  have hrun : run (step natDoubles noCodecs) atStart [request, .poll, .restart, request] =
      some afterRestart := rfl
  have hstart : Reach (step natDoubles noCodecs) (fun _ _ => True) (Starts natDoubles) atStart :=
    .start rfl
  have hreach : Reach (step natDoubles noCodecs) (fun _ _ => True) (Starts natDoubles)
      afterRestart :=
    hstart.run (s := atStart) (fun _ _ _ => trivial) hrun
  have hmissing : Missing natDoubles afterRestart := by
    have hheld :
        (afterRestart.captures.inspectRing.oldestFirst pfInspectRingSize).isEmpty = false := by
      decide +kernel
    obtain ⟨e, he⟩ := List.exists_mem_of_ne_nil _ (List.isEmpty_eq_false_iff.mp hheld)
    exact ⟨e, he, List.not_mem_nil⟩
  obtain ⟨e, he, -⟩ := h afterRestart hreach hmissing
  have hnone : (afterRestart.fetched natDoubles).isEmpty = true := by decide +kernel
  rw [List.isEmpty_iff.mp hnone] at he
  cases he

end Proxiflare.Guarantees.InspectPolling
