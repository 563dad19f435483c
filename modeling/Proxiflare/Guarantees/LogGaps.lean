import Mathlib.Data.Set.Card
import Proxiflare.Guarantees.ReadableReplies
import Proxiflare.Gui.UseLog
import Proxiflare.Lib.GapFeed
import Proxiflare.Lib.Runs

/-!
# Gaps in the log feed

The daemon drops the oldest entries between two polls and the feed counts what it missed. The
updater that adds a gap reads the cursor when React calls it; in the next render the cursor has
already moved to the end of the new entries, and their number is subtracted instead. `since_seq`
is cast to `int`, so the numbers here stay within one.
-/

namespace Proxiflare.Guarantees.LogGaps

open Lib.Runs Lib.CString Lib.GapFeed
open Proxiflare.Daemon Proxiflare.Gui
open ReadableReplies (direct noCodecs)

variable {ν : Type} (d : Doubles ν) (sums : Sums ν) (codecs : Codecs)

/-- `log`: every entry logged since the start. `answer`: the entries of the poll in flight.
`delivered`: what was handed to `setEntries`, in that order. -/
structure Desk (ν : Type) where
  captures : Captures ν
  log : List (Cjson ν)
  feed : UseLog ν
  answer : Option (List (Cjson ν))
  delivered : List (Cjson ν)

/-- The daemon handles a request of the poll (`ask`); its answer arrives, and React calls the
updater of `setDropped` at once or in the next render (`deliver`), or it is lost (`fail`). -/
inductive Event where
  | traffic (t : Traffic)
  | ask
  | deliver (atOnce : Bool)
  | fail
  | pause (paused : Bool)

def step (s : Desk ν) : Event → Option (Desk ν)
  | .traffic t => some { s with
      captures := s.captures.step d codecs t
      log := s.log ++ s.captures.logged d t }
  | .ask =>
    if s.feed.paused || s.answer.isSome then none
    else some { s with answer := some (fetchLog d s.captures s.feed.seqRef) }
  | .deliver atOnce => s.answer.map fun newEntries => { s with
      feed := s.feed.receive d sums newEntries atOnce
      answer := none
      delivered := s.delivered ++ sortBySeq d newEntries }
  | .fail => some { s with answer := none }
  | .pause paused => some { s with feed := { s.feed with paused := paused } }

def Starts (s : Desk ν) : Prop := s = ⟨.start, [], .start d, none, []⟩

/-- The counter stays below 2^31, and no updater that adds a gap waits for the render. -/
def Counted (s : Desk ν) : Event → Prop
  | .traffic _ => s.captures.logSeq.toNat + 1 < 2 ^ 31
  | .deliver atOnce =>
    atOnce = true ∨ ∀ newEntries, s.answer = some newEntries → s.feed.gap d sums newEntries = false
  | _ => True

/-- The entries from the first delivered to the last seen that were never delivered. -/
def missed (s : Desk ν) (first : Cjson ν) : Set (Cjson ν) :=
  {e | e ∈ s.log ∧ d.lt (entrySeq d e) (entrySeq d first) = false ∧
    d.lt s.feed.seqRef (entrySeq d e) = false ∧ e ∉ s.delivered}

/-- No entry is delivered twice, and what was missed is counted. -/
structure Accounted (s : Desk ν) : Prop where
  once : (s.delivered.map (entrySeq d)).Nodup
  dropped : ∀ first, s.delivered.head? = some first →
    s.feed.dropped = d.ofInt ((missed d s first).ncard : Int)

/-- The desk is where the reader of numbered items is. -/
structure Tracked (s : Desk ν) (r : Reader) : Prop where
  numbering : s.captures.LogNumbering d s.log
  inRange : s.log.length < 2 ^ 31
  tallied : r.Tallied
  cursor_le : r.cursor ≤ s.log.length
  seqRef : s.feed.seqRef = d.ofInt r.cursor
  dropped : s.feed.dropped = d.ofInt r.dropped
  delivered : s.delivered.map some = r.delivered.map fun n => s.log[n - 1]?
  answer : ∀ es, s.answer = some es → es = [] ∨
    ∃ lo hi, r.cursor ≤ lo ∧ lo < hi ∧ hi ≤ s.log.length ∧ es = (s.log.take hi).drop lo

variable {d sums codecs} {s s' : Desk ν} {r : Reader} {lo hi : Nat}

/-! ## Stretches of the log -/

theorem stretch_log (h : Tracked d s r) (hlt : lo < hi) (hhi : hi ≤ s.log.length) :
    Stretch d lo hi ((s.log.take hi).drop lo) where
  lt := hlt
  length := by
    rw [List.length_drop, List.length_take]
    omega
  numbered i e he := by
    rw [List.getElem?_drop] at he
    have hlen := (List.getElem?_eq_some_iff.mp he).1
    rw [List.length_take] at hlen
    rw [List.getElem?_take_of_lt (by omega)] at he
    exact h.numbering.numbered (lo + i) e he

/-- A stretch, entry by entry. -/
theorem map_some_stretch {α : Type} (xs : List α) (hhi : hi ≤ xs.length) :
    ((xs.take hi).drop lo).map some = (List.range' (lo + 1) (hi - lo)).map fun n => xs[n - 1]? := by
  apply List.ext_getElem
  · rw [List.length_map, List.length_map, List.length_drop, List.length_take, List.length_range']
    omega
  · intro i hleft hright
    rw [List.length_map, List.length_range'] at hright
    have hlt : lo + i < xs.length := by omega
    rw [List.getElem_map, List.getElem_map, List.getElem_range', List.getElem_drop,
      List.getElem_take, show lo + 1 + 1 * i - 1 = lo + i by omega, List.getElem?_eq_getElem hlt]

/-! ## Runs -/

theorem tracked_start (hs : Starts d s) : Tracked d s .start := by
  rw [hs]
  exact ⟨.start, Nat.two_pow_pos 31, .start, Nat.zero_le 0, rfl, rfl, rfl, by simp⟩

/-- What is logged later moves nothing. -/
theorem tracked_traffic (h : Tracked d s r) (t : Traffic)
    (hroom : s.captures.logSeq.toNat + 1 < 2 ^ 31)
    (hs : step d sums codecs s (.traffic t) = some s') : Tracked d s' r := by
  obtain rfl := Option.some.inj hs
  rw [h.numbering.seq] at hroom
  have hone : (s.captures.logged d t).length ≤ 1 := by
    rcases captureStep_log d codecs s.captures t with ⟨hnone, -⟩ | ⟨e, hone, -⟩
    · rw [hnone]
      exact Nat.zero_le 1
    · rw [hone]
      exact Nat.le_refl 1
  refine ⟨h.numbering.step (by omega) codecs t, ?_, h.tallied, ?_, h.seqRef, h.dropped, ?_, ?_⟩
  · rw [List.length_append]
    omega
  · rw [List.length_append]
    exact Nat.le_add_right_of_le h.cursor_le
  · rw [h.delivered]
    apply List.map_congr_left
    intro n hn
    obtain ⟨hpos, hle⟩ := h.tallied.range n hn
    have hcursor := h.cursor_le
    exact (List.getElem?_append_left (by omega)).symm
  · intro es hes
    rcases h.answer es hes with rfl | ⟨lo, hi, hlo, hlt, hhi, rfl⟩
    · exact .inl rfl
    · refine .inr ⟨lo, hi, hlo, hlt, ?_, ?_⟩
      · rw [List.length_append]
        exact Nat.le_add_right_of_le hhi
      · rw [List.take_append_of_le_length hhi]

theorem tracked_ask (hd : d.ExactInts) (h : Tracked d s r)
    (hs : step d sums codecs s .ask = some s') : Tracked d s' r := by
  simp only [step, Option.ite_none_left_eq_some] at hs
  obtain rfl := Option.some.inj hs.2
  have hcursor := h.cursor_le
  have hrange := h.inRange
  refine ⟨h.numbering, h.inRange, h.tallied, h.cursor_le, h.seqRef, h.dropped, h.delivered, ?_⟩
  intro es hes
  obtain rfl := Option.some.inj hes
  rw [h.seqRef, fetchLog_eq h.numbering hd h.inRange (by omega)]
  by_cases hnew : max r.cursor (s.log.length - pfLogRingSize) < s.log.length
  · refine .inr ⟨_, s.log.length, Nat.le_max_left _ _, hnew, Nat.le_refl _, ?_⟩
    rw [List.take_length]
  · exact .inl (List.drop_of_length_le (Nat.le_of_not_lt hnew))

theorem tracked_deliver (hd : d.ExactInts) (ha : sums.ExactInts d) (h : Tracked d s r)
    {atOnce : Bool} (hg : Counted d sums s (.deliver atOnce))
    (hs : step d sums codecs s (.deliver atOnce) = some s') : ∃ r', Tracked d s' r' := by
  obtain ⟨es, hes, rfl⟩ := Option.map_eq_some_iff.mp hs
  rcases h.answer es hes with rfl | ⟨lo, hi, hlo, hlt, hhi, rfl⟩
  · refine ⟨r, h.numbering, h.inRange, h.tallied, h.cursor_le, h.seqRef, h.dropped, ?_, by simp⟩
    rw [sortBySeq, List.mergeSort_nil, List.append_nil]
    exact h.delivered
  · have hstretch := stretch_log h hlt hhi
    have hrange : hi < 2 ^ 31 := Nat.lt_of_le_of_lt hhi h.inRange
    have hgood := hg.imp_right fun hgap => hgap _ hes
    refine ⟨r.receive lo hi, h.numbering, h.inRange, h.tallied.receive hlo hlt, hhi, ?_, ?_, ?_,
      by simp⟩
    · exact receive_seqRef hd hstretch hrange hlo h.seqRef sums atOnce
    · exact receive_dropped hd hstretch hrange hlo h.seqRef ha h.tallied.dropped_le h.dropped hgood
    · rw [sortBySeq_stretch hd hstretch hrange, List.map_append, h.delivered,
        map_some_stretch s.log hhi, ← List.map_append]
      rfl

theorem tracked_step (hd : d.ExactInts) (ha : sums.ExactInts d) (h : Tracked d s r) {e : Event}
    (hg : Counted d sums s e) (hs : step d sums codecs s e = some s') : ∃ r', Tracked d s' r' := by
  cases e with
  | traffic t => exact ⟨r, tracked_traffic h t hg hs⟩
  | ask => exact ⟨r, tracked_ask hd h hs⟩
  | deliver atOnce => exact tracked_deliver hd ha h hg hs
  | fail =>
    obtain rfl := Option.some.inj hs
    exact ⟨r, h.numbering, h.inRange, h.tallied, h.cursor_le, h.seqRef, h.dropped, h.delivered,
      by simp⟩
  | pause paused =>
    obtain rfl := Option.some.inj hs
    exact ⟨r, h.numbering, h.inRange, h.tallied, h.cursor_le, h.seqRef, h.dropped, h.delivered,
      h.answer⟩

theorem tracked_of_reach (hd : d.ExactInts) (ha : sums.ExactInts d)
    (hr : Reach (step d sums codecs) (Counted d sums) (Starts d) s) : ∃ r, Tracked d s r := by
  have hinit : ∀ s, Starts d s → ∃ r, Tracked d s r := fun s hs => ⟨.start, tracked_start hs⟩
  refine hr.invariant hinit fun s e s' h hg hs => ?_
  obtain ⟨r, h⟩ := h
  exact tracked_step hd ha h hg hs

/-! ## What is counted -/

/-- The entry of a number within the log. -/
theorem entry_of_number (h : Tracked d s r) {n : Nat} (hn : 0 < n) (hle : n ≤ s.log.length) :
    ∃ e, s.log[n - 1]? = some e ∧ IsLogEntry d n e := by
  have hlt : n - 1 < s.log.length := by omega
  have he := List.getElem?_eq_getElem hlt
  have hnum := h.numbering.numbered (n - 1) _ he
  rw [Nat.sub_add_cancel hn] at hnum
  exact ⟨_, he, hnum⟩

/-- Numbers of the log tell its entries apart. -/
theorem number_inj (hd : d.ExactInts) (h : Tracked d s r) {m n : Nat} {e : Cjson ν}
    (hm : IsLogEntry d m e) (hn : IsLogEntry d n e) (hmle : m ≤ s.log.length)
    (hnle : n ≤ s.log.length) : m = n := by
  have hrange := h.inRange
  exact hd.inj (by omega) (by omega) ((entrySeq_log hm).symm.trans (entrySeq_log hn))

theorem mem_delivered_iff (hd : d.ExactInts) (h : Tracked d s r) {n : Nat} {e : Cjson ν}
    (hnum : IsLogEntry d n e) (hnle : n ≤ s.log.length) (he : s.log[n - 1]? = some e) :
    e ∈ s.delivered ↔ n ∈ r.delivered := by
  have hmem : e ∈ s.delivered ↔ some e ∈ r.delivered.map fun n => s.log[n - 1]? := by
    rw [← h.delivered, List.mem_map_of_injective (Option.some_injective _)]
  rw [hmem, List.mem_map]
  constructor
  · rintro ⟨k, hk, hlog⟩
    obtain ⟨hpos, hle⟩ := h.tallied.range k hk
    have hkle := hle.trans h.cursor_le
    obtain ⟨o, ho, hknum⟩ := entry_of_number h hpos hkle
    obtain rfl : o = e := Option.some.inj (ho.symm.trans hlog)
    rwa [number_inj hd h hnum hknum hnle hkle]
  · intro hn
    exact ⟨n, hn, he⟩

theorem map_entrySeq (h : Tracked d s r) :
    s.delivered.map (entrySeq d) = r.delivered.map fun n : Nat => d.ofInt n := by
  apply List.map_injective_iff.mpr (Option.some_injective ν)
  have hleft : (s.delivered.map (entrySeq d)).map some =
      (s.delivered.map some).map (Option.map (entrySeq d)) := by
    rw [List.map_map, List.map_map]
    rfl
  rw [hleft, h.delivered, List.map_map, List.map_map]
  apply List.map_congr_left
  intro n hn
  obtain ⟨hpos, hle⟩ := h.tallied.range n hn
  obtain ⟨e, he, hnum⟩ := entry_of_number h hpos (hle.trans h.cursor_le)
  rw [Function.comp_apply, Function.comp_apply, he, Option.map_some, entrySeq_log hnum]

theorem once_of_tracked (hd : d.ExactInts) (h : Tracked d s r) :
    (s.delivered.map (entrySeq d)).Nodup := by
  have hrange := h.inRange
  have hcursor := h.cursor_le
  rw [map_entrySeq h]
  refine List.Nodup.map_on (fun m hm n hn heq => ?_) (h.tallied.increasing.imp Nat.ne_of_lt)
  have hmle := (h.tallied.range m hm).2
  have hnle := (h.tallied.range n hn).2
  exact hd.inj (by omega) (by omega) heq

/-- The first entry delivered has the first number delivered. -/
theorem head_number (h : Tracked d s r) {first : Cjson ν} (hfirst : s.delivered.head? = some first) :
    ∃ k, r.delivered.head? = some k ∧ entrySeq d first = d.ofInt (k : Nat) := by
  have hheads := congrArg List.head? (map_entrySeq h)
  rw [List.head?_map, List.head?_map, hfirst, Option.map_some] at hheads
  obtain ⟨k, hk, hseq⟩ := Option.map_eq_some_iff.mp hheads.symm
  exact ⟨k, hk, hseq.symm⟩

/-- The entries missed are those of the numbers missed. -/
theorem missed_eq_image (hd : d.ExactInts) (h : Tracked d s r) {first : Cjson ν} {k : Nat}
    (hk : 0 < k) (hkle : k ≤ r.cursor) (hseq : entrySeq d first = d.ofInt k) :
    missed d s first = (fun n => (s.log[n - 1]?).getD .null) ''
      (((Finset.Icc k r.cursor).filter (· ∉ r.delivered) : Finset Nat) : Set Nat) := by
  have hrange := h.inRange
  have hcursor := h.cursor_le
  have hbetween : ∀ n e, IsLogEntry d n e → n ≤ s.log.length →
      ((d.lt (entrySeq d e) (entrySeq d first) = false ∧ d.lt s.feed.seqRef (entrySeq d e) = false) ↔
        k ≤ n ∧ n ≤ r.cursor) := by
    intro n e hnum hnle
    rw [entrySeq_log hnum, hseq, h.seqRef, hd.lt n k (by omega) (by omega),
      hd.lt r.cursor n (by omega) (by omega), decide_eq_false_iff_not, decide_eq_false_iff_not,
      Nat.not_lt, Nat.not_lt]
  ext e
  simp only [missed, Set.mem_ofPred_eq, Set.mem_image, Finset.mem_coe, Finset.mem_filter,
    Finset.mem_Icc]
  constructor
  · rintro ⟨he, hlow, hhigh, hnot⟩
    obtain ⟨i, hi⟩ := List.mem_iff_getElem?.mp he
    have hlt := (List.getElem?_eq_some_iff.mp hi).1
    have hnum := h.numbering.numbered i e hi
    refine ⟨i + 1, ⟨(hbetween (i + 1) e hnum hlt).mp ⟨hlow, hhigh⟩, fun hin => hnot ?_⟩, ?_⟩
    · exact (mem_delivered_iff hd h hnum hlt hi).mpr hin
    · rw [Nat.add_sub_cancel, hi, Option.getD_some]
  · rintro ⟨n, ⟨⟨hlow, hhigh⟩, hnot⟩, rfl⟩
    obtain ⟨e, he, hnum⟩ := entry_of_number h (by omega) (hhigh.trans hcursor)
    obtain ⟨hfirst, hlast⟩ := (hbetween n e hnum (by omega)).mpr ⟨hlow, hhigh⟩
    rw [he, Option.getD_some]
    exact ⟨List.mem_of_getElem? he, hfirst, hlast,
      fun hin => hnot ((mem_delivered_iff hd h hnum (by omega) he).mp hin)⟩

theorem accounted_of_tracked (hd : d.ExactInts) (h : Tracked d s r) : Accounted d s := by
  refine ⟨once_of_tracked hd h, fun first hfirst => ?_⟩
  have hcursor := h.cursor_le
  obtain ⟨k, hhead, hseq⟩ := head_number h hfirst
  obtain ⟨hk, hkle⟩ := h.tallied.range k (List.mem_of_head? hhead)
  rw [h.dropped, missed_eq_image hd h hk hkle hseq, Set.InjOn.ncard_image, Set.ncard_coe_finset,
    h.tallied.card_missing hhead]
  intro m hm n hn heq
  simp only [Finset.coe_filter, Finset.mem_Icc, Set.mem_ofPred_eq] at hm hn
  obtain ⟨e, he, hmnum⟩ := entry_of_number h (n := m) (by omega) (by omega)
  obtain ⟨o, ho, hnnum⟩ := entry_of_number h (n := n) (by omega) (by omega)
  simp only [he, ho, Option.getD_some] at heq
  subst heq
  exact number_inj hd h hmnum hnnum (by omega) (by omega)

/-- In every state of a run that stays within range and whose gaps are added before the cursor
moves. -/
theorem gaps_accounted (hd : d.ExactInts) (ha : sums.ExactInts d)
    (hr : Reach (step d sums codecs) (Counted d sums) (Starts d) s) : Accounted d s := by
  obtain ⟨r, h⟩ := tracked_of_reach hd ha hr
  exact accounted_of_tracked hd h

/-! ## A gap added late -/

/-- What the feed subtracts is the number of entries it just got. -/
theorem deliver_late (hd : d.ExactInts) (ha : sums.ExactInts d) (h : Tracked d s r)
    (hlt : lo < hi) (hhi : hi ≤ s.log.length) (hgap : 0 < r.cursor ∧ r.cursor < lo) :
    (s.feed.receive d sums ((s.log.take hi).drop lo) false).dropped =
      d.ofInt (r.dropped + (lo - hi) : Int) := by
  have hrange : hi < 2 ^ 31 := Nat.lt_of_le_of_lt hhi h.inRange
  exact receive_dropped_late hd (stretch_log h hlt hhi) hrange (Nat.le_of_lt hgap.2) h.seqRef ha
    h.tallied.dropped_le h.dropped hgap

def intDoubles : Doubles Int :=
  ⟨id, id, fun a b => a < b, fun a b => a = b, fun n => decimal n.toNat⟩

def intSums : Sums Int := ⟨fun a b => a + b, fun a b => a - b⟩

theorem intDoubles_exact : intDoubles.ExactInts where
  toInt _ _ := rfl
  lt m n _ _ := by
    show decide ((m : Int) < n) = decide (m < n)
    rw [decide_eq_decide]
    exact Int.ofNat_lt

theorem intSums_exact : intSums.ExactInts intDoubles where
  add _ _ _ _ := rfl
  sub _ _ _ _ := rfl

abbrev intStep : Desk Int → Event → Option (Desk Int) := step intDoubles intSums noCodecs

def atStart : Desk Int := ⟨.start, [], .start intDoubles, none, []⟩

/-- A connection that is logged. -/
def connected : Event := .traffic (direct (lit "a.b"))

/-- One entry, and a poll that gets it. -/
def afterFirst : Desk Int := (run intStep atStart [connected, .ask, .deliver true]).getD atStart

theorem reach_afterFirst :
    Reach intStep (Counted intDoubles intSums) (Starts intDoubles) afterFirst := by
  have hconnected : Reach intStep (Counted intDoubles intSums) (Starts intDoubles)
      ((run intStep atStart [connected]).getD atStart) :=
    .next (l := connected) (.start rfl) (by show (0 : Nat) + 1 < 2 ^ 31; decide) rfl
  have hasked : Reach intStep (Counted intDoubles intSums) (Starts intDoubles)
      ((run intStep atStart [connected, .ask]).getD atStart) :=
    .next (l := .ask) hconnected trivial rfl
  exact .next (l := .deliver true) hasked (.inl rfl) rfl

/-- Any number of further entries. -/
theorem reach_connected {s : Desk Int} (n : Nat)
    (hr : Reach intStep (Counted intDoubles intSums) (Starts intDoubles) s)
    (hroom : s.log.length + n < 2 ^ 31) :
    ∃ s', Reach intStep (Counted intDoubles intSums) (Starts intDoubles) s' ∧
      s'.log.length = s.log.length + n ∧ s'.feed = s.feed ∧ s'.answer = s.answer ∧
      s'.delivered = s.delivered := by
  induction n with
  | zero => exact ⟨s, hr, rfl, rfl, rfl, rfl⟩
  | succ n ih =>
    obtain ⟨t, ht, hlen, hfeed, hanswer, hdelivered⟩ := ih (by omega)
    obtain ⟨r, h⟩ := tracked_of_reach intDoubles_exact intSums_exact ht
    have hguard : Counted intDoubles intSums t connected := by
      show t.captures.logSeq.toNat + 1 < 2 ^ 31
      rw [h.numbering.seq]
      omega
    refine ⟨_, .next ht hguard rfl, ?_, hfeed, hanswer, hdelivered⟩
    show (t.log ++ [_]).length = _
    rw [List.length_append, List.length_singleton, hlen, Nat.add_assoc]

/-- What the poll after 2001 further entries gets: the first of them is lost. -/
theorem ask_after_gap {s : Desk Int} {r : Reader} (h : Tracked intDoubles s r)
    (hlen : s.log.length = 2002) (hseq : s.feed.seqRef = 1) (hidle : s.feed.paused = false)
    (hanswer : s.answer = none) :
    intStep s .ask = some { s with answer := some ((s.log.take 2002).drop 2) } := by
  have hcursor : r.cursor = 1 := Int.ofNat_inj.mp (h.seqRef.symm.trans hseq)
  have hfetch := fetchLog_eq h.numbering intDoubles_exact h.inRange (c := r.cursor) (by omega)
  have hlost : max r.cursor (s.log.length - pfLogRingSize) = 2 := by
    rw [hcursor, hlen]
    rfl
  rw [hlost, ← h.seqRef] at hfetch
  have hwhole : s.log.take 2002 = s.log := List.take_of_length_le (Nat.le_of_eq hlen)
  rw [intStep, step, if_neg (by simp [hidle, hanswer]), hfetch, hwhole]

/-- One entry is read and 2001 more are logged, so that one is lost; a poll asks for them. -/
theorem reach_gap :
    ∃ (s : Desk Int) (r : Reader),
      Reach intStep (Counted intDoubles intSums) (Starts intDoubles) s ∧ Tracked intDoubles s r ∧
        s.log.length = 2002 ∧ s.delivered.length = 1 ∧ r.cursor = 1 ∧ r.dropped = 0 ∧
        Reach intStep (Counted intDoubles intSums) (Starts intDoubles)
          { s with answer := some ((s.log.take 2002).drop 2) } := by
  have hstart : afterFirst.log.length = 1 ∧ afterFirst.feed.seqRef = 1 ∧
      afterFirst.feed.dropped = 0 ∧ afterFirst.feed.paused = false ∧
      afterFirst.answer.isNone = true ∧ afterFirst.delivered.length = 1 := by decide +kernel
  obtain ⟨hone, hseq, hnone, hidle, hanswer, hdelivered⟩ := hstart
  obtain ⟨s, hr, hlen, hfeed, hsame, hkept⟩ := reach_connected 2001 reach_afterFirst
    (by rw [hone]; decide)
  rw [hone] at hlen
  rw [← hfeed] at hseq hnone hidle
  obtain ⟨r, h⟩ := tracked_of_reach intDoubles_exact intSums_exact hr
  have hask := ask_after_gap h hlen hseq hidle (hsame.trans (Option.isNone_iff_eq_none.mp hanswer))
  have hcursor : r.cursor = 1 := Int.ofNat_inj.mp (h.seqRef.symm.trans hseq)
  have hdropped : r.dropped = 0 := Int.ofNat_inj.mp (h.dropped.symm.trans hnone)
  have hcount : s.delivered.length = 1 := by rw [hkept, hdelivered]
  exact ⟨s, r, hr, h, hlen, hcount, hcursor, hdropped, .next (l := .ask) hr trivial hask⟩

/-- The next poll gets 2000 entries, and the one before them is counted. -/
theorem one_lost_entry_accounted :
    ∃ s : Desk Int, s.log.length = 2002 ∧ s.delivered.length = 2001 ∧ s.feed.dropped = 1 ∧
      Accounted intDoubles s := by
  obtain ⟨s, r, -, h, hlen, hdelivered, hcursor, hdropped, hasked⟩ := reach_gap
  have hreach : Reach intStep (Counted intDoubles intSums) (Starts intDoubles) _ :=
    .next (l := .deliver true) hasked (.inl rfl) rfl
  have haccounted := gaps_accounted intDoubles_exact intSums_exact hreach
  refine ⟨_, ?_, ?_, ?_, haccounted⟩
  · exact hlen
  · show (s.delivered ++ sortBySeq intDoubles _).length = 2001
    rw [List.length_append, hdelivered, sortBySeq, List.length_mergeSort, List.length_drop,
      List.length_take, hlen]
    rfl
  · have hstretch := stretch_log h (show 2 < 2002 by decide) (Nat.le_of_eq hlen.symm)
    have honTime := receive_dropped intDoubles_exact hstretch (by decide) (by omega) h.seqRef
      intSums_exact h.tallied.dropped_le h.dropped (show true = true ∨ _ from .inl rfl)
    rw [hcursor, hdropped] at honTime
    exact honTime

/-- The same poll, its updater called in the next render: the feed says that -2000 were dropped. -/
theorem late_gap_is_negative :
    ∃ s, Reach intStep (fun _ _ => True) (Starts intDoubles) s ∧ s.log.length = 2002 ∧
      s.feed.dropped = -2000 ∧ ¬ Accounted intDoubles s := by
  obtain ⟨s, r, -, h, hlen, hdelivered, hcursor, hdropped, hasked⟩ := reach_gap
  have hreach : Reach intStep (fun _ _ => True) (Starts intDoubles)
      { s with answer := some ((s.log.take 2002).drop 2) } := hasked.mono fun _ _ _ => trivial
  have hlate := deliver_late intDoubles_exact intSums_exact h (show 2 < 2002 by decide)
    (Nat.le_of_eq hlen.symm) ⟨by omega, by omega⟩
  rw [hdropped] at hlate
  refine ⟨_, .next (l := .deliver false) hreach trivial rfl, hlen, hlate, fun hcounted => ?_⟩
  -- the first entry delivered is still that of the first poll
  obtain ⟨first, rest, hfirst⟩ : ∃ first rest, s.delivered = first :: rest :=
    List.exists_cons_of_ne_nil (List.ne_nil_of_length_pos (by rw [hdelivered]; decide))
  have hcount := hcounted.dropped first (by show (s.delivered ++ _).head? = _; rw [hfirst]; rfl)
  rw [hlate] at hcount
  have hneg : (-2000 : Int) = ((missed intDoubles _ first).ncard : Int) := hcount
  omega

end Proxiflare.Guarantees.LogGaps
