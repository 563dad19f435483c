import Proxiflare.Daemon.Captures
import Proxiflare.Lib.DropOldest

/-!
# What the rings hold

A ring that `push` fills holds the newest entries in order, and each entry of the
capture ring carries the number of messages kept up to it. Numbers are compared as
doubles and the cursor of a request is cast to `int`, so all of this is about numbers
that fit one.
-/

namespace Proxiflare.Daemon

open Lib.CString Lib.DropOldest

variable {α : Type} {size : Nat} {r : EntryRing α} {xs es : List α} {e : α}

/-- The walk over the ring passes `xs`. -/
structure EntryRing.Holds (size : Nat) (r : EntryRing α) (xs : List α) : Prop where
  pos : 0 < size
  count : r.count = xs.length
  fits : xs.length ≤ size
  head : r.head < size
  window : Window size r.slots (r.head + size - r.count) xs

namespace EntryRing.Holds

theorem empty (hpos : 0 < size) : (EntryRing.empty : EntryRing α).Holds size [] :=
  ⟨hpos, rfl, Nat.zero_le _, hpos, Window.nil⟩

/-- The start of the walk moves on by as many slots as it loses. -/
theorem start_mod {head count dropped : Nat} (hhead : head < size) (hcount : count ≤ size)
    (hle : count + 1 - dropped ≤ size) (hd : dropped ≤ count) :
    ((head + 1) % size + size - (count + 1 - dropped)) % size =
      (head + size - count + dropped) % size := by
  by_cases hwrap : head + 1 < size
  · rw [Nat.mod_eq_of_lt hwrap]
    congr 1
    omega
  · obtain rfl : size = head + 1 := by omega
    rw [Nat.mod_self]
    have hshift : head + (head + 1) - count + dropped =
        0 + (head + 1) - (count + 1 - dropped) + (head + 1) := by omega
    rw [hshift, Nat.add_mod_right]

theorem push_room (h : r.Holds size xs) (hroom : xs.length < size) (e : α) :
    (r.push size e).Holds size (xs ++ [e]) := by
  have hcount : (r.push size e).count = xs.length + 1 := by
    unfold EntryRing.push
    rw [h.count, if_pos hroom]
  have hat : (r.head + size - r.count + xs.length) % size = r.head := by
    rw [h.count, Nat.sub_add_cancel (by omega), Nat.add_mod_right, Nat.mod_eq_of_lt h.head]
  have hwin := Window.push (x := e) hroom h.window
  rw [hat] at hwin
  refine ⟨h.pos, by simp [hcount], by simp; omega, Nat.mod_lt _ h.pos, ?_⟩
  refine hwin.congr ?_
  rw [hcount, h.count]
  exact start_mod h.head h.fits hroom (Nat.zero_le _)

theorem push_full {x : α} (h : r.Holds size (x :: xs)) (hfull : xs.length + 1 = size) (e : α) :
    (r.push size e).Holds size (xs ++ [e]) := by
  have hlen : r.count = size := h.count.trans (by rw [List.length_cons, hfull])
  have hcount : (r.push size e).count = size := by
    unfold EntryRing.push
    rw [hlen, if_neg (Nat.lt_irrefl size)]
  have hat : (r.head + size - r.count + 1 + xs.length) % size = r.head := by
    rw [hlen, Nat.add_sub_cancel, Nat.add_assoc, Nat.add_comm 1, hfull, Nat.add_mod_right,
      Nat.mod_eq_of_lt h.head]
  have hwin := Window.push (x := e) (by omega) h.window.tail
  rw [hat] at hwin
  refine ⟨h.pos, by simp [hcount, hfull], by simp [hfull], Nat.mod_lt _ h.pos, ?_⟩
  refine hwin.congr ?_
  rw [hcount, hlen]
  exact start_mod h.head (Nat.le_refl _) (by omega) h.pos

/-- A push drops the oldest entry of a full ring. -/
theorem push (h : r.Holds size xs) (e : α) :
    (r.push size e).Holds size ((xs ++ [e]).drop (xs.length + 1 - size)) := by
  by_cases hroom : xs.length < size
  · rw [show xs.length + 1 - size = 0 by omega, List.drop_zero]
    exact h.push_room hroom e
  · have hfits := h.fits
    have hpos := h.pos
    cases xs with
    | nil => exact absurd hpos hroom
    | cons x rest =>
      rw [List.length_cons] at hroom hfits ⊢
      rw [show rest.length + 1 + 1 - size = 1 by omega]
      exact h.push_full (by omega) e

/-- After each of a list of pushes the newest `size` of them. -/
theorem history (h : r.Holds size (es.drop (es.length - size))) (e : α) :
    (r.push size e).Holds size ((es ++ [e]).drop ((es ++ [e]).length - size)) := by
  have hpush := h.push e
  rw [← List.drop_append_of_le_length (by omega), List.drop_drop, List.length_drop] at hpush
  rw [List.length_append, List.length_singleton]
  rwa [show es.length - size + (es.length - (es.length - size) + 1 - size) =
    es.length + 1 - size by omega] at hpush

theorem oldestFirst (h : r.Holds size xs) : r.oldestFirst size = xs := by
  have hentry : ∀ i ∈ List.range r.count, r.entry size i = xs[i]? := by
    intro i hi
    have hlt : i < xs.length := h.count ▸ List.mem_range.mp hi
    rw [List.getElem?_eq_getElem hlt]
    exact h.window i hlt
  unfold EntryRing.oldestFirst
  rw [List.filterMap_congr hentry, h.count]
  have hsome : (List.range xs.length).map (fun i => xs[i]?) = xs.map some := by
    apply List.ext_getElem?
    intro i
    rw [List.getElem?_map, List.getElem?_map]
    by_cases hi : i < xs.length
    · rw [List.getElem?_range hi, List.getElem?_eq_getElem hi]
      simp [hi]
    · rw [List.getElem?_eq_none (by simpa using hi), List.getElem?_eq_none (by omega)]
      rfl
  calc (List.range xs.length).filterMap (fun i => xs[i]?)
      = ((List.range xs.length).map fun i => xs[i]?).filterMap id := by
        rw [List.filterMap_map]
        rfl
    _ = xs := by
        rw [hsome, List.filterMap_map]
        exact List.filterMap_some

end EntryRing.Holds

/-! ## The numbers of captured messages -/

variable {ν : Type} {d : Doubles ν} {codecs : Codecs} {s : Captures ν} {entries : List (Cjson ν)}

/-- `(double)` of a small integer keeps its value and its order, and `(int)` gives it back. -/
structure Doubles.ExactInts (d : Doubles ν) : Prop where
  toInt : ∀ n : Nat, n < 2 ^ 31 → d.toInt (d.ofInt n) = n
  lt : ∀ m n : Nat, m < 2 ^ 31 → n < 2 ^ 31 → d.lt (d.ofInt m) (d.ofInt n) = decide (m < n)

theorem Doubles.ExactInts.inj (hd : d.ExactInts) {m n : Nat} (hm : m < 2 ^ 31) (hn : n < 2 ^ 31)
    (h : d.ofInt m = d.ofInt n) : m = n := by
  have hlt := hd.lt m n hm hn
  have hgt := hd.lt n m hn hm
  have hself := hd.lt n n hn hn
  rw [h, hself] at hlt hgt
  simp only [Nat.lt_irrefl, decide_false, Bool.false_eq, decide_eq_false_iff_not] at hlt hgt
  omega

/-- `entry` is the `n`-th message since the start. -/
def Numbered (d : Doubles ν) (n : Nat) (entry : Cjson ν) : Prop :=
  entry.getItemAnyCase (lit "seq") = some (.num (d.ofInt n))

/-- The messages kept since the start; the ring holds the newest of them. -/
structure Captures.Numbering (d : Doubles ν) (s : Captures ν) (entries : List (Cjson ν)) : Prop where
  seq : s.inspectSeq.toNat = entries.length
  ring : s.inspectRing.Holds pfInspectRingSize
    (entries.drop (entries.length - pfInspectRingSize))
  numbered : ∀ (i : Nat) (e : Cjson ν), entries[i]? = some e → Numbered d (i + 1) e

theorem numbered_captureEntry (m : CaptureMsg) (msg : HttpMsg) (seq : UInt64) :
    Numbered d seq.toNat (captureEntry d codecs m msg seq) := by
  have hkey : strcaseeq (cstr (lit "seq")) (lit "seq") = true := by decide
  unfold Numbered captureEntry Cjson.getItemAnyCase
  simp only [List.cons_append, List.find?_cons_of_pos, hkey, Option.map_some]

theorem skip_keeps (s : Captures ν) (m : CaptureMsg) :
    (s.skip m).inspectSeq = s.inspectSeq ∧ (s.skip m).inspectRing = s.inspectRing := by
  unfold Captures.skip
  by_cases hh2 : (m.isRequest && h2Preface.isPrefixOf m.data) = true
  · rw [if_pos hh2]
    exact ⟨rfl, rfl⟩
  · rw [if_neg hh2]
    by_cases hfail : (m.isRequest || (pfHttpParseResponse m.data).isNone) = true
    · rw [if_pos hfail]
      exact ⟨rfl, rfl⟩
    · rw [if_neg hfail]
      exact ⟨rfl, rfl⟩

/-- The entry that a piece of traffic adds to the ring. -/
def Captures.captured (d : Doubles ν) (codecs : Codecs) (s : Captures ν) : Traffic → List (Cjson ν)
  | .connection .. => []
  | .chunk conn data isRequest now =>
    match onInspectData data isRequest conn now with
    | none => []
    | some m => match keptMessage m with
      | none => []
      | some msg => [captureEntry d codecs m msg (s.inspectSeq + 1)]

/-- A message is kept with the next number, or the ring stays as it is. -/
theorem captureStep_cases (d : Doubles ν) (codecs : Codecs) (s : Captures ν) (t : Traffic) :
    (s.captured d codecs t = [] ∧ (s.step d codecs t).inspectSeq = s.inspectSeq ∧
      (s.step d codecs t).inspectRing = s.inspectRing) ∨
    ∃ e, s.captured d codecs t = [e] ∧ Numbered d (s.inspectSeq + 1).toNat e ∧
      (s.step d codecs t).inspectSeq = s.inspectSeq + 1 ∧
      (s.step d codecs t).inspectRing = s.inspectRing.push pfInspectRingSize e := by
  cases t with
  | connection ctx dst peek fd ts =>
    simp only [Captures.step, Captures.captured]
    cases connectEvent ctx dst.1 dst.2.toNat (peekDomain peek) fd with
    | none => exact .inl ⟨trivial, rfl, rfl⟩
    | some e => exact .inl ⟨trivial, rfl, rfl⟩
  | chunk conn data isRequest now =>
    simp only [Captures.step, Captures.captured]
    cases onInspectData data isRequest conn now with
    | none => exact .inl ⟨rfl, rfl, rfl⟩
    | some m =>
      simp only [captureProcessMsg]
      cases keptMessage m with
      | some msg => exact .inr ⟨_, rfl, numbered_captureEntry m msg _, rfl, rfl⟩
      | none => exact .inl ⟨rfl, skip_keeps s m⟩

theorem Captures.Numbering.start : (Captures.start : Captures ν).Numbering d [] where
  seq := rfl
  ring := by
    rw [List.drop_nil]
    exact EntryRing.Holds.empty (Nat.succ_pos _)
  numbered i e h := by cases h

/-- As long as the counter does not wrap the numbers go on. -/
theorem Captures.Numbering.step_captured (h : s.Numbering d entries)
    (hroom : entries.length + 1 < 2 ^ 64) (codecs : Codecs) (t : Traffic) :
    (s.step d codecs t).Numbering d (entries ++ s.captured d codecs t) := by
  rcases captureStep_cases d codecs s t with ⟨hnone, hseq, hring⟩ | ⟨e, hone, he, hseq, hring⟩
  · rw [hnone, List.append_nil]
    exact ⟨hseq ▸ h.seq, hring ▸ h.ring, h.numbered⟩
  · have hnext : (s.inspectSeq + 1).toNat = entries.length + 1 := by
      rw [UInt64.toNat_add, h.seq]
      exact Nat.mod_eq_of_lt hroom
    rw [hone]
    refine ⟨?_, ?_, fun i o hi => ?_⟩
    · rw [hseq, hnext, List.length_append, List.length_singleton]
    · rw [hring]
      exact h.ring.history e
    · by_cases hold : i < entries.length
      · rw [List.getElem?_append_left hold] at hi
        exact h.numbered i o hi
      · have hlt := (List.getElem?_eq_some_iff.mp hi).1
        rw [List.length_append, List.length_singleton] at hlt
        obtain rfl : i = entries.length := by omega
        rw [List.getElem?_append_right (Nat.le_refl _), Nat.sub_self] at hi
        obtain rfl := Option.some.inj hi
        rwa [hnext] at he

theorem captured_length (d : Doubles ν) (codecs : Codecs) (s : Captures ν) (t : Traffic) :
    (s.captured d codecs t).length ≤ 1 := by
  rcases captureStep_cases d codecs s t with ⟨hnone, -⟩ | ⟨e, hone, -⟩
  · rw [hnone]
    exact Nat.zero_le 1
  · rw [hone]
    exact Nat.le_refl 1

theorem Captures.Numbering.step (h : s.Numbering d entries) (hroom : entries.length + 1 < 2 ^ 64)
    (codecs : Codecs) (t : Traffic) :
    ∃ new, (s.step d codecs t).Numbering d (entries ++ new) ∧ new.length ≤ 1 :=
  ⟨_, h.step_captured hroom codecs t, captured_length d codecs s t⟩

/-- The entries a run adds to the ring. -/
def Captures.capturedBy (d : Doubles ν) (codecs : Codecs) : Captures ν → List Traffic → List (Cjson ν)
  | _, [] => []
  | s, t :: ts => s.captured d codecs t ++ capturedBy d codecs (s.step d codecs t) ts

theorem Captures.Numbering.run (h : s.Numbering d entries) {traffic : List Traffic}
    (hroom : (entries ++ s.capturedBy d codecs traffic).length < 2 ^ 64) :
    (traffic.foldl (Captures.step d codecs) s).Numbering d
      (entries ++ s.capturedBy d codecs traffic) := by
  induction traffic generalizing s entries with
  | nil =>
    rw [Captures.capturedBy, List.append_nil]
    exact h
  | cons t ts ih =>
    rw [Captures.capturedBy, ← List.append_assoc] at hroom ⊢
    rw [List.foldl_cons]
    refine ih ?_ hroom
    rcases captureStep_cases d codecs s t with ⟨hnone, hseq, hring⟩ | ⟨e, hone, -⟩
    · rw [hnone, List.append_nil]
      exact ⟨hseq ▸ h.seq, hring ▸ h.ring, h.numbered⟩
    · apply h.step_captured
      rw [hone, List.length_append, List.length_append, List.length_singleton] at hroom
      omega

/-! ## Numbers against a cursor -/

/-- Rounding keeps the order and an `int` is exact, so the double of a counter is above that of an
`int` exactly if the counter is above it. -/
def Doubles.OrdersInts (d : Doubles ν) : Prop :=
  ∀ (c : Int) (n : Nat), -2 ^ 31 ≤ c → c < 2 ^ 31 → n < 2 ^ 64 →
    d.lt (d.ofInt c) (d.ofInt n) = decide (c < n)

theorem newer_of_numbered (hd : d.OrdersInts) {c : Int} {n : Nat} {e : Cjson ν}
    (hc : -2 ^ 31 ≤ c ∧ c < 2 ^ 31) (hn : n + 1 < 2 ^ 64) (he : Numbered d (n + 1) e) :
    newer d c e = decide (c.toNat < n + 1) := by
  unfold newer
  rw [he]
  show d.lt (d.ofInt c) (d.ofInt (n + 1 : Nat)) = _
  rw [hd c (n + 1) hc.1 hc.2 hn, decide_eq_decide]
  omega

end Proxiflare.Daemon
