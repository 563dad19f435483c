import Proxiflare.Daemon.CaptureRing

/-!
# What the log ring holds

The log ring holds the newest 2000 entries in order. Each carries its number since the start, the
last of its members.
-/

namespace Proxiflare.Daemon

open Lib.CString

variable {ν : Type} (d : Doubles ν)

/-- The `n`-th entry since the start. -/
def IsLogEntry (n : Nat) (entry : Cjson ν) : Prop :=
  ∃ (e : LogEvent) (ts : Int) (dstIp : CBuf 16) (dstPort : Int),
    entry = .obj (e.members d ts dstIp dstPort ++ [(lit "seq", .num (d.ofInt n))])

/-- The entry that a piece of traffic adds to the log. -/
def Captures.logged (s : Captures ν) : Traffic → List (Cjson ν)
  | .connection ctx dst peek fd ts =>
    match connectEvent ctx dst.1 dst.2.toNat (peekDomain peek) fd with
    | none => []
    | some e => [.obj (e.members d ts dst.1 dst.2.toNat ++
        [(lit "seq", .num (d.ofInt (s.logSeq + 1).toNat))])]
  | .chunk .. => []

/-- The entries a run adds to the log. -/
def Captures.loggedBy (codecs : Codecs) : Captures ν → List Traffic → List (Cjson ν)
  | _, [] => []
  | s, t :: ts => s.logged d t ++ loggedBy codecs (s.step d codecs t) ts

/-- The entries logged since the start; the ring holds the newest of them. -/
structure Captures.LogNumbering (s : Captures ν) (log : List (Cjson ν)) : Prop where
  seq : s.logSeq.toNat = log.length
  ring : s.logRing.Holds pfLogRingSize (log.drop (log.length - pfLogRingSize))
  numbered : ∀ (i : Nat) (e : Cjson ν), log[i]? = some e → IsLogEntry d (i + 1) e

variable {d} {codecs : Codecs} {s : Captures ν} {log : List (Cjson ν)} {n : Nat} {entry : Cjson ν}

/-- No member before it has this name, in any case. -/
theorem IsLogEntry.numbered (h : IsLogEntry d n entry) : Numbered d n entry := by
  obtain ⟨e, ts, dstIp, dstPort, rfl⟩ := h
  have hkeys : ((e.members d ts dstIp dstPort).find? fun m => strcaseeq (cstr m.1) (lit "seq")) =
      none := by
    rw [List.find?_eq_none]
    have hall : ∀ key ∈ (e.members d ts dstIp dstPort).map Prod.fst,
        strcaseeq (cstr key) (lit "seq") = false := by
      simp only [LogEvent.members, List.map_cons, List.map_nil, List.forall_mem_cons]
      decide
    intro m hm
    rw [hall m.1 (List.mem_map_of_mem hm)]
    exact Bool.false_ne_true
  have hseq : strcaseeq (cstr (lit "seq")) (lit "seq") = true := by decide
  unfold Numbered Cjson.getItemAnyCase
  simp only [List.find?_append, hkeys, Option.none_or, List.find?_cons_of_pos, hseq, Option.map_some]

/-- A connection that is logged pushes its entry; other traffic leaves the log alone. -/
theorem captureStep_log (d : Doubles ν) (codecs : Codecs) (s : Captures ν) (t : Traffic) :
    (s.logged d t = [] ∧ (s.step d codecs t).logSeq = s.logSeq ∧
      (s.step d codecs t).logRing = s.logRing) ∨
    ∃ e, s.logged d t = [e] ∧ IsLogEntry d (s.logSeq + 1).toNat e ∧
      (s.step d codecs t).logSeq = s.logSeq + 1 ∧
      (s.step d codecs t).logRing = s.logRing.push pfLogRingSize e := by
  cases t with
  | connection ctx dst peek fd ts =>
    simp only [Captures.step, Captures.logged]
    cases connectEvent ctx dst.1 dst.2.toNat (peekDomain peek) fd with
    | none => exact .inl ⟨rfl, rfl, rfl⟩
    | some e => exact .inr ⟨_, rfl, ⟨e, ts, dst.1, dst.2.toNat, rfl⟩, rfl, rfl⟩
  | chunk conn data isRequest now =>
    refine .inl ⟨rfl, ?_⟩
    simp only [Captures.step]
    cases onInspectData data isRequest conn now with
    | none => exact ⟨rfl, rfl⟩
    | some m =>
      simp only [captureProcessMsg, Captures.skip]
      split
      · split_ifs <;> exact ⟨rfl, rfl⟩
      · exact ⟨rfl, rfl⟩

/-- A test that an entry passes by its position alone. -/
theorem filter_drop_of_position {α : Type} {xs : List α} {p : α → Bool} {c : Nat}
    (hp : ∀ (i : Nat) (x : α), xs[i]? = some x → p x = decide (c < i + 1)) (k : Nat) :
    (xs.drop k).filter p = xs.drop (max c k) := by
  have hsplit : (xs.drop k).take (max c k - k) ++ xs.drop (max c k) = xs.drop k := by
    have hrest : (xs.drop k).drop (max c k - k) = xs.drop (max c k) := by
      rw [List.drop_drop]
      congr 1
      omega
    rw [← hrest, List.take_append_drop]
  have hbefore : ((xs.drop k).take (max c k - k)).filter p = [] := by
    rw [List.filter_eq_nil_iff]
    intro x hx
    obtain ⟨i, hi⟩ := List.mem_iff_getElem?.mp hx
    have hlt : i < max c k - k := by
      have hlen := (List.getElem?_eq_some_iff.mp hi).1
      rw [List.length_take] at hlen
      omega
    rw [List.getElem?_take_of_lt hlt, List.getElem?_drop] at hi
    rw [hp (k + i) x hi, decide_eq_true_eq]
    omega
  have hafter : (xs.drop (max c k)).filter p = xs.drop (max c k) := by
    rw [List.filter_eq_self]
    intro x hx
    obtain ⟨i, hi⟩ := List.mem_iff_getElem?.mp hx
    rw [List.getElem?_drop] at hi
    rw [hp (max c k + i) x hi, decide_eq_true_eq]
    omega
  rw [← hsplit, List.filter_append, hbefore, List.nil_append, hafter]

namespace Captures.LogNumbering

theorem start : (Captures.start : Captures ν).LogNumbering d [] where
  seq := rfl
  ring := by
    rw [List.drop_nil]
    exact EntryRing.Holds.empty (Nat.succ_pos _)
  numbered i e h := by cases h

/-- As long as the counter does not wrap the numbers go on. -/
theorem step (h : s.LogNumbering d log) (hroom : log.length + 1 < 2 ^ 64) (codecs : Codecs)
    (t : Traffic) : (s.step d codecs t).LogNumbering d (log ++ s.logged d t) := by
  rcases captureStep_log d codecs s t with ⟨hnone, hseq, hring⟩ | ⟨e, hone, he, hseq, hring⟩
  · rw [hnone, List.append_nil]
    exact ⟨hseq ▸ h.seq, hring ▸ h.ring, h.numbered⟩
  · have hnext : (s.logSeq + 1).toNat = log.length + 1 := by
      rw [UInt64.toNat_add, h.seq]
      exact Nat.mod_eq_of_lt hroom
    rw [hone]
    refine ⟨?_, ?_, fun i o hi => ?_⟩
    · rw [hseq, hnext, List.length_append, List.length_singleton]
    · rw [hring]
      exact h.ring.history e
    · by_cases hold : i < log.length
      · rw [List.getElem?_append_left hold] at hi
        exact h.numbered i o hi
      · have hlt := (List.getElem?_eq_some_iff.mp hi).1
        rw [List.length_append, List.length_singleton] at hlt
        obtain rfl : i = log.length := by omega
        rw [List.getElem?_append_right (Nat.le_refl _), Nat.sub_self] at hi
        obtain rfl := Option.some.inj hi
        rwa [hnext] at he

/-- A run that does not wrap the counter. -/
theorem run (h : s.LogNumbering d log) {traffic : List Traffic}
    (hroom : (log ++ s.loggedBy d codecs traffic).length < 2 ^ 64) :
    (traffic.foldl (Captures.step d codecs) s).LogNumbering d (log ++ s.loggedBy d codecs traffic) := by
  induction traffic generalizing s log with
  | nil =>
    rw [Captures.loggedBy, List.append_nil]
    exact h
  | cons t ts ih =>
    rw [Captures.loggedBy, ← List.append_assoc] at hroom ⊢
    rw [List.foldl_cons]
    refine ih ?_ hroom
    rcases captureStep_log d codecs s t with ⟨hnone, hseq, hring⟩ | ⟨e, hone, -⟩
    · rw [hnone, List.append_nil]
      exact ⟨hseq ▸ h.seq, hring ▸ h.ring, h.numbered⟩
    · apply h.step
      rw [hone, List.length_append, List.length_append, List.length_singleton] at hroom
      omega

/-- `log.recent` finds the entries after the cursor that the ring still holds. -/
theorem filter_newer (h : s.LogNumbering d log) (hd : d.ExactInts) (hlen : log.length < 2 ^ 31)
    {c : Nat} (hc : c < 2 ^ 31) :
    (s.logRing.oldestFirst pfLogRingSize).filter (newer d c) =
      log.drop (max c (log.length - pfLogRingSize)) := by
  have hnewer : ∀ (i : Nat) (e : Cjson ν), log[i]? = some e → newer d c e = decide (c < i + 1) := by
    intro i e hi
    have hlt := (List.getElem?_eq_some_iff.mp hi).1
    unfold newer
    rw [(h.numbered i e hi).numbered]
    exact hd.lt c (i + 1) hc (by omega)
  rw [h.ring.oldestFirst]
  exact filter_drop_of_position hnewer _

end Captures.LogNumbering

end Proxiflare.Daemon
