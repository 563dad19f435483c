import Proxiflare.Daemon.Monitor
import Mathlib.Data.List.Forall2
import Mathlib.Data.List.ReduceOption

/-!
# The events the monitor sees

Of a datagram the callback is told of the `exec` and `exit` events that carry the kernel's port 0,
in order, and of nothing else, unless a message with that port claims an event that it does not hold.
-/

namespace Proxiflare.Guarantees.ProcessEvents

open Lib.CString Lib.Netlink Lib.Runs
open Proxiflare.Daemon Monitor

variable {o : ByteOrder} {m : Message} {ms : List Message}

/-- What a message is about: nothing for the daemon, unless it is an event with the kernel's port
for a process. -/
inductive Reports (o : ByteOrder) (m : Message) : Option Notice → Prop where
  | control (h : m.type.toNat = nlmsgNoop ∨ m.type.toNat = nlmsgError) : Reports o m none
  | user (h : m.pid ≠ 0) : Reports o m none
  | short (h : m.payload.length < 20) : Reports o m none
  | connector (c : Connector) (hpayload : m.payload = c.bytes o)
      (h : c.idx.toNat ≠ cnIdxProc ∨ c.val.toNat ≠ cnValProc ∨ c.len.toNat < 40) : Reports o m none
  | event (c : Connector) (e : ProcEvent) (more : CStr)
      (htype : m.type.toNat ≠ nlmsgNoop ∧ m.type.toNat ≠ nlmsgError) (hpid : m.pid = 0)
      (hpayload : m.payload = c.bytes o) (hidx : c.idx.toNat = cnIdxProc)
      (hval : c.val.toNat = cnValProc) (hlen : 40 ≤ c.len.toNat) (hdata : c.data = e.bytes o ++ more) :
      Reports o m
        (if (e.what.toNat = procEventExec ∨ e.what.toNat = procEventExit) ∧
            0 < pidT e.pid.toNat then
          some ⟨pidT e.pid.toNat, e.what.toNat = procEventExec⟩ else none)

section Fields

variable {c : Connector} {e : ProcEvent} {more rest : CStr}

theorem field_idx (hpayload : m.payload = c.bytes o) :
    o.field 4 16 (m.bytes o ++ rest) = some c.idx.toNat := by
  have h := m.field_payload (o := o) rest 4 0
  rw [hpayload] at h
  exact h.trans Connector.field_idx

theorem field_val (hpayload : m.payload = c.bytes o) :
    o.field 4 20 (m.bytes o ++ rest) = some c.val.toNat := by
  have h := m.field_payload (o := o) rest 4 4
  rw [hpayload] at h
  exact h.trans Connector.field_val

theorem field_len (hpayload : m.payload = c.bytes o) :
    o.field 2 32 (m.bytes o ++ rest) = some c.len.toNat := by
  have h := m.field_payload (o := o) rest 2 16
  rw [hpayload] at h
  exact h.trans Connector.field_len

theorem field_what (hpayload : m.payload = c.bytes o) (hdata : c.data = e.bytes o ++ more) :
    o.field 4 36 (m.bytes o ++ rest) = some e.what.toNat := by
  have h := m.field_payload (o := o) rest 4 20
  have hc := c.field_data (o := o) (padding m.size ++ rest) 4 0
  rw [hdata, List.append_assoc] at hc
  rw [hpayload] at h
  exact h.trans (hc.trans ProcEvent.field_what)

theorem field_process (hpayload : m.payload = c.bytes o) (hdata : c.data = e.bytes o ++ more) :
    o.field 4 52 (m.bytes o ++ rest) = some e.pid.toNat := by
  have h := m.field_payload (o := o) rest 4 36
  have hc := c.field_data (o := o) (padding m.size ++ rest) 4 16
  rw [hdata, List.append_assoc] at hc
  rw [hpayload] at h
  exact h.trans (hc.trans ProcEvent.field_pid)

end Fields

theorem processMessage_reports {n : Option Notice} (h : Reports o m n) (rest : CStr) :
    processMessage o (m.bytes o ++ rest) m.size = some n := by
  have htype := m.field_type (o := o) rest
  have hpid := m.field_pid (o := o) rest
  have hpayloadSize : m.size - 16 = m.payload.length := Nat.add_sub_cancel_left 16 m.payload.length
  unfold processMessage
  rw [htype, hpid, hpayloadSize]
  simp only [Option.bind_eq_bind, Option.bind_some]
  by_cases hcontrol : (decide (m.type.toNat = nlmsgError) || decide (m.type.toNat = nlmsgNoop)) = true
  · rw [if_pos hcontrol]
    cases h with
    | event c e more htype => simp [htype] at hcontrol
    | control h => rfl
    | user h => rfl
    | short h => rfl
    | connector c hpayload h => rfl
  rw [if_neg hcontrol]
  by_cases huser : m.pid.toNat ≠ 0
  · rw [if_pos huser]
    cases h with
    | event c e more htype hpid =>
      rw [hpid] at huser
      exact absurd rfl huser
    | control h => rfl
    | user h => rfl
    | short h => rfl
    | connector c hpayload h => rfl
  rw [if_neg huser]
  cases h with
  | control h => exact absurd (by simpa [or_comm] using h) hcontrol
  | user h => exact absurd (fun h0 => h (UInt32.toNat_inj.mp h0)) huser
  | short h => exact if_pos h
  | connector c hpayload h =>
    have hlong : ¬ m.payload.length < 20 := by
      rw [hpayload, Connector.length_bytes]
      omega
    rw [if_neg hlong, field_idx hpayload, field_val hpayload, field_len hpayload, Option.bind_some]
    by_cases hidx : c.idx.toNat ≠ cnIdxProc
    · rw [if_pos hidx]
      rfl
    rw [if_neg hidx, Option.bind_some]
    by_cases hval : c.val.toNat ≠ cnValProc
    · rw [if_pos hval]
      rfl
    rw [if_neg hval, Option.bind_some, if_pos ((h.resolve_left hidx).resolve_left hval)]
    rfl
  | event c e more htype hpid hpayload hidx hval hlen hdata =>
    have hlong : ¬ m.payload.length < 20 := by
      rw [hpayload, Connector.length_bytes]
      omega
    have hwhat : o.field 4 36 (m.bytes o ++ rest) = some e.what.toNat := field_what hpayload hdata
    rw [field_idx hpayload, field_val hpayload, field_len hpayload,
      if_neg hlong, Option.bind_some, if_neg (not_not.mpr hidx), Option.bind_some,
      if_neg (not_not.mpr hval), Option.bind_some, if_neg (Nat.not_lt.mpr hlen), hwhat, Option.bind_some]
    by_cases hkind : e.what.toNat = procEventExec ∨ e.what.toNat = procEventExit
    · have hkind' : (decide (e.what.toNat = procEventExec) || decide (e.what.toNat = procEventExit)) = true := by
        simpa using hkind
      rw [if_pos hkind', field_process hpayload hdata, Option.bind_some]
      by_cases hpos : 0 < pidT e.pid.toNat
      · rw [if_neg (Int.not_le.mpr hpos), if_pos ⟨hkind, hpos⟩]
        rfl
      · rw [if_pos (Int.not_lt.mp hpos), if_neg fun h => hpos h.2]
        rfl
    · have hkind' : ¬ (decide (e.what.toNat = procEventExec) || decide (e.what.toNat = procEventExit)) = true := by
        simpa using hkind
      rw [if_neg hkind', if_neg fun h => hkind h.1]
      rfl

/-- A message is about one thing. -/
theorem Reports.unique {n n' : Option Notice} (h : Reports o m n) (h' : Reports o m n') : n = n' :=
  Option.some.inj ((processMessage_reports h []).symm.trans (processMessage_reports h' []))

/-! ## Datagrams -/

variable {room turns : Nat} {notices : List (Option Notice)}

variable {rs : Ruleset} {listing : Processes → List CStr} {s s' : Watched} {pid : Nat} {p : Process}
  {n : Option Notice}

/-- A process is in the cgroup of the rule its executable settles on. -/
def Placed (rs : Ruleset) (p : Process) : Prop :=
  ∀ id, onProcessExec rs p.exe.chars = some id → 0 < id → p.rule = some id

/-- A message as the daemon receives it: one that reports an event is not cut off. -/
structure Delivers (o : ByteOrder) (m : Message) (n : Option Notice) : Prop where
  reports : Reports o m n
  whole : n.isSome = true → align m.size ≤ 4096

/-- The monitor has just been opened, among any processes. -/
def Watched.Opened (s : Watched) : Prop := s.queue = [] ∧ ∀ pid, s.execed pid = false

/-- The last of the notices of a process that are still queued is an `exec`. -/
def EndsWithExec (pid : Nat) (ns : List (Option Notice)) : Prop :=
  ∃ pre post, ns = pre ++ some ⟨pid, true⟩ :: post ∧ some ⟨pid, false⟩ ∉ post

/-- A process that ran a program has an `exec` queued as its last event, or is placed and no
queued event takes it away. -/
def Tracked (rs : Ruleset) (ns : List (Option Notice)) (pid : Nat) (p : Process) : Prop :=
  EndsWithExec pid ns ∨ Placed rs p ∧ some ⟨pid, false⟩ ∉ ns

/-- An event that is not an exit of the process leaves it tracked. -/
theorem Tracked.append {ns : List (Option Notice)} (h : Tracked rs ns pid p)
    (hne : n ≠ some ⟨pid, false⟩) : Tracked rs (ns ++ [n]) pid p := by
  rcases h with hexec | hplaced
  · obtain ⟨pre, post, rfl, hpost⟩ := hexec
    exact .inl ⟨pre, post ++ [n], by simp, by simp [hpost, hne.symm]⟩
  · exact .inr ⟨hplaced.1, by simp [hplaced.2, hne.symm]⟩

/-- With the head taken, an `exec` is still queued, or the head was no exit and no exit follows. -/
theorem Tracked.tail {ns : List (Option Notice)} (h : Tracked rs (n :: ns) pid p) :
    EndsWithExec pid ns ∨
      some ⟨pid, false⟩ ∉ n :: ns ∧ (n = some ⟨pid, true⟩ ∨ Placed rs p) := by
  rcases h with ⟨pre, post, heq, hpost⟩ | hplaced
  · cases pre with
    | nil =>
      obtain ⟨rfl, rfl⟩ := List.cons.inj heq
      exact .inr ⟨by simp [hpost], .inl rfl⟩
    | cons a pre =>
      obtain ⟨-, rfl⟩ := List.cons.inj heq
      exact .inl ⟨pre, post, rfl, hpost⟩
  · exact .inr ⟨hplaced.2, .inr hplaced.1⟩

def blockCurl : Rule :=
  { Rule.zero with id := 4, appPath := .snprintf (lit "curl"), action := .block, enabled := 1 }

def curl : CBuf pfPathMax := .snprintf (lit "/usr/bin/curl")

end Proxiflare.Guarantees.ProcessEvents
