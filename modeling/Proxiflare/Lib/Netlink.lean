import Mathlib.Data.Nat.Basic
import Mathlib.Tactic.Ring

/-!
# Netlink datagrams

A datagram is a row of messages, each with a header of 16 bytes that gives its length, and each
padded to four bytes. Numbers are in the order of the host. A message of the connector has a header
of its own, with the index and value of who sent it; the process connector reports events.
-/

namespace Lib.Netlink

structure ByteOrder where
  write : Nat → Nat → List UInt8
  read : List UInt8 → Nat
  length_write : ∀ k n, (write k n).length = k
  read_write : ∀ {k n}, n < 256 ^ k → read (write k n) = n
  read_lt : ∀ b, read b < 256 ^ b.length
  write_read : ∀ b, write b.length (read b) = b

namespace ByteOrder

variable (o : ByteOrder) {k l off n m : Nat} {b pre : List UInt8}

/-- The number of `k` bytes at an offset. -/
def field (k off : Nat) (b : List UInt8) : Option Nat :=
  if off + k ≤ b.length then some (o.read ((b.drop off).take k)) else none

theorem field_zero (h : n < 256 ^ k) : o.field k 0 (o.write k n ++ b) = some n := by
  have hlen := o.length_write k n
  rw [ByteOrder.field, if_pos (by simp [hlen]), List.drop_zero, List.take_left' hlen, o.read_write h]

theorem field_append (h : pre.length = l) : o.field k (l + off) (pre ++ b) = o.field k off b := by
  subst h
  rw [ByteOrder.field, ByteOrder.field, List.length_append, List.drop_append, List.drop_eq_nil_of_le (by omega),
    Nat.add_sub_cancel_left, List.nil_append]
  by_cases hin : off + k ≤ b.length
  · rw [if_pos hin, if_pos (by omega)]
  · rw [if_neg hin, if_neg (by omega)]

/-- A field behind another one. -/
theorem field_write (h : l ≤ off) : o.field k off (o.write l m ++ b) = o.field k (off - l) b := by
  obtain ⟨off, rfl⟩ := Nat.exists_eq_add_of_le h
  rw [o.field_append (o.length_write l m), Nat.add_sub_cancel_left]

end ByteOrder

/-! ## Messages -/

def align (n : Nat) : Nat := (n + 3) / 4 * 4

def padding (n : Nat) : List UInt8 := List.replicate (align n - n) 0

structure Message where
  type : UInt16
  flags : UInt16
  seq : UInt32
  pid : UInt32
  payload : List UInt8
  fits : 16 + payload.length < 2 ^ 32

variable (o : ByteOrder)

namespace Message

def size (m : Message) : Nat := 16 + m.payload.length

def header (m : Message) : List UInt8 :=
  o.write 4 m.size ++ (o.write 2 m.type.toNat ++ (o.write 2 m.flags.toNat ++
    (o.write 4 m.seq.toNat ++ o.write 4 m.pid.toNat)))

def bytes (m : Message) : List UInt8 := m.header o ++ (m.payload ++ padding m.size)

variable (m : Message)

theorem length_header : (m.header o).length = 16 := by simp [header, o.length_write]

theorem length_bytes : (m.bytes o).length = align m.size := by
  have halign : m.size ≤ align m.size := by
    unfold align
    omega
  rw [bytes, List.length_append, List.length_append, m.length_header, padding, List.length_replicate]
  unfold size at halign ⊢
  omega

variable {o m} (rest : List UInt8)

theorem field_payload (k off : Nat) :
    o.field k (16 + off) (m.bytes o ++ rest) = o.field k off (m.payload ++ (padding m.size ++ rest)) := by
  rw [bytes, List.append_assoc, o.field_append (m.length_header o), List.append_assoc]

theorem field_type : o.field 2 4 (m.bytes o ++ rest) = some m.type.toNat := by
  have hlt := m.type.toNat_lt
  simp only [bytes, header, List.append_assoc]
  rw [o.field_write (by decide)]
  exact o.field_zero (by omega)

theorem field_pid : o.field 4 12 (m.bytes o ++ rest) = some m.pid.toNat := by
  have hlt := m.pid.toNat_lt
  simp only [bytes, header, List.append_assoc]
  rw [o.field_write (by decide), o.field_write (by decide), o.field_write (by decide), o.field_write (by decide)]
  exact o.field_zero (by omega)

end Message

def datagram (ms : List Message) : List UInt8 := ms.flatMap (Message.bytes o)

/-! ## The connector -/

/-- `idx` and `val` say who sent it; `len` is the length that it claims for the data. -/
structure Connector where
  idx : UInt32
  val : UInt32
  seq : UInt32
  ack : UInt32
  len : UInt16
  flags : UInt16
  data : List UInt8

def Connector.bytes (c : Connector) : List UInt8 :=
  o.write 4 c.idx.toNat ++ (o.write 4 c.val.toNat ++ (o.write 4 c.seq.toNat ++
    (o.write 4 c.ack.toNat ++ (o.write 2 c.len.toNat ++ (o.write 2 c.flags.toNat ++ c.data)))))

/-- An event of the process connector; for `exec` and `exit` its data starts with the process. -/
structure ProcEvent where
  what : UInt32
  cpu : UInt32
  timestamp : UInt64
  pid : UInt32
  tgid : UInt32
  rest : List UInt8
  length_rest : rest.length = 16

def ProcEvent.bytes (e : ProcEvent) : List UInt8 :=
  o.write 4 e.what.toNat ++ (o.write 4 e.cpu.toNat ++ (o.write 8 e.timestamp.toNat ++
    (o.write 4 e.pid.toNat ++ (o.write 4 e.tgid.toNat ++ e.rest))))

variable {o} {rest : List UInt8}

theorem Connector.field_idx {c : Connector} :
    o.field 4 0 (c.bytes o ++ rest) = some c.idx.toNat := by
  have hlt := c.idx.toNat_lt
  rw [Connector.bytes, List.append_assoc]
  exact o.field_zero (by omega)

theorem Connector.field_val {c : Connector} :
    o.field 4 4 (c.bytes o ++ rest) = some c.val.toNat := by
  have hlt := c.val.toNat_lt
  simp only [Connector.bytes, List.append_assoc]
  rw [o.field_write (by decide)]
  exact o.field_zero (by omega)

theorem Connector.field_len {c : Connector} :
    o.field 2 16 (c.bytes o ++ rest) = some c.len.toNat := by
  have hlt := c.len.toNat_lt
  simp only [Connector.bytes, List.append_assoc]
  rw [o.field_write (by decide), o.field_write (by decide), o.field_write (by decide),
    o.field_write (by decide)]
  exact o.field_zero (by omega)

theorem Connector.field_data {c : Connector} (rest : List UInt8) (k off : Nat) :
    o.field k (20 + off) (c.bytes o ++ rest) = o.field k off (c.data ++ rest) := by
  simp only [Connector.bytes, List.append_assoc]
  rw [o.field_write (by omega), o.field_write (by omega), o.field_write (by omega),
    o.field_write (by omega), o.field_write (by omega), o.field_write (by omega)]
  congr 1
  omega

theorem ProcEvent.field_what {e : ProcEvent} :
    o.field 4 0 (e.bytes o ++ rest) = some e.what.toNat := by
  have hlt := e.what.toNat_lt
  rw [ProcEvent.bytes, List.append_assoc]
  exact o.field_zero (by omega)

theorem ProcEvent.field_pid {e : ProcEvent} :
    o.field 4 16 (e.bytes o ++ rest) = some e.pid.toNat := by
  have hlt := e.pid.toNat_lt
  simp only [ProcEvent.bytes, List.append_assoc]
  rw [o.field_write (by decide), o.field_write (by decide), o.field_write (by decide)]
  exact o.field_zero (by omega)

theorem ProcEvent.length_bytes {e : ProcEvent} : (e.bytes o).length = 40 := by
  simp [ProcEvent.bytes, o.length_write, e.length_rest]

theorem Connector.length_bytes {c : Connector} : (c.bytes o).length = 20 + c.data.length := by
  simp [Connector.bytes, o.length_write]
  omega

end Lib.Netlink
