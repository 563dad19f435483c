import Mathlib.Data.Option.Basic
import Proxiflare.Daemon.Types

/-!
# The server name of a ClientHello

`daemon/src/sni.c`. An offset is read only after the check that it lies within `len`;
`none` is every return of 0. The name is copied as it stands on the wire.
-/

namespace Proxiflare.Daemon

open Lib.CString

/-- `U8` and `U16BE`. -/
def u8 (data : CStr) (off : Nat) : Nat := (data.getD off 0).toNat

def u16be (data : CStr) (off : Nat) : Nat := u8 data off * 256 + u8 data (off + 1)

/-- `CHECK(off, need)`. -/
def check (data : CStr) (off need : Nat) : Option Unit := guard (off + need ≤ data.length)

/-- Skips a field of `need` bytes. -/
def skip (data : CStr) (off need : Nat) : Option Nat := do
  check data off need
  pure (off + need)

/-- Skips a vector with a length of one byte, then one with a length of two. -/
def skipVector8 (data : CStr) (off : Nat) : Option Nat := do
  check data off 1
  skip data (off + 1) (u8 data off)

def skipVector16 (data : CStr) (off : Nat) : Option Nat := do
  check data off 2
  skip data (off + 2) (u16be data off)

/-- The host name of a server name extension in `[off, sniEnd)`. -/
def sniHostName (data : CStr) (outMax off sniEnd : Nat) : Option CStr := do
  guard (off + 2 ≤ sniEnd)
  let off := off + 2
  guard (off + 1 ≤ sniEnd)
  guard (u8 data off = 0)
  let off := off + 1
  guard (off + 2 ≤ sniEnd)
  let nameLen := u16be data off
  let off := off + 2
  guard (off + nameLen ≤ sniEnd)
  guard (nameLen ≠ 0)
  let copyLen := if outMax ≤ nameLen then outMax - 1 else nameLen
  pure ((data.drop off).take copyLen)

/-- `while (off + 4 <= exts_end)`, at most `n` turns. -/
def sniExtensions (data : CStr) (outMax extsEnd : Nat) : Nat → Nat → Option CStr
  | 0, _ => none
  | n + 1, off =>
    if off + 4 ≤ extsEnd then
      let extType := u16be data off
      let extLen := u16be data (off + 2)
      let off := off + 4
      if extsEnd < off + extLen then none
      else if extType = 0 then sniHostName data outMax off (off + extLen)
      else sniExtensions data outMax extsEnd n (off + extLen)
    else none

/-- Where the extensions of a ClientHello start and end. -/
def helloExtensions (data : CStr) : Option (Nat × Nat) := do
  check data 0 5
  guard (u8 data 0 = 0x16)
  guard (u8 data 1 = 3)
  check data 5 (u16be data 3)
  check data 5 4
  guard (u8 data 5 = 1)
  let off ← skip data 9 2
  let off ← skip data off 32
  let off ← skipVector8 data off
  let off ← skipVector16 data off
  let off ← skipVector8 data off
  check data off 2
  let extsTotal := u16be data off
  check data (off + 2) extsTotal
  pure (off + 2, off + 2 + extsTotal)

/-- The bytes copied to `out`. -/
def pfSniExtract (data : CStr) (outMax : Nat) : Option CStr :=
  if outMax = 0 then none
  else (helloExtensions data).bind fun exts =>
    sniExtensions data outMax exts.2 data.length exts.1

/-! ## Where things stand -/

/-- Where the length of the extensions stands, behind three vectors. -/
def extensionsAt (data : CStr) : Nat :=
  let ciphers := 44 + u8 data 43
  let compression := ciphers + 2 + u16be data ciphers
  compression + 1 + u8 data compression

theorem helloExtensions_eq_some_iff {data : CStr} {start extsEnd : Nat} :
    helloExtensions data = some (start, extsEnd) ↔
      (u8 data 0 = 0x16 ∧ u8 data 1 = 3 ∧ u8 data 5 = 1 ∧ 5 + u16be data 3 ≤ data.length) ∧
      start = extensionsAt data + 2 ∧ extsEnd = start + u16be data (extensionsAt data) ∧
      extsEnd ≤ data.length := by
  simp only [helloExtensions, skipVector8, skipVector16, skip, check, Option.bind_eq_bind,
    Option.bind_eq_some_iff, Option.guard_eq_some', exists_and_left, exists_const, Option.pure_def,
    Option.some.injEq, Prod.mk.injEq]
  constructor
  · rintro ⟨-, hcontent, hmajor, hrecord, -, htype, _, ⟨-, rfl⟩, _, ⟨-, rfl⟩, _, ⟨-, -, rfl⟩, _,
      ⟨-, -, rfl⟩, _, ⟨-, -, rfl⟩, -, hend, rfl, rfl⟩
    exact ⟨⟨hcontent, hmajor, htype, hrecord⟩, rfl, rfl, hend⟩
  · rintro ⟨⟨hcontent, hmajor, htype, hrecord⟩, rfl, rfl, hend⟩
    have hat : extensionsAt data = 9 + 2 + 32 + 1 + u8 data (9 + 2 + 32) + 2 +
      u16be data (9 + 2 + 32 + 1 + u8 data (9 + 2 + 32)) + 1 +
      u8 data (9 + 2 + 32 + 1 + u8 data (9 + 2 + 32) + 2 +
        u16be data (9 + 2 + 32 + 1 + u8 data (9 + 2 + 32))) := rfl
    refine ⟨by omega, hcontent, hmajor, hrecord, by omega, htype, _, ⟨by omega, rfl⟩, _,
      ⟨by omega, rfl⟩, _, ⟨by omega, by omega, rfl⟩, _, ⟨by omega, by omega, rfl⟩, _,
      ⟨by omega, by omega, rfl⟩, by omega, ?_, ?_, ?_⟩
    · rw [← hat]
      exact hend
    · rw [← hat]
    · rw [← hat]

theorem sniExtensions_succ (data : CStr) (outMax extsEnd n off : Nat) :
    sniExtensions data outMax extsEnd (n + 1) off =
      if off + 4 ≤ extsEnd then
        if off + 4 + u16be data (off + 2) ≤ extsEnd then
          if u16be data off = 0 then
            sniHostName data outMax (off + 4) (off + 4 + u16be data (off + 2))
          else sniExtensions data outMax extsEnd n (off + 4 + u16be data (off + 2))
        else none
      else none := by
  rw [sniExtensions]
  congr 1
  simp only [← Nat.not_le, ite_not]

/-- The bytes of a host name, and what stands before and after them. -/
theorem sniHostName_eq_some_iff {data s : CStr} {outMax off sniEnd : Nat} :
    sniHostName data outMax off sniEnd = some s ↔
      (u8 data (off + 2) = 0 ∧ u16be data (off + 3) ≠ 0 ∧ off + 5 + u16be data (off + 3) ≤ sniEnd) ∧
      s = (data.drop (off + 5)).take
        (if outMax ≤ u16be data (off + 3) then outMax - 1 else u16be data (off + 3)) := by
  simp only [sniHostName, Option.bind_eq_bind, Option.bind_eq_some_iff, Option.guard_eq_some',
    exists_and_left, exists_const, Option.pure_def, Option.some.injEq]
  constructor
  · rintro ⟨-, -, htype, -, hend, hne, rfl⟩
    exact ⟨⟨htype, hne, hend⟩, rfl⟩
  · rintro ⟨⟨htype, hne, hend⟩, rfl⟩
    exact ⟨by omega, by omega, htype, by omega, hend, hne, rfl⟩

/-! ## The name -/

/-- The name is a part of the record, whatever its bytes are. -/
theorem sniExtensions_infix {data s : CStr} {outMax extsEnd n off : Nat}
    (h : sniExtensions data outMax extsEnd n off = some s) : s <:+: data := by
  induction n generalizing off with
  | zero => cases h
  | succ n ih =>
    unfold sniExtensions at h
    dsimp only at h
    split at h
    · split at h
      · cases h
      · split at h
        · obtain ⟨-, rfl⟩ := sniHostName_eq_some_iff.mp h
          exact (List.take_prefix _ _).isInfix.trans (List.drop_suffix _ _).isInfix
        · exact ih h
    · cases h

theorem pfSniExtract_infix {data s : CStr} {outMax : Nat} (h : pfSniExtract data outMax = some s) :
    s <:+: data := by
  unfold pfSniExtract at h
  split at h
  · cases h
  · obtain ⟨exts, -, hexts⟩ := Option.bind_eq_some_iff.mp h
    exact sniExtensions_infix hexts

theorem sniHostName_length {data s : CStr} {outMax off sniEnd : Nat} (hmax : outMax ≠ 0)
    (h : sniHostName data outMax off sniEnd = some s) : s.length < outMax := by
  obtain ⟨-, rfl⟩ := sniHostName_eq_some_iff.mp h
  refine Nat.lt_of_le_of_lt (List.length_take_le _ _) ?_
  split <;> omega

/-- A name leaves room for its terminator. -/
theorem sniExtensions_length {data s : CStr} {outMax extsEnd n off : Nat} (hmax : outMax ≠ 0)
    (h : sniExtensions data outMax extsEnd n off = some s) : s.length < outMax := by
  induction n generalizing off with
  | zero => cases h
  | succ n ih =>
    unfold sniExtensions at h
    dsimp only at h
    split at h
    · split at h
      · cases h
      · split at h
        · exact sniHostName_length hmax h
        · exact ih h
    · cases h

theorem pfSniExtract_length {data s : CStr} {outMax : Nat} (h : pfSniExtract data outMax = some s) :
    s.length < outMax := by
  unfold pfSniExtract at h
  split at h
  · cases h
  · next hmax =>
    obtain ⟨exts, -, hexts⟩ := Option.bind_eq_some_iff.mp h
    exact sniExtensions_length hmax hexts

/-- `domain` of the accept path: a record that starts like a handshake is searched. -/
def peekDomain (peek : CStr) : CBuf pfDomainMax :=
  if peek.head? = some 0x16 then .snprintf ((pfSniExtract peek pfDomainMax).getD []) else .empty

end Proxiflare.Daemon
