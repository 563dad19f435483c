import Proxiflare.Daemon.Sni
import Proxiflare.Lib.CBody

/-!
# `sni.c` on its buffers

`pf_sni_extract` with every read of `data` and every write to `out` checked against its
buffer. Where no access faults it is the reader of `Sni`, step by step.
-/

namespace Proxiflare.Daemon.Memory

open Lib Lib.CString Lib.CBody

def u8 {ρ σ : Type} (data : CStr) (off : Nat) : CBody ρ σ Nat := do
  let b ← load data off
  pure b.toNat

def u16be {ρ σ : Type} (data : CStr) (off : Nat) : CBody ρ σ Nat := do
  let high ← u8 data off
  let low ← u8 data (off + 1)
  pure (high * 256 + low)

/-- A stretch of `pf_sni_extract`: it writes `out` and returns an `int`. -/
abbrev SniBody := CBody Int CStr

def u24be (data : CStr) (off : Nat) : SniBody Nat := do
  let high ← u8 data off
  let low ← u16be data (off + 1)
  pure (high * 65536 + low)

/-- `CHECK(off, need)`. -/
def check (data : CStr) (off need : Nat) : SniBody Unit := require (off + need ≤ data.length) 0

def skip (data : CStr) (off need : Nat) : SniBody Nat := do
  check data off need
  pure (off + need)

def skipVector8 (data : CStr) (off : Nat) : SniBody Nat := do
  check data off 1
  let n ← u8 data off
  skip data (off + 1) n

def skipVector16 (data : CStr) (off : Nat) : SniBody Nat := do
  check data off 2
  let n ← u16be data off
  skip data (off + 2) n

def helloExtensions (data : CStr) : SniBody (Nat × Nat) := do
  check data 0 5
  let content ← u8 data 0
  require (content = 0x16) 0
  let major ← u8 data 1
  require (major = 3) 0
  let recordLen ← u16be data 3
  check data 5 recordLen
  check data 5 4
  let handshake ← u8 data 5
  require (handshake = 1) 0
  -- the handshake length is read and not used
  let _ ← u24be data 6
  let off ← skip data 9 2
  let off ← skip data off 32
  let off ← skipVector8 data off
  let off ← skipVector16 data off
  let off ← skipVector8 data off
  check data off 2
  let extsTotal ← u16be data off
  check data (off + 2) extsTotal
  pure (off + 2, off + 2 + extsTotal)

/-- The `memcpy` to `out` and its terminator. -/
def copyOut (name : CStr) : SniBody Int := do
  let out ← get
  let out ← store out 0 name
  let out ← store out name.length [0]
  modify fun _ => out
  pure name.length

def sniHostName (data : CStr) (outMax off sniEnd : Nat) : SniBody Int := do
  require (off + 2 ≤ sniEnd) 0
  let off := off + 2
  require (off + 1 ≤ sniEnd) 0
  let type ← u8 data off
  require (type = 0) 0
  let off := off + 1
  require (off + 2 ≤ sniEnd) 0
  let nameLen ← u16be data off
  let off := off + 2
  require (off + nameLen ≤ sniEnd) 0
  require (nameLen ≠ 0) 0
  let copyLen := if outMax ≤ nameLen then outMax - 1 else nameLen
  let name ← loadRange data off copyLen
  copyOut name

/-- One turn of `while (off + 4 <= exts_end)`. -/
def sniExtension (data : CStr) (outMax extsEnd off : Nat) : SniBody (Nat ⊕ Unit) :=
  if off + 4 ≤ extsEnd then do
    let extType ← u16be data off
    let extLen ← u16be data (off + 2)
    let off := off + 4
    require (off + extLen ≤ extsEnd) 0
    if extType = 0 then
      let r ← sniHostName data outMax off (off + extLen)
      ret r
    else pure (.inl (off + extLen))
  else pure (.inr ())

/-- At most `turns` turns of the loop. -/
def pfSniExtract (data : CStr) (outMax turns : Nat) : SniBody Int := do
  require (outMax ≠ 0) 0
  let (off, extsEnd) ← helloExtensions data
  loop (sniExtension data outMax extsEnd) turns off
  pure 0

/-! ## Reads within the buffer -/

variable {α : Type} {data : CStr} {off need : Nat} {o : Unit → Option α} {m : Unit → SniBody α}
  {R : Int → CStr → Prop}

theorem u8_eq {ρ σ : Type} (h : off < data.length) :
    (u8 data off : CBody ρ σ Nat) = pure (Daemon.u8 data off) := by
  rw [u8, load, Daemon.u8, List.getD_eq_getElem?_getD, List.getElem?_eq_getElem h]
  rfl

theorem u16be_eq {ρ σ : Type} (h : off + 1 < data.length) :
    (u16be data off : CBody ρ σ Nat) = pure (Daemon.u16be data off) := by
  rw [u16be, u8_eq (by omega), u8_eq h]
  rfl

theorem u24be_then (h : off + 2 < data.length) (f : SniBody α) :
    (u24be data off >>= fun _ => f) = f := by
  rw [u24be, u8_eq (by omega), u16be_eq h]
  rfl

/-- What follows a check is read only where it holds. -/
theorem check_bind (h : off + need ≤ data.length → m () = orReturn 0 (o ())) :
    check data off need >>= m = orReturn 0 ((Daemon.check data off need).bind o) :=
  require_bind h

theorem skip_eq : skip data off need = orReturn 0 (Daemon.skip data off need) :=
  check_bind fun _ => rfl

theorem skipVector8_eq : skipVector8 data off = orReturn 0 (Daemon.skipVector8 data off) := by
  refine check_bind fun h => ?_
  rw [u8_eq (by omega), pure_then]
  exact skip_eq

theorem skipVector16_eq : skipVector16 data off = orReturn 0 (Daemon.skipVector16 data off) := by
  refine check_bind fun h => ?_
  rw [u16be_eq (by omega), pure_then]
  exact skip_eq

/-- The header is read within the buffer. -/
theorem helloExtensions_eq :
    helloExtensions data = orReturn 0 (Daemon.helloExtensions data) := by
  refine check_bind fun hheader => ?_
  rw [u8_eq (by omega), pure_then]
  refine require_bind fun _ => ?_
  rw [u8_eq (by omega), pure_then]
  refine require_bind fun _ => ?_
  rw [u16be_eq (by omega), pure_then]
  refine check_bind fun _ => check_bind fun hmessage => ?_
  rw [u8_eq (by omega), pure_then]
  refine require_bind fun _ => ?_
  rw [u24be_then (by omega)]
  simp only [skip_eq, skipVector8_eq, skipVector16_eq]
  refine orReturn_bind fun _ _ => orReturn_bind fun _ _ => orReturn_bind fun _ _ =>
    orReturn_bind fun _ _ => orReturn_bind fun off _ => check_bind fun htotal => ?_
  rw [u16be_eq (by omega), pure_then]
  exact check_bind fun _ => rfl

theorem sniHostName_eq {outMax sniEnd : Nat} (hend : sniEnd ≤ data.length) :
    sniHostName data outMax off sniEnd =
      orReturn 0 (Daemon.sniHostName data outMax off sniEnd) >>= copyOut := by
  refine require_then fun hlist => require_then fun htype => ?_
  rw [u8_eq (by omega), pure_then]
  refine require_then fun _ => require_then fun hlength => ?_
  rw [u16be_eq (by omega), pure_then]
  refine require_then fun hname => require_then fun _ => ?_
  dsimp only
  rw [loadRange_eq (by split <;> omega)]
  rfl

/-- What the caller finds: the length of the name and the name in `out`, or 0. -/
def Found (out : CStr) (name : Option CStr) (r : Int) (out' : CStr) : Prop :=
  match name with
  | some name => r = name.length ∧ out' = name ++ 0 :: out.drop (name.length + 1)
  | none => r = 0 ∧ out' = out

theorem overwrite_name (name out : CStr) :
    overwrite (overwrite out 0 name) name.length [0] =
      name ++ 0 :: out.drop (name.length + 1) := by
  have hfirst : overwrite out 0 name = name ++ out.drop name.length := by
    rw [overwrite, List.take_zero, List.nil_append, Nat.zero_add]
  rw [hfirst, overwrite, List.take_left, List.append_assoc, List.length_singleton,
    List.drop_append, List.drop_of_length_le (by omega), Nat.add_sub_cancel_left, List.drop_drop]
  rfl

theorem meets_copyOut {name out : CStr} {Q : Int → CStr → Prop} (h : name.length < out.length)
    (hQ : Q name.length (name ++ 0 :: out.drop (name.length + 1))) :
    Meets (copyOut name) out R Q := by
  have hlen : (overwrite out 0 name).length = out.length := length_overwrite (by omega)
  simp only [copyOut, meets_bind, meets_get, meets_store, meets_modify, meets_pure]
  refine ⟨by omega, by rw [hlen]; exact h, ?_⟩
  rw [overwrite_name]
  exact hQ

/-- One turn: the name is found, there is none, or the next extension starts further on. -/
theorem meets_sniExtension {outMax extsEnd n : Nat} {out : CStr} (hmax : outMax ≠ 0)
    (hout : outMax ≤ out.length) (hend : extsEnd ≤ data.length) (hn : extsEnd < n + off) :
    Meets (sniExtension data outMax extsEnd off) out
      (Found out (sniExtensions data outMax extsEnd n off))
      (Sum.elim
        (fun next t => t = out ∧ off < next ∧ off < extsEnd ∧ ∃ k, extsEnd < k + next ∧
          sniExtensions data outMax extsEnd k next = sniExtensions data outMax extsEnd n off)
        fun _ t => t = out ∧ sniExtensions data outMax extsEnd n off = none) := by
  rw [sniExtension]
  split
  · next hheader =>
    obtain ⟨n, rfl⟩ := Nat.exists_eq_succ_of_ne_zero (show n ≠ 0 by omega)
    rw [sniExtensions_succ, if_pos hheader, u16be_eq (by omega), u16be_eq (by omega), pure_then,
      pure_then, meets_bind, meets_require]
    split
    · next hbody =>
      split
      · next htype =>
        rw [meets_bind, sniHostName_eq (by omega), meets_bind, meets_orReturn]
        constructor
        · intro name hname
          have hlen := sniHostName_length hmax hname
          rw [hname]
          exact meets_copyOut (by omega) ⟨rfl, rfl⟩
        · intro hnone
          rw [hnone]
          exact ⟨rfl, rfl⟩
      · exact ⟨rfl, by omega, by omega, n, by omega, rfl⟩
    · exact ⟨rfl, rfl⟩
  · next hheader =>
    cases n with
    | zero => exact ⟨rfl, rfl⟩
    | succ n => exact ⟨rfl, by rw [sniExtensions_succ, if_neg hheader]⟩

/-- The loop finds what the reader finds. -/
theorem meets_extensions {outMax extsEnd turns n : Nat} {out : CStr} (hmax : outMax ≠ 0)
    (hout : outMax ≤ out.length) (hend : extsEnd ≤ data.length) (hturns : extsEnd < turns)
    (hn : extsEnd < n + off) :
    Meets (do loop (sniExtension data outMax extsEnd) turns off; pure 0) out
      (Found out (sniExtensions data outMax extsEnd n off))
      (Found out (sniExtensions data outMax extsEnd n off)) := by
  rw [meets_bind]
  apply meets_loop (v := fun next => extsEnd - next)
    (fun next t => t = out ∧ ∃ k, extsEnd < k + next ∧
      sniExtensions data outMax extsEnd k next = sniExtensions data outMax extsEnd n off)
  · rintro next _ ⟨rfl, k, hk, heq⟩
    rw [← heq]
    refine (meets_sniExtension hmax hout hend hk).mono (fun _ _ h => h) ?_
    rintro (later | _) t h
    · obtain ⟨rfl, hlater, hnext, hrest⟩ := h
      exact ⟨⟨rfl, hrest⟩, by omega⟩
    · obtain ⟨rfl, hnone⟩ := h
      show Found _ _ 0 _
      rw [hnone]
      exact ⟨rfl, rfl⟩
  · exact ⟨rfl, n, hn, rfl⟩
  · show extsEnd - off < turns
    omega

/-- `pf_sni_extract` on memory finds the name the reader finds. -/
theorem meets_pfSniExtract {outMax turns : Nat} {out : CStr} (hmax : outMax ≠ 0)
    (hout : outMax ≤ out.length) (hturns : data.length < turns) :
    Meets (pfSniExtract data outMax turns) out
      (Found out (Daemon.pfSniExtract data outMax)) (Found out (Daemon.pfSniExtract data outMax)) := by
  rw [pfSniExtract, Daemon.pfSniExtract, if_neg hmax, meets_bind, meets_require, if_pos hmax,
    meets_bind, helloExtensions_eq, meets_orReturn]
  constructor
  · rintro ⟨start, extsEnd⟩ hhello
    obtain ⟨-, hstart, -, hend⟩ := helloExtensions_eq_some_iff.mp hhello
    rw [hhello]
    exact meets_extensions hmax hout hend (by omega) (by omega)
  · intro hnone
    rw [hnone]
    exact ⟨rfl, rfl⟩

end Proxiflare.Daemon.Memory
