import Proxiflare.Daemon.Sni
import Proxiflare.Lib.ClientHello

/-!
# The server name a client wrote is the one read

The decoder of `sni.c` walks a hello by offsets; the encoder nests it in vectors. Each
reader is matched with what stands at its offset, from the record header inwards, and
the loop over the extensions by induction on those before the server name.
-/

namespace Proxiflare.Guarantees.SniRoundTrip

open Lib.CString Lib.ClientHello
open Proxiflare.Daemon

/-- `rest` is what the record holds from `off` on. -/
def Holds (data : CStr) (off : Nat) (rest : CStr) : Prop :=
  ∃ pre, pre ++ rest = data ∧ pre.length = off

variable {data x rest : CStr} {off n : Nat}

theorem Holds.start (data : CStr) : Holds data 0 data := ⟨[], rfl, rfl⟩

theorem Holds.step (h : Holds data off (x ++ rest)) (hn : x.length = n) :
    Holds data (off + n) rest := by
  obtain ⟨pre, rfl, rfl⟩ := h
  refine ⟨pre ++ x, List.append_assoc _ _ _, ?_⟩
  rw [List.length_append, hn]

theorem Holds.step_cons {b : UInt8} (h : Holds data off (b :: rest)) : Holds data (off + 1) rest :=
  Holds.step (x := [b]) h rfl

theorem Holds.length (h : Holds data off rest) : off + rest.length = data.length := by
  obtain ⟨pre, rfl, rfl⟩ := h
  exact List.length_append.symm

theorem Holds.drop (h : Holds data off rest) : data.drop off = rest := by
  obtain ⟨pre, rfl, rfl⟩ := h
  exact List.drop_left

theorem Holds.u8 {b : UInt8} (h : Holds data off (b :: rest)) : Daemon.u8 data off = b.toNat := by
  obtain ⟨pre, rfl, rfl⟩ := h
  rw [Daemon.u8, List.getD_eq_getElem?_getD, List.getElem?_append_right (Nat.le_refl _),
    Nat.sub_self]
  rfl

theorem Holds.u16be (h : Holds data off (be16 n ++ rest)) (hn : n < 65536) :
    Daemon.u16be data off = n := by
  have hhigh : Daemon.u8 data off = (UInt8.ofNat (n / 256)).toNat := h.u8
  have hlow : Daemon.u8 data (off + 1) = (UInt8.ofNat n).toNat := Holds.u8 (h.step_cons)
  rw [Daemon.u16be, hhigh, hlow, UInt8.toNat_ofNat', UInt8.toNat_ofNat']
  omega

/-! ## The readers, each at what it reads -/

theorem Holds.check (h : Holds data off rest) (hn : n ≤ rest.length) :
    Daemon.check data off n = some () := by
  have hlen := h.length
  rw [Daemon.check, guard, if_pos (by omega)]
  rfl

theorem Holds.skip (h : Holds data off (x ++ rest)) (hn : x.length = n) :
    Daemon.skip data off n = some (off + n) := by
  have hcheck : Daemon.check data off n = some () := h.check (by rw [List.length_append]; omega)
  simp only [Daemon.skip, hcheck, Option.bind_eq_bind, Option.bind_some, Option.pure_def]

theorem Holds.skipVector8 (h : Holds data off (vector8 x ++ rest)) (hx : x.length < 256) :
    Daemon.skipVector8 data off = some (off + (1 + x.length)) := by
  have hcheck : Daemon.check data off 1 = some () :=
    h.check (by rw [List.length_append, length_vector8]; omega)
  have hcons : Holds data off (UInt8.ofNat x.length :: (x ++ rest)) := h
  have hlen : Daemon.u8 data off = x.length := by
    rw [hcons.u8, UInt8.toNat_ofNat']
    omega
  have hskip := hcons.step_cons.skip (n := x.length) rfl
  simp only [Daemon.skipVector8, hcheck, hlen, Option.bind_eq_bind, Option.bind_some, hskip,
    Nat.add_assoc]

theorem Holds.skipVector16 (h : Holds data off (vector16 x ++ rest)) (hx : x.length < 65536) :
    Daemon.skipVector16 data off = some (off + (2 + x.length)) := by
  rw [vector16, List.append_assoc] at h
  have hcheck : Daemon.check data off 2 = some () :=
    h.check (by rw [List.length_append, length_be16]; omega)
  have hskip := (h.step (length_be16 _)).skip (n := x.length) rfl
  simp only [Daemon.skipVector16, hcheck, h.u16be hx, Option.bind_eq_bind, Option.bind_some, hskip,
    Nat.add_assoc]

/-- Past the header, the two version bytes, the random and the three vectors. -/
theorem helloExtensions_record {h : Hello} (hfits : h.Fits) (rest : CStr) :
    ∃ off, helloExtensions (h.record ++ rest) = some (off, off + h.extensions.length) ∧
      Holds (h.record ++ rest) off (h.extensions ++ rest) := by
  have hrecord : Holds (h.record ++ rest) 3 (be16 h.handshake.length ++ (h.handshake ++ rest)) :=
    ⟨[0x16, 3, h.recordMinor], by simp [Hello.record, vector16], rfl⟩
  have hlen := hrecord.length
  rw [List.length_append, List.length_append, length_be16, h.length_handshake] at hlen
  have hpayload : Holds (h.record ++ rest) 5 (h.handshake ++ rest) := hrecord.step (length_be16 _)
  have hmessage : Holds (h.record ++ rest) 5 (1 :: be24 h.body.length ++ (h.body ++ rest)) := by
    simpa [Hello.handshake] using hpayload
  have htype : u8 (h.record ++ rest) 5 = 1 := hmessage.u8
  have hversion : Holds (h.record ++ rest) 9 ([h.major, h.minor] ++ (h.random ++
      (vector8 h.sessionId ++ (vector16 (h.ciphers.flatMap fun c => be16 c.toNat) ++
        (vector8 h.compression ++ (be16 h.extensions.length ++ (h.extensions ++ rest))))))) := by
    simpa [Hello.body, vector16] using hmessage.step (n := 4) rfl
  have hrandom := hversion.step (n := 2) rfl
  have hsession := hrandom.step h.random_length
  have hciphers := hsession.step (length_vector8 _)
  have hcompression := hciphers.step (length_vector16 _)
  have htotal := hcompression.step (length_vector8 _)
  have hexts := htotal.step (length_be16 _)
  refine ⟨_, ?_, hexts⟩
  have hhead : check (h.record ++ rest) 0 5 = some () := by
    exact (Holds.start _).check (by omega)
  have hcheck : check (h.record ++ rest) 5 h.handshake.length = some () :=
    hpayload.check (by rw [List.length_append]; omega)
  have hfour : check (h.record ++ rest) 5 4 = some () :=
    hpayload.check (by rw [List.length_append, h.length_handshake]; omega)
  have hone : u8 (h.record ++ rest) 0 = 0x16 := rfl
  have hthree : u8 (h.record ++ rest) 1 = 3 := rfl
  have hlast := htotal.check (n := 2) (by rw [List.length_append, length_be16]; omega)
  have hblock := hexts.check (n := h.extensions.length) (by rw [List.length_append]; omega)
  simp only [helloExtensions, hhead, hone, hthree, hrecord.u16be hfits.record, hcheck, hfour, htype,
    hversion.skip (n := 2) rfl, hrandom.skip h.random_length,
    hsession.skipVector8 hfits.sessionId, hciphers.skipVector16 hfits.ciphers_lt,
    hcompression.skipVector8 hfits.compression, hlast, htotal.u16be hfits.extensions_lt, hblock,
    guard_true, Option.bind_eq_bind, Option.bind_some, Option.pure_def]

/-! ## The loop over the extensions -/

variable {outMax extsEnd fuel : Nat} {exts : List Extension} {name : CStr}

/-- An extension of another type is stepped over. -/
theorem sniExtensions_other {e : Extension} (he : e.type ≠ 0) (outMax fuel : Nat)
    (h : Holds data off (e.bytes ++ rest)) (hend : off + e.bytes.length ≤ extsEnd)
    (hlt : e.data.length < 65536) :
    sniExtensions data outMax extsEnd (fuel + 1) off =
      sniExtensions data outMax extsEnd fuel (off + e.bytes.length) := by
  rw [length_bytes] at hend
  rw [Extension.bytes, List.append_assoc, vector16, List.append_assoc] at h
  have htype : u16be data off = e.type.toNat := h.u16be e.type.toNat_lt
  have hdata : u16be data (off + 2) = e.data.length := (h.step (length_be16 _)).u16be hlt
  have hne : e.type.toNat ≠ 0 := fun hz => he (UInt16.toNat_inj.mp hz)
  rw [sniExtensions, if_pos (by omega), length_bytes]
  simp only [htype, hdata]
  rw [if_neg (by omega), if_neg hne, Nat.add_assoc]

/-- So are any number of them. -/
theorem sniExtensions_others (hexts : ∀ e ∈ exts, e.type ≠ 0) (outMax fuel : Nat)
    (h : Holds data off (exts.flatMap Extension.bytes ++ rest))
    (hend : off + (exts.flatMap Extension.bytes).length ≤ extsEnd) (hlt : extsEnd < off + 65536) :
    sniExtensions data outMax extsEnd (fuel + exts.length) off =
      sniExtensions data outMax extsEnd fuel (off + (exts.flatMap Extension.bytes).length) := by
  induction exts generalizing off with
  | nil => rfl
  | cons e exts ih =>
    obtain ⟨he, hexts⟩ := List.forall_mem_cons.mp hexts
    rw [List.flatMap_cons, List.append_assoc] at h
    rw [List.flatMap_cons, List.length_append] at hend ⊢
    have hlen := length_bytes e
    have hstep := sniExtensions_other he outMax (fuel + exts.length) h
      (show off + e.bytes.length ≤ extsEnd by omega) (by omega)
    rw [List.length_cons, ← Nat.add_assoc, hstep, ih hexts (h.step rfl) (by omega) (by omega),
      Nat.add_assoc]

/-- What a buffer of this size keeps of a name. -/
def copied (outMax : Nat) (name : CStr) : CStr :=
  name.take (if outMax ≤ name.length then outMax - 1 else name.length)

theorem copied_of_fits (hmax : name.length < outMax) : copied outMax name = name := by
  rw [copied, if_neg (Nat.not_le_of_gt hmax), List.take_length]

/-- The list of one host name gives the name. -/
theorem sniHostName_entry (hname : name ≠ []) (hlt : name.length < 65536) (outMax : Nat)
    (h : Holds data off (vector16 (0 :: vector16 name) ++ rest)) :
    sniHostName data outMax off (off + (vector16 (0 :: vector16 name)).length) =
      some (copied outMax name) := by
  have hpos := List.length_pos_of_ne_nil hname
  have hlen : (vector16 (0 :: vector16 name)).length = 2 + (2 + name.length + 1) := by
    simp only [length_vector16, List.length_cons]
  have htype : Holds data (off + 2) (0 :: (be16 name.length ++ (name ++ rest))) := by
    rw [vector16, List.append_assoc] at h
    simpa [vector16] using h.step (length_be16 _)
  have hcount := htype.step_cons
  have hbytes := hcount.step (length_be16 _)
  have hzero : u8 data (off + 2) = 0 := htype.u8
  have hcopy : (name ++ rest).take (if outMax ≤ name.length then outMax - 1 else name.length) =
      copied outMax name := by
    rw [List.take_append_of_le_length (by split <;> omega)]
    rfl
  rw [sniHostName, hlen]
  simp only [hzero, hcount.u16be hlt, hbytes.drop, hcopy, guard]
  rw [if_pos (by omega), if_pos (by omega), if_pos trivial, if_pos (by omega), if_pos (by omega),
    if_pos (by omega)]
  rfl

/-- At the server name extension the loop ends with the name. -/
theorem sniExtensions_serverName (hname : name ≠ []) (outMax fuel : Nat)
    (h : Holds data off ((serverName name).bytes ++ rest))
    (hend : off + (serverName name).bytes.length ≤ extsEnd)
    (hlt : (serverName name).bytes.length < 65536) :
    sniExtensions data outMax extsEnd (fuel + 1) off = some (copied outMax name) := by
  have hlen : (serverName name).data.length = 2 + (2 + name.length + 1) := by
    simp only [serverName, length_vector16, List.length_cons]
  rw [length_bytes] at hend hlt
  rw [Extension.bytes, List.append_assoc, vector16, List.append_assoc] at h
  have htype : u16be data off = 0 := h.u16be (show 0 < 65536 by decide)
  have hdata := (h.step (length_be16 _)).u16be (show (serverName name).data.length < 65536 by omega)
  have hentry := sniHostName_entry hname (by omega) outMax
    ((h.step (length_be16 _)).step (length_be16 _))
  rw [sniExtensions, if_pos (by omega)]
  simp only [htype, hdata]
  rw [if_neg (by omega), if_pos trivial]
  exact hentry

/-- Whatever the size of the buffer, and whatever follows the record. -/
theorem pfSniExtract_record {h : Hello} (hfits : h.Fits) (rest : CStr) (hmax : outMax ≠ 0) :
    pfSniExtract (h.record ++ rest) outMax = some (copied outMax h.name) := by
  obtain ⟨off, hexts, hholds⟩ := helloExtensions_record hfits rest
  have hlt := hfits.extensions_lt
  have hlen := h.length_extensions
  have hdata := hholds.length
  rw [List.length_append] at hdata
  have hbefore := length_le_bytes h.before
  obtain ⟨fuel, hfuel⟩ : ∃ fuel, (h.record ++ rest).length = fuel + 1 + h.before.length :=
    ⟨(h.record ++ rest).length - 1 - h.before.length, by omega⟩
  have hserver : (serverName h.name).bytes.length = 4 + (2 + (3 + h.name.length)) := by
    rw [length_bytes, serverName, length_vector16, List.length_cons, length_vector16]
    omega
  rw [Hello.extensions, List.append_assoc, List.append_assoc] at hholds
  have hothers := sniExtensions_others h.before_type outMax (fuel + 1) hholds
    (show _ ≤ off + h.extensions.length by omega) (by omega)
  have hname := sniExtensions_serverName h.name_ne_nil outMax fuel (hholds.step rfl)
    (show _ ≤ off + h.extensions.length by omega) (by omega)
  rw [pfSniExtract, if_neg hmax, hexts]
  show sniExtensions (h.record ++ rest) outMax (off + h.extensions.length)
    (h.record ++ rest).length off = some (copied outMax h.name)
  rw [hfuel, hothers, hname]

/-! ## The round trip -/

/-- For every hello that fits a record, whatever follows it, and every buffer with room for the name
and its terminator. -/
theorem sni_round_trip (h : Hello) (hfits : h.Fits) (rest : CStr) (outMax : Nat)
    (hmax : h.name.length < outMax) : pfSniExtract (h.record ++ rest) outMax = some h.name := by
  rw [pfSniExtract_record hfits rest (by omega), copied_of_fits hmax]

/-- Between two extensions, and with other bytes behind the record. -/
def sampleHello : Hello where
  recordMinor := 1
  major := 3
  minor := 3
  random := List.replicate 32 7
  sessionId := [1, 2]
  ciphers := [0x1301, 0x002f]
  compression := [0]
  before := [⟨10, [0, 2, 0, 29]⟩]
  name := lit "a.b"
  after := [⟨16, []⟩]
  random_length := rfl
  before_type := by simp
  after_type := by simp
  name_ne_nil := by decide

theorem sampleHello_read : pfSniExtract (sampleHello.record ++ [23, 3, 3]) 254 = some (lit "a.b") :=
  sni_round_trip sampleHello ⟨by decide, by decide, by decide⟩ [23, 3, 3] 254 (by decide)

end Proxiflare.Guarantees.SniRoundTrip
