import Proxiflare.Daemon.DnsWrites

/-!
# Well-formed DNS packets

The packets the snoop is meant for, written out byte by byte: an IPv4 header with options or
none, a UDP header, one question, answers whose owners are spelled out or compressed, and any
further sections. The callback reads the name and every address of them.
-/

namespace Proxiflare.Daemon

open Lib.CString Lib

/-! ## Numbers -/

theorem u8_append {data : CStr} {off : Nat} (h : off < data.length) (rest : CStr) :
    u8 (data ++ rest) off = u8 data off := by
  rw [u8, u8, List.getD_eq_getElem?_getD, List.getElem?_append_left h, ← List.getD_eq_getElem?_getD]

/-- A number of two bytes on the wire. -/
def be16 (n : Nat) : CStr := [UInt8.ofNat (n / 256), UInt8.ofNat n]

theorem u16be_be16 {n : Nat} (h : n < 65536) :
    (UInt8.ofNat (n / 256)).toNat * 256 + (UInt8.ofNat n).toNat = n := by
  rw [UInt8.toNat_ofNat', UInt8.toNat_ofNat']
  omega

/-! ## Names -/

structure Label where
  bytes : CStr
  ne_nil : bytes ≠ []
  short : bytes.length ≤ 63

def Label.wire (l : Label) : CStr := UInt8.ofNat l.bytes.length :: l.bytes

def labelsWire (ls : List Label) : CStr := ls.flatMap Label.wire

/-- The labels with dots between them. -/
def labelsText (ls : List Label) : CStr := joinWith 46 (ls.map Label.bytes)

/-- A name of 1 to 252 bytes. -/
structure DnsName where
  labels : List Label
  ne_nil : labels ≠ []
  fits : (labelsText labels).length < pfDomainMax
  noNul : 0 ∉ labelsText labels

def DnsName.wire (n : DnsName) : CStr := labelsWire n.labels ++ [0]

def DnsName.domain (n : DnsName) : CBuf pfDomainMax := ⟨labelsText n.labels, n.fits, n.noNul⟩

/-- Where a name ends: at the root, or with a pointer to the rest of it. -/
inductive NameEnd where
  | root
  | pointer (hi lo : UInt8) (mark : hi &&& 0xC0 = 0xC0)

def NameEnd.wire : NameEnd → CStr
  | .root => [0]
  | .pointer hi lo _ => [hi, lo]

/-! ## Packets -/

/-- A record of any type; addresses have the length of their type. -/
structure DnsRecord where
  owner : List Label
  ownerEnd : NameEnd
  rtype : UInt16
  rclass : UInt16
  ttl : UInt32
  rdata : CStr
  short : rdata.length < 65536
  a_length : rtype = 1 → rdata.length = 4
  aaaa_length : rtype = 28 → rdata.length = 16

/-- What follows the owner. -/
def DnsRecord.body (r : DnsRecord) : CStr :=
  be16 r.rtype.toNat ++ be16 r.rclass.toNat ++
    (be16 (r.ttl.toNat / 65536) ++ be16 (r.ttl.toNat % 65536)) ++ be16 r.rdata.length ++ r.rdata

def DnsRecord.wire (r : DnsRecord) : CStr := labelsWire r.owner ++ r.ownerEnd.wire ++ r.body

/-- The address of an A or AAAA record as text. -/
def DnsRecord.address (r : DnsRecord) : Option CStr :=
  if r.rtype = 1 then some (inetNtop4 r.rdata)
  else if r.rtype = 28 then some (inetNtop6 r.rdata)
  else none

/-- A query or a response with one question. `rest` is the sections after the answers. -/
structure DnsPacket where
  ipHeader : CStr
  udpHeader : CStr
  id : UInt16
  flagsHi : UInt8
  flagsLo : UInt8
  nscount : UInt16
  arcount : UInt16
  question : DnsName
  qtype : UInt16
  qclass : UInt16
  answers : List DnsRecord
  rest : CStr
  ip_min : 20 ≤ ipHeader.length
  ip_length : ipHeader.length = u8 ipHeader 0 % 16 * 4
  ip_udp : u8 ipHeader 9 = 17
  udp_length : udpHeader.length = 8
  few_answers : answers.length < 65536

namespace DnsPacket

variable (p : DnsPacket)

def isResponse : Bool := 128 ≤ p.flagsHi.toNat

def header : CStr :=
  be16 p.id.toNat ++ [p.flagsHi, p.flagsLo] ++ be16 1 ++ be16 p.answers.length ++
    be16 p.nscount.toNat ++ be16 p.arcount.toNat

def afterQuestion : CStr := p.answers.flatMap DnsRecord.wire ++ p.rest

def data : CStr :=
  p.header ++ (p.question.wire ++ (be16 p.qtype.toNat ++ be16 p.qclass.toNat ++ p.afterQuestion))

def bytes : CStr := p.ipHeader ++ p.udpHeader ++ p.data

end DnsPacket

/-! ## Reading a name -/

theorem label_length {l : Label} : (UInt8.ofNat l.bytes.length).toNat = l.bytes.length := by
  have hshort := l.short
  rw [UInt8.toNat_ofNat']
  omega

/-- The length byte of a label is neither the root nor a pointer. -/
theorem label_byte (l : Label) : UInt8.ofNat l.bytes.length &&& 0xC0 ≠ 0xC0 ∧
    UInt8.ofNat l.bytes.length ≠ 0 := by
  have hpos := List.length_pos_iff.mpr l.ne_nil
  have hshort := l.short
  generalize l.bytes.length = n at hpos hshort
  interval_cases n <;> decide

/-- What one turn does to the name written so far. -/
def appendLabel (out : CStr) (l : Label) : CStr :=
  (if out = [] then [] else out ++ [46]) ++ l.bytes

theorem dnsParseQname_label {outsz n : Nat} {out rest : CStr} {l : Label}
    (hfits : (appendLabel out l).length < outsz) :
    dnsParseQname outsz (n + 1) (l.wire ++ rest) out =
      dnsParseQname outsz n rest (appendLabel out l) := by
  obtain ⟨hpointer, hroot⟩ := label_byte l
  have hpos := List.length_pos_iff.mpr l.ne_nil
  rw [appendLabel, List.length_append] at hfits
  rw [Label.wire, List.cons_append, dnsParseQname, if_neg hpointer, if_neg hroot, label_length,
    if_neg (by simp), if_neg ?_, if_neg (by omega), List.drop_left, List.take_left, appendLabel]
  rintro ⟨hne, hfull⟩
  rw [if_neg hne, List.length_append, List.length_singleton] at hfits
  omega

/-- Behind a first label every label gets its dot. -/
theorem foldl_appendLabel {out : CStr} (ls : List Label) (h : out ≠ []) :
    ls.foldl appendLabel out = out ++ ls.flatMap fun l => 46 :: l.bytes := by
  induction ls generalizing out with
  | nil => exact (List.append_nil out).symm
  | cons l ls ih =>
    have hne : appendLabel out l ≠ [] := by
      rw [appendLabel, if_neg h]
      simp
    rw [List.foldl_cons, ih hne, appendLabel, if_neg h, List.flatMap_cons]
    simp

theorem joinWith_cons (sep : UInt8) (part : CStr) (parts : List CStr) :
    joinWith sep (part :: parts) = part ++ parts.flatMap fun q => sep :: q := by
  induction parts generalizing part with
  | nil => exact (List.append_nil part).symm
  | cons q parts ih => rw [joinWith, ih, List.flatMap_cons, List.cons_append]

theorem foldl_labels (ls : List Label) : ls.foldl appendLabel [] = labelsText ls := by
  cases ls with
  | nil => rfl
  | cons l ls =>
    rw [labelsText, List.map_cons, joinWith_cons, List.foldl_cons]
    exact (foldl_appendLabel ls l.ne_nil).trans (by rw [List.flatMap_map])

theorem length_le_appendLabel (out : CStr) (l : Label) : out.length ≤ (appendLabel out l).length := by
  unfold appendLabel
  split
  · next h => simp [h]
  · simp only [List.length_append]
    omega

theorem length_le_foldl (out : CStr) (ls : List Label) :
    out.length ≤ (ls.foldl appendLabel out).length := by
  induction ls generalizing out with
  | nil => exact Nat.le_refl _
  | cons l ls ih => exact (length_le_appendLabel out l).trans (ih _)

theorem dnsParseQname_labels {outsz n : Nat} {out rest : CStr} {ls : List Label}
    (hn : ls.length < n) (hfits : (ls.foldl appendLabel out).length < outsz) :
    dnsParseQname outsz n (labelsWire ls ++ 0 :: rest) out = (ls.foldl appendLabel out, some rest) := by
  induction ls generalizing n out with
  | nil =>
    obtain ⟨n, rfl⟩ := Nat.exists_eq_succ_of_ne_zero (Nat.ne_of_gt hn)
    rfl
  | cons l ls ih =>
    obtain ⟨n, rfl⟩ := Nat.exists_eq_succ_of_ne_zero (Nat.ne_of_gt (Nat.zero_lt_of_lt hn))
    have hlabel : (appendLabel out l).length < outsz :=
      (length_le_foldl (appendLabel out l) ls).trans_lt hfits
    rw [labelsWire, List.flatMap_cons, List.append_assoc, dnsParseQname_label hlabel]
    exact ih (Nat.lt_of_succ_lt_succ hn) hfits

/-- A label takes a byte at least. -/
theorem length_le_labelsWire (ls : List Label) : ls.length ≤ (labelsWire ls).length := by
  induction ls with
  | nil => exact Nat.le_refl _
  | cons l ls ih =>
    rw [labelsWire] at ih
    rw [labelsWire, List.flatMap_cons, List.length_append, Label.wire]
    simp only [List.length_cons]
    omega

theorem dnsParseQname_name (n : DnsName) (rest : CStr) :
    dnsParseQname pfDomainMax ((n.wire ++ rest).length + 1) (n.wire ++ rest) [] =
      (n.domain.chars, some rest) := by
  have hlen := length_le_labelsWire n.labels
  have hfuel : n.labels.length < (n.wire ++ rest).length + 1 := by
    rw [DnsName.wire, List.length_append, List.length_append]
    omega
  generalize (n.wire ++ rest).length + 1 = fuel at hfuel
  rw [DnsName.wire, List.append_assoc, List.singleton_append,
    dnsParseQname_labels hfuel (by rw [foldl_labels]; exact n.fits), foldl_labels]
  rfl

theorem DnsName.nonempty (n : DnsName) : n.domain.nonempty = true := by
  have hne : labelsText n.labels ≠ [] := by
    refine joinWith_ne_nil (mt List.map_eq_nil_iff.mp n.ne_nil) fun q hq => ?_
    obtain ⟨l, -, rfl⟩ := List.mem_map.mp hq
    exact l.ne_nil
  simpa [CBuf.nonempty, DnsName.domain] using hne

/-! ## Reading an owner -/

theorem skipOwner_end (n : Nat) (stop : NameEnd) (rest : CStr) :
    skipOwner (n + 1) (stop.wire ++ rest) = some rest := by
  cases stop with
  | root => rfl
  | pointer hi lo mark =>
    show (if hi &&& 0xC0 = 0xC0 then some rest else _) = some rest
    rw [if_pos mark]

theorem skipOwner_owner {n : Nat} (ls : List Label) (stop : NameEnd) (rest : CStr)
    (hn : ls.length < n) :
    skipOwner n (labelsWire ls ++ stop.wire ++ rest) = some rest := by
  induction ls generalizing n with
  | nil =>
    obtain ⟨n, rfl⟩ := Nat.exists_eq_succ_of_ne_zero (Nat.ne_of_gt hn)
    exact skipOwner_end n stop rest
  | cons l ls ih =>
    obtain ⟨n, rfl⟩ := Nat.exists_eq_succ_of_ne_zero (Nat.ne_of_gt (Nat.zero_lt_of_lt hn))
    obtain ⟨hpointer, hroot⟩ := label_byte l
    rw [labelsWire, List.flatMap_cons, Label.wire, List.cons_append, List.cons_append, List.cons_append,
      skipOwner, if_neg hpointer, if_neg hroot, label_length, List.append_assoc, List.append_assoc,
      if_neg (by simp), List.drop_left, ← List.append_assoc]
    exact ih (Nat.lt_of_succ_lt_succ hn)

/-! ## Reading the answers -/

/-- What the callback keeps of a record. -/
def DnsRecord.kept (r : DnsRecord) : Option (CBuf 46 × Nat) :=
  recordAddress r.rtype.toNat r.ttl.toNat r.rdata

/-- The text of an address fits the buffer it is printed to. -/
theorem kept_address (r : DnsRecord) : r.kept.map (fun a => a.1.chars) = r.address := by
  unfold DnsRecord.kept recordAddress DnsRecord.address
  by_cases ha : r.rtype = 1
  · have hlen := r.a_length ha
    have htext := (inetNtop4_text r.rdata hlen).2
    rw [if_pos ⟨UInt16.toNat_inj.mpr ha, hlen⟩, if_pos ha, Option.map_some,
      CBuf.snprintf_of_fits htext.fits htext.noNul]
  · rw [if_neg fun h => ha (UInt16.toNat_inj.mp h.1), if_neg ha]
    by_cases haaaa : r.rtype = 28
    · have hlen := r.aaaa_length haaaa
      have htext := inetNtop6_text hlen
      rw [if_pos ⟨UInt16.toNat_inj.mpr haaaa, hlen⟩, if_pos haaaa, Option.map_some,
        CBuf.snprintf_of_fits htext.fits htext.noNul]
    · rw [if_neg fun h => haaaa (UInt16.toNat_inj.mp h.1), if_neg haaaa, Option.map_none]

/-- An address is kept for its TTL at least. -/
theorem kept_ttl {r : DnsRecord} {a : CBuf 46 × Nat} (h : r.kept = some a) :
    clampTtl r.ttl.toNat ≤ a.2 := by
  unfold DnsRecord.kept recordAddress at h
  split at h
  · obtain rfl := Option.some.inj h
    exact Nat.le_refl _
  · split at h
    · obtain rfl := Option.some.inj h
      exact clampTtl_le r.ttl.toNat
    · cases h

theorem u16be_body_type (r : DnsRecord) (rest : CStr) :
    u16be (r.body ++ rest) 0 = r.rtype.toNat :=
  u16be_be16 r.rtype.toNat_lt

theorem u32be_body_ttl (r : DnsRecord) (rest : CStr) :
    u32be (r.body ++ rest) 4 = r.ttl.toNat := by
  have httl := r.ttl.toNat_lt
  have hhi : u16be (r.body ++ rest) 4 = r.ttl.toNat / 65536 := u16be_be16 (by omega)
  have hlo : u16be (r.body ++ rest) 6 = r.ttl.toNat % 65536 := u16be_be16 (by omega)
  rw [u32be, hhi, hlo]
  omega

theorem u16be_body_length (r : DnsRecord) (rest : CStr) :
    u16be (r.body ++ rest) 8 = r.rdata.length :=
  u16be_be16 r.short

theorem drop_body (r : DnsRecord) (rest : CStr) : (r.body ++ rest).drop 10 = r.rdata ++ rest := rfl

theorem answerAddresses_record (n : Nat) (r : DnsRecord) (rest : CStr) :
    answerAddresses (n + 1) (r.wire ++ rest) =
      r.kept.toList ++ answerAddresses n rest := by
  have hfuel : r.owner.length < (r.wire ++ rest).length + 1 := by
    have hlen := length_le_labelsWire r.owner
    simp only [DnsRecord.wire, List.length_append]
    omega
  have hskip : skipOwner ((r.wire ++ rest).length + 1) (r.wire ++ rest) = some (r.body ++ rest) := by
    generalize (r.wire ++ rest).length + 1 = fuel at hfuel
    rw [DnsRecord.wire, List.append_assoc]
    exact skipOwner_owner r.owner r.ownerEnd (r.body ++ rest) hfuel
  have hne : r.wire ++ rest ≠ [] := by
    intro hnil
    rw [hnil] at hskip
    cases hskip
  have hlen : 10 ≤ (r.body ++ rest).length := Nat.le_add_left 10 _
  rw [answerAddresses, if_neg hne, hskip]
  dsimp only
  rw [u16be_body_length, drop_body, u16be_body_type, u32be_body_ttl, List.take_left, List.drop_left,
    if_neg (not_or.mpr ⟨Nat.not_lt.mpr hlen, by simp⟩), DnsRecord.kept]

theorem answerAddresses_records (rs : List DnsRecord) (rest : CStr) :
    answerAddresses rs.length (rs.flatMap DnsRecord.wire ++ rest) = rs.filterMap DnsRecord.kept := by
  induction rs with
  | nil => rfl
  | cons r rs ih =>
    rw [List.length_cons, List.flatMap_cons, List.append_assoc, answerAddresses_record, ih]
    cases h : r.kept with
    | none => rw [List.filterMap_cons_none h, Option.toList_none, List.nil_append]
    | some a => rw [List.filterMap_cons_some h, Option.toList_some, List.singleton_append]

/-! ## Reading a packet -/

namespace DnsPacket

variable (p : DnsPacket)

theorem dnsPayload_bytes : dnsPayload p.bytes = some p.data := by
  have hmin := p.ip_min
  have hip := p.ip_length
  have hudp := p.udp_length
  have hdata : 12 ≤ p.data.length := Nat.le_add_left 12 _
  have hlen : p.bytes.length = p.ipHeader.length + 8 + p.data.length := by
    rw [bytes, List.length_append, List.length_append, hudp]
  have hihl : u8 p.bytes 0 % 16 * 4 = p.ipHeader.length := by
    rw [bytes, List.append_assoc, u8_append (by omega), hip]
  have hproto : u8 p.bytes 9 = 17 := by
    rw [bytes, List.append_assoc, u8_append (by omega), p.ip_udp]
  unfold dnsPayload
  dsimp only
  rw [hihl, if_neg (by omega), if_neg (by omega), if_neg (by omega), if_neg (by omega),
    if_neg (by omega), ← hudp, ← List.length_append, bytes, List.drop_left]

theorem readQuestion_data : readQuestion p.data = (p.question.domain, p.afterQuestion) := by
  have hdrop : p.data.drop 12 =
      p.question.wire ++ (be16 p.qtype.toNat ++ be16 p.qclass.toNat ++ p.afterQuestion) := rfl
  have hcount : u16be p.data 4 = 1 := u16be_be16 (n := 1) (by decide)
  unfold readQuestion
  dsimp only
  rw [hdrop, hcount, if_pos Nat.one_pos, dnsParseQname_name, CBuf.snprintf_chars]
  rfl

/-- The message is read as it was written. -/
theorem readDns_bytes : readDns p.bytes = some ⟨p.question.domain, p.isResponse,
    if p.isResponse then p.answers.filterMap DnsRecord.kept else []⟩ := by
  have hflags : u8 p.data 2 = p.flagsHi.toNat := rfl
  have hcount : u16be p.data 6 = p.answers.length := u16be_be16 p.few_answers
  have hname := p.question.nonempty
  rw [readDns, dnsPayload_bytes, Option.bind_some, readMessage, readQuestion_data]
  dsimp only
  rw [if_pos hname, hflags, hcount, afterQuestion, answerAddresses_records]
  rfl

end DnsPacket

/-! ## The smallest packets -/

/-- An address for the name of the question. -/
def aRecord (a b c d : UInt8) (ttl : UInt32) : DnsRecord where
  owner := []
  ownerEnd := .pointer 0xC0 12 rfl
  rtype := 1
  rclass := 1
  ttl := ttl
  rdata := [a, b, c, d]
  short := show 4 < 65536 by decide
  a_length _ := rfl
  aaaa_length h := absurd h (by decide)

def nameA : DnsName := ⟨[⟨lit "a", by decide, by decide⟩], List.cons_ne_nil _ _, by decide, by decide⟩

/-- A packet about `a`. -/
def packetA (flagsHi : UInt8) (answers : List DnsRecord) (h : answers.length < 65536) : DnsPacket where
  ipHeader := [0x45, 0, 0, 0, 0, 0, 0, 0, 64, 17, 0, 0, 10, 0, 0, 1, 10, 0, 0, 2]
  udpHeader := List.replicate 8 0
  id := 1
  flagsHi := flagsHi
  flagsLo := 0
  nscount := 0
  arcount := 0
  question := nameA
  qtype := 1
  qclass := 1
  answers := answers
  rest := []
  ip_min := Nat.le_refl 20
  ip_length := rfl
  ip_udp := rfl
  udp_length := rfl
  few_answers := h

end Proxiflare.Daemon
