import Proxiflare.Daemon.Sni

/-!
# What follows the first record

The lengths inside a hello are checked against the end of the buffer, not of the record.
So a record whose extension block runs past its end can be completed by the bytes that
follow it. `leavesOpen` reads the record alone, with zeros where it ends, and says
whether some bytes after it would give a name; if none would, no bytes change the name.
-/

namespace Proxiflare.Guarantees.FirstRecord

open Lib.CString
open Proxiflare.Daemon

def firstRecord (data : CStr) : CStr := data.take (5 + u16be data 3)

/-- The server name extension with its body in `[off, sniEnd)` can still name a host. -/
def openName (record : CStr) (off sniEnd : Nat) : Bool :=
  u8 record (off + 2) = 0 && (u16be record (off + 3) ≠ 0 || record.length < off + 5) &&
    off + 5 + max 1 (u16be record (off + 3)) ≤ sniEnd

/-- So can the extensions in `[off, extsEnd)`. A server name takes ten bytes at least. -/
def openExtensions (record : CStr) (extsEnd : Nat) : Nat → Nat → Bool
  | 0, _ => false
  | n + 1, off =>
    let extType := u16be record off
    let extLen := u16be record (off + 2)
    if extsEnd < off + 4 then false
    else if off + 4 ≤ record.length then
      if extsEnd < off + 4 + extLen then false
      else if extType = 0 then openName record (off + 4) (off + 4 + extLen)
      else openExtensions record extsEnd n (off + 4 + extLen)
    else if extType = 0 then off + 4 + max 6 extLen ≤ extsEnd
    else off + 4 + extLen + 10 ≤ extsEnd

/-- Bytes after the record can make it a hello with a name. -/
def leavesOpen (record : CStr) : Bool :=
  let off := extensionsAt record + 2
  let extsEnd := off + u16be record (extensionsAt record)
  u8 record 0 = 0x16 && u8 record 1 = 3 && (record.length ≤ 5 || u8 record 5 = 1) &&
    (record.length < off ||
      record.length < extsEnd && openExtensions record extsEnd extsEnd off)

theorem leavesOpen_iff {record : CStr} :
    leavesOpen record = true ↔
      (u8 record 0 = 0x16 ∧ u8 record 1 = 3 ∧ (record.length ≤ 5 ∨ u8 record 5 = 1)) ∧
      (record.length < extensionsAt record + 2 ∨
        record.length < extensionsAt record + 2 + u16be record (extensionsAt record) ∧
        openExtensions record (extensionsAt record + 2 + u16be record (extensionsAt record))
          (extensionsAt record + 2 + u16be record (extensionsAt record))
          (extensionsAt record + 2) = true) := by
  simp only [leavesOpen, Bool.and_eq_true, Bool.or_eq_true, decide_eq_true_eq, and_assoc]

/-! ## Reading past the record -/

variable {record data other : CStr} {outMax extsEnd n off : Nat}

/-- `data` starts with `record`. -/
theorem u8_of_isPrefix (h : record <+: data) {i : Nat} (hi : i < record.length) :
    u8 data i = u8 record i := by
  obtain ⟨rest, rfl⟩ := h
  rw [u8, u8, List.getD_eq_getElem?_getD, List.getD_eq_getElem?_getD, List.getElem?_append_left hi]

theorem u8_beyond {i : Nat} (hi : record.length ≤ i) : u8 record i = 0 := by
  rw [u8, List.getD_eq_getElem?_getD, List.getElem?_eq_none hi]
  rfl

theorem u8_le_of_isPrefix (h : record <+: data) (i : Nat) : u8 record i ≤ u8 data i := by
  rcases Nat.lt_or_ge i record.length with hi | hi
  · exact Nat.le_of_eq (u8_of_isPrefix h hi).symm
  · rw [u8_beyond hi]
    exact Nat.zero_le _

theorem u16be_of_isPrefix (h : record <+: data) {i : Nat} (hi : i + 1 < record.length) :
    u16be data i = u16be record i := by
  rw [u16be, u16be, u8_of_isPrefix h (by omega), u8_of_isPrefix h hi]

theorem u16be_le_of_prefix (h : record <+: data) (i : Nat) : u16be record i ≤ u16be data i :=
  Nat.add_le_add (Nat.mul_le_mul_right _ (u8_le_of_isPrefix h i)) (u8_le_of_isPrefix h (i + 1))

/-- Where the length of the extensions stands is the same as far as the record reaches. -/
theorem extensionsAt_of_isPrefix (h : record <+: data)
    (hat : extensionsAt record ≤ record.length) : extensionsAt data = extensionsAt record := by
  have hrecord : extensionsAt record = 44 + u8 record 43 + 2 + u16be record (44 + u8 record 43) + 1 +
      u8 record (44 + u8 record 43 + 2 + u16be record (44 + u8 record 43)) := rfl
  have hdata : extensionsAt data = 44 + u8 data 43 + 2 + u16be data (44 + u8 data 43) + 1 +
      u8 data (44 + u8 data 43 + 2 + u16be data (44 + u8 data 43)) := rfl
  rw [hdata, u8_of_isPrefix h (by omega), u16be_of_isPrefix h (by omega), u8_of_isPrefix h (by omega),
    ← hrecord]

/-! ## Where nothing is open, no bytes give a name -/

theorem sniHostName_eq_none (h : record <+: data) (hopen : openName record off extsEnd = false) :
    sniHostName data outMax off extsEnd = none := by
  rw [Option.eq_none_iff_forall_ne_some]
  intro name hname
  obtain ⟨⟨htype, hne, hend⟩, -⟩ := sniHostName_eq_some_iff.mp hname
  have htype' := u8_le_of_isPrefix h (off + 2)
  have hlen := u16be_le_of_prefix h (off + 3)
  have hzero : u16be record (off + 3) = 0 → record.length < off + 5 := by
    intro hzero
    by_contra hlong
    have hsame := u16be_of_isPrefix h (show off + 3 + 1 < record.length by omega)
    omega
  simp only [openName, Bool.and_eq_false_iff, Bool.or_eq_false_iff, decide_eq_false_iff_not] at hopen
  omega

/-- A name needs ten bytes. -/
theorem sniExtensions_room {name : CStr} (h : sniExtensions data outMax extsEnd n off = some name) :
    off + 10 ≤ extsEnd := by
  induction n generalizing off with
  | zero => cases h
  | succ n ih =>
    rw [sniExtensions_succ] at h
    split at h
    · split at h
      · split at h
        · obtain ⟨⟨-, hne, hend⟩, -⟩ := sniHostName_eq_some_iff.mp h
          omega
        · have := ih h
          omega
      · cases h
    · cases h

theorem sniExtensions_eq_none (h : record <+: data)
    (hopen : openExtensions record extsEnd n off = false) (hn : extsEnd < n + off) :
    sniExtensions data outMax extsEnd n off = none := by
  induction n generalizing off with
  | zero => rfl
  | succ n ih =>
    have hlen := u16be_le_of_prefix h (off + 2)
    rw [sniExtensions_succ]
    simp only [openExtensions] at hopen
    split at hopen
    · next hshort => exact if_neg (by omega)
    · next hheader =>
      rw [if_pos (by omega)]
      split at hopen
      · next hin =>
        rw [u16be_of_isPrefix h (by omega), u16be_of_isPrefix h (by omega)]
        split at hopen
        · next hover => exact if_neg (by omega)
        · next hfits =>
          rw [if_pos (by omega)]
          split at hopen
          · next htype => rw [if_pos htype, sniHostName_eq_none h hopen]
          · next htype => rw [if_neg htype, ih hopen (by omega)]
      · next hout =>
        -- part of the header is beyond the record
        have htype := u16be_le_of_prefix h off
        rw [Option.eq_none_iff_forall_ne_some]
        intro name hname
        split at hname
        · split at hname
          · obtain ⟨⟨-, hne, hend⟩, -⟩ := sniHostName_eq_some_iff.mp hname
            rw [if_pos (by omega)] at hopen
            simp only [decide_eq_false_iff_not] at hopen
            omega
          · have hroom := sniExtensions_room hname
            split at hopen <;> simp only [decide_eq_false_iff_not] at hopen <;> omega
        · cases hname

/-! ## Where the block ends in the record, it is read in the record -/

theorem drop_take_of_prefix (h : record <+: data) {i k : Nat} (hk : i + k ≤ record.length) :
    (data.drop i).take k = (record.drop i).take k := by
  obtain ⟨rest, rfl⟩ := h
  rw [List.drop_append_of_le_length (by omega), List.take_append_of_le_length]
  rw [List.length_drop]
  omega

theorem sniHostName_of_isPrefix (h : record <+: data) (hend : extsEnd ≤ record.length) :
    sniHostName data outMax off extsEnd = sniHostName record outMax off extsEnd := by
  ext name
  rw [sniHostName_eq_some_iff, sniHostName_eq_some_iff]
  have hcopy : ∀ n, off + 5 + n ≤ extsEnd →
      (data.drop (off + 5)).take (if outMax ≤ n then outMax - 1 else n) =
        (record.drop (off + 5)).take (if outMax ≤ n then outMax - 1 else n) := by
    intro n hn
    exact drop_take_of_prefix h (by split <;> omega)
  constructor
  · rintro ⟨⟨htype, hne, hfits⟩, rfl⟩
    rw [hcopy _ hfits]
    rw [u8_of_isPrefix h (by omega)] at htype
    rw [u16be_of_isPrefix h (by omega)] at hne hfits ⊢
    exact ⟨⟨htype, hne, hfits⟩, rfl⟩
  · rintro ⟨⟨htype, hne, hfits⟩, rfl⟩
    rw [← hcopy _ hfits]
    rw [← u8_of_isPrefix h (by omega)] at htype
    rw [← u16be_of_isPrefix h (by omega)] at hne hfits ⊢
    exact ⟨⟨htype, hne, hfits⟩, rfl⟩

theorem sniExtensions_of_prefix (h : record <+: data) (hend : extsEnd ≤ record.length) :
    sniExtensions data outMax extsEnd n off = sniExtensions record outMax extsEnd n off := by
  induction n generalizing off with
  | zero => rfl
  | succ n ih =>
    rw [sniExtensions_succ, sniExtensions_succ]
    split
    · rw [u16be_of_isPrefix h (by omega), u16be_of_isPrefix h (by omega)]
      split
      · rw [sniHostName_of_isPrefix h (by omega), ih]
      · rfl
    · rfl

/-- The loop ends before its turns are used up. -/
theorem sniExtensions_turns {m : Nat} (hn : extsEnd < n + off) (hm : extsEnd < m + off) :
    sniExtensions data outMax extsEnd n off = sniExtensions data outMax extsEnd m off := by
  induction n generalizing m off with
  | zero =>
    cases m with
    | zero => rfl
    | succ m => rw [sniExtensions_succ, if_neg (by omega), sniExtensions]
  | succ n ih =>
    cases m with
    | zero => rw [sniExtensions_succ, if_neg (by omega), sniExtensions]
    | succ m =>
      rw [sniExtensions_succ, sniExtensions_succ]
      split
      · rw [ih (m := m) (by omega) (by omega)]
      · rfl

theorem pfSniExtract_of_hello (hmax : outMax ≠ 0) (hhello : helloExtensions data = some (off, extsEnd))
    (hn : extsEnd < n + off) :
    pfSniExtract data outMax = sniExtensions data outMax extsEnd n off := by
  obtain ⟨-, hoff, -, hend⟩ := helloExtensions_eq_some_iff.mp hhello
  rw [pfSniExtract, if_neg hmax, hhello, Option.bind_some]
  exact sniExtensions_turns (by omega) hn

theorem pfSniExtract_of_not_hello (h : helloExtensions data = none) :
    pfSniExtract data outMax = none := by
  rw [pfSniExtract, h]
  exact ite_self _

/-- A hello in the record is one in every buffer that starts with it. -/
theorem helloExtensions_of_isPrefix (h : record <+: data)
    (hhello : helloExtensions record = some (off, extsEnd)) :
    helloExtensions data = some (off, extsEnd) := by
  obtain ⟨⟨hcontent, hmajor, htype, hrecord⟩, hoff, hend, hfits⟩ :=
    helloExtensions_eq_some_iff.mp hhello
  have hat : 44 ≤ extensionsAt record := by
    rw [extensionsAt]
    omega
  have hlen := h.length_le
  rw [helloExtensions_eq_some_iff, extensionsAt_of_isPrefix h (by omega), u8_of_isPrefix h (by omega),
    u8_of_isPrefix h (by omega), u8_of_isPrefix h (by omega), u16be_of_isPrefix h (by omega),
    u16be_of_isPrefix h (by omega)]
  exact ⟨⟨hcontent, hmajor, htype, by omega⟩, hoff, hend, by omega⟩

theorem pfSniExtract_of_closed (h : record <+: data) (hrecord : 5 + u16be record 3 = record.length)
    (hclosed : ¬ leavesOpen record = true) (outMax : Nat) :
    pfSniExtract data outMax = pfSniExtract record outMax := by
  by_cases hmax : outMax = 0
  · rw [pfSniExtract, pfSniExtract, if_pos hmax, if_pos hmax]
  cases hdata : helloExtensions data with
  | none =>
    have hnone : helloExtensions record = none := by
      cases hhello : helloExtensions record with
      | none => rfl
      | some exts => rw [helloExtensions_of_isPrefix h hhello] at hdata; cases hdata
    rw [pfSniExtract_of_not_hello hdata, pfSniExtract_of_not_hello hnone]
  | some exts =>
    obtain ⟨start, extsEnd⟩ := exts
    obtain ⟨⟨hcontent, hmajor, htype, -⟩, hstart, hend, -⟩ := helloExtensions_eq_some_iff.mp hdata
    rw [u8_of_isPrefix h (by omega)] at hcontent hmajor
    have htype' : record.length ≤ 5 ∨ u8 record 5 = 1 := by
      rcases Nat.lt_or_ge 5 record.length with hlong | hshort
      · exact .inr ((u8_of_isPrefix h hlong).symm.trans htype)
      · exact .inl hshort
    have hlong : ¬ record.length < extensionsAt record + 2 := fun hshort =>
      hclosed (leavesOpen_iff.mpr ⟨⟨hcontent, hmajor, htype'⟩, .inl hshort⟩)
    rw [extensionsAt_of_isPrefix h (by omega)] at hstart hend
    rw [u16be_of_isPrefix h (by omega)] at hend
    rw [pfSniExtract_of_hello (n := extsEnd) hmax hdata (by omega)]
    rcases Nat.lt_or_ge record.length extsEnd with hover | hinside
    · -- the block overruns the record, and nothing in it is open
      have hnone : helloExtensions record = none := by
        rw [Option.eq_none_iff_forall_ne_some]
        rintro ⟨s, e⟩ hhello
        obtain ⟨-, hs, he, hfits⟩ := helloExtensions_eq_some_iff.mp hhello
        omega
      have hexts : openExtensions record extsEnd extsEnd start = false := by
        rw [Bool.eq_false_iff]
        intro hexts
        rw [hend, hstart] at hexts hover
        exact hclosed (leavesOpen_iff.mpr ⟨⟨hcontent, hmajor, htype'⟩, .inr ⟨hover, hexts⟩⟩)
      rw [pfSniExtract_of_not_hello hnone, sniExtensions_eq_none h hexts (by omega)]
    · have hhello : helloExtensions record = some (start, extsEnd) := by
        have hat : 44 ≤ extensionsAt record := by
          rw [extensionsAt]
          omega
        rw [u8_of_isPrefix h (by omega)] at htype
        exact helloExtensions_eq_some_iff.mpr
          ⟨⟨hcontent, hmajor, htype, Nat.le_of_eq hrecord⟩, hstart, hend, hinside⟩
      rw [pfSniExtract_of_hello (n := extsEnd) hmax hhello (by omega),
        sniExtensions_of_prefix h hinside]

/-! ## Where something is open, some bytes give a name -/

/-- The record followed by `n` bytes, `fill i` at `i`. -/
def complete (record : CStr) (fill : Nat → Nat) (n : Nat) : CStr :=
  record ++ (List.range n).map fun i => UInt8.ofNat (fill (record.length + i))

theorem prefix_complete (record : CStr) (fill : Nat → Nat) (n : Nat) :
    record <+: complete record fill n := List.prefix_append _ _

theorem length_complete (record : CStr) (fill : Nat → Nat) (n : Nat) :
    (complete record fill n).length = record.length + n := by
  rw [complete, List.length_append, List.length_map, List.length_range]

theorem u8_complete {fill : Nat → Nat} {i : Nat} (hfill : ∀ i, fill i < 256)
    (hi : record.length ≤ i) (hn : i < record.length + n) : u8 (complete record fill n) i = fill i := by
  have hlt := hfill i
  have hat : record.length + (i - record.length) = i := by omega
  rw [u8, complete, List.getD_eq_getElem?_getD, List.getElem?_append_right hi, List.getElem?_map,
    List.getElem?_range (by omega), Option.map_some, Option.getD_some, hat, UInt8.toNat_ofNat']
  exact Nat.mod_eq_of_lt hlt

/-- A server name extension with a name of one byte. -/
theorem sniExtensions_bare (htype : u16be data off = 0) (hlen : 6 ≤ u16be data (off + 2))
    (hend : off + 4 + u16be data (off + 2) ≤ extsEnd) (hhost : u8 data (off + 6) = 0)
    (hname : u16be data (off + 7) = 1) (hn : extsEnd < n + off) :
    (sniExtensions data outMax extsEnd n off).isSome := by
  cases n with
  | zero => omega
  | succ n =>
    rw [sniExtensions_succ, if_pos (by omega), if_pos hend, if_pos htype,
      sniHostName_eq_some_iff.mpr ⟨⟨hhost, by rw [hname]; decide, ?_⟩, rfl⟩]
    · rfl
    · rw [show off + 4 + 3 = off + 7 from rfl, hname]
      omega

/-- `data` starts with the record and holds `fill` from its end to `extsEnd`. -/
structure Filled (record data : CStr) (extsEnd : Nat) (fill : Nat → Nat) : Prop where
  starts : record <+: data
  after : ∀ i, record.length ≤ i → i < extsEnd → u8 data i = fill i

theorem filled_complete (record : CStr) {fill : Nat → Nat} {extsEnd n : Nat}
    (hfill : ∀ i, fill i < 256) (hn : extsEnd ≤ record.length + n) :
    Filled record (complete record fill n) extsEnd fill :=
  ⟨prefix_complete _ _ _, fun _ hi hlt => u8_complete hfill hi (by omega)⟩

section Filled

variable {fill : Nat → Nat} {i : Nat}

/-- Where the filling is zero the record alone says what is read. -/
theorem Filled.u8_zero (h : Filled record data extsEnd fill) (hi : i < extsEnd) (hz : fill i = 0) :
    u8 data i = u8 record i := by
  rcases Nat.lt_or_ge i record.length with hin | hout
  · exact u8_of_isPrefix h.starts hin
  · rw [h.after i hout hi, hz, u8_beyond hout]

theorem Filled.u16be_zero (h : Filled record data extsEnd fill) (hi : i + 1 < extsEnd)
    (hz : fill i = 0) (hz' : fill (i + 1) = 0) : u16be data i = u16be record i := by
  rw [u16be, u16be, h.u8_zero (by omega) hz, h.u8_zero hi hz']

/-- Where it is zero in the first of two bytes beyond the record. -/
theorem Filled.u16be_low (h : Filled record data extsEnd fill) (hi : i + 1 < extsEnd)
    (hz : fill i = 0) (hout : record.length ≤ i + 1) :
    u16be data i = u16be record i + fill (i + 1) := by
  rw [u16be, u16be, h.u8_zero (by omega) hz, h.after (i + 1) hout hi, u8_beyond hout]
  omega

end Filled

/-- Zeros but for the length 6 of an extension at `off` and the length 1 of the name in it. -/
def bareName (off : Nat) : Nat → Nat :=
  fun i => if i = off + 3 then 6 else if i = off + 8 then 1 else 0

theorem bareName_lt (off i : Nat) : bareName off i < 256 := by
  rw [bareName]
  split
  · decide
  · split <;> decide

/-- A name in an extension that is wholly beyond the record. -/
theorem sniExtensions_bareName (h : ∀ i, off ≤ i → i < extsEnd → u8 data i = bareName off i)
    (hend : off + 10 ≤ extsEnd) (hn : extsEnd < n + off) :
    (sniExtensions data outMax extsEnd n off).isSome := by
  have hzero : ∀ i, off ≤ i → i < extsEnd → i ≠ off + 3 → i ≠ off + 8 → u8 data i = 0 := by
    intro i hi hlt h3 h8
    rw [h i hi hlt, bareName, if_neg h3, if_neg h8]
  have hsix : u8 data (off + 3) = 6 := by
    rw [h _ (by omega) (by omega), bareName, if_pos rfl]
  have hone : u8 data (off + 8) = 1 := by
    rw [h _ (by omega) (by omega), bareName, if_neg (by omega), if_pos rfl]
  have hlen : u16be data (off + 2) = 6 := by
    rw [u16be, hzero (off + 2) (by omega) (by omega) (by omega) (by omega), hsix]
  apply sniExtensions_bare
  · rw [u16be, hzero off (by omega) (by omega) (by omega) (by omega),
      hzero (off + 1) (by omega) (by omega) (by omega) (by omega)]
  · rw [hlen]
  · rw [hlen]
    exact hend
  · exact hzero _ (by omega) (by omega) (by omega) (by omega)
  · rw [u16be, hzero (off + 7) (by omega) (by omega) (by omega) (by omega), hone]
  · exact hn

/-- What the bytes after the record must be for a name in the extensions from `off` on. -/
theorem exists_fill (hn : extsEnd < n + off) (hopen : openExtensions record extsEnd n off = true) :
    ∃ fill : Nat → Nat, (∀ i, fill i < 256) ∧ ∀ data, Filled record data extsEnd fill →
      (sniExtensions data outMax extsEnd n off).isSome := by
  induction n generalizing off with
  | zero => cases hopen
  | succ n ih =>
    simp only [openExtensions] at hopen
    split at hopen
    · cases hopen
    next hheader =>
    split at hopen
    · next hin =>
      split at hopen
      · cases hopen
      next hfits =>
      split at hopen
      · next htype =>
        -- the low byte of the length of the name is at `off + 8`
        obtain ⟨⟨hhost, hne⟩, hend⟩ : (u8 record (off + 6) = 0 ∧
            (u16be record (off + 7) ≠ 0 ∨ record.length < off + 9)) ∧
            off + 9 + max 1 (u16be record (off + 7)) ≤ off + 4 + u16be record (off + 2) := by
          simpa only [openName, Bool.and_eq_true, Bool.or_eq_true, decide_eq_true_eq] using hopen
        refine ⟨fun i => if i = off + 8 then 1 - u16be record (off + 7) else 0, fun i => ?_,
          fun data h => ?_⟩
        · dsimp only
          split <;> omega
        have hname : u16be data (off + 7) = max 1 (u16be record (off + 7)) := by
          rcases Nat.lt_or_ge (off + 8) record.length with hin | hout
          · rw [u16be_of_isPrefix h.starts hin]
            omega
          · rw [h.u16be_low (by omega) (if_neg (by omega)) hout, if_pos rfl]
            omega
        have hhost' : u8 data (off + 6) = 0 :=
          (h.u8_zero (by omega) (if_neg (by omega))).trans hhost
        rw [sniExtensions_succ, u16be_of_isPrefix h.starts (by omega),
          u16be_of_isPrefix h.starts (by omega), if_pos (by omega), if_pos (by omega), if_pos htype,
          sniHostName_eq_some_iff.mpr ⟨⟨hhost', ?_, ?_⟩, rfl⟩]
        · rfl
        · show u16be data (off + 7) ≠ 0
          omega
        · show off + 9 + u16be data (off + 7) ≤ _
          omega
      · next htype =>
        obtain ⟨fill, hlt, hfill⟩ := ih (by omega) hopen
        refine ⟨fill, hlt, fun data h => ?_⟩
        rw [sniExtensions_succ, u16be_of_isPrefix h.starts (by omega),
          u16be_of_isPrefix h.starts (by omega), if_pos (by omega), if_pos (by omega), if_neg htype]
        exact hfill data h
    · next hout =>
      split at hopen
      · next htype =>
        -- the length of the extension is what it must be at least
        have hroom := of_decide_eq_true hopen
        have hlow : u8 record (off + 3) = 0 := u8_beyond (by omega)
        refine ⟨fun i => if i = off + 3 then 6 - u16be record (off + 2) else
          if i = off + 8 then 1 else 0, fun i => ?_, fun data h => ?_⟩
        · dsimp only
          split
          · omega
          · split <;> decide
        have hz : ∀ i, i < off + 8 → i ≠ off + 3 → (if i = off + 3 then 6 - u16be record (off + 2) else
            if i = off + 8 then 1 else 0) = 0 := by
          intro i hi h3
          rw [if_neg h3, if_neg (by omega)]
        have hlen : u16be data (off + 2) = max 6 (u16be record (off + 2)) := by
          rw [h.u16be_low (by omega) (hz _ (by omega) (by omega)) (by omega), if_pos rfl]
          omega
        apply sniExtensions_bare
        · rw [h.u16be_zero (by omega) (hz _ (by omega) (by omega)) (hz _ (by omega) (by omega))]
          exact htype
        · omega
        · omega
        · rw [h.u8_zero (by omega) (hz _ (by omega) (by omega)), u8_beyond (by omega)]
        · rw [h.u16be_low (by omega) (hz _ (by omega) (by omega)) (by omega),
            if_neg (by omega), if_pos rfl, u16be, u8_beyond (by omega), u8_beyond (by omega)]
        · exact hn
      · next htype =>
        -- this extension is passed over, a server name follows
        have hroom := of_decide_eq_true hopen
        have hz : ∀ i, i < off + 4 → bareName (off + 4 + u16be record (off + 2)) i = 0 := by
          intro i hi
          rw [bareName, if_neg (by omega), if_neg (by omega)]
        refine ⟨_, bareName_lt (off + 4 + u16be record (off + 2)), fun data h => ?_⟩
        rw [sniExtensions_succ, if_pos (by omega),
          h.u16be_zero (i := off) (by omega) (hz _ (by omega)) (hz _ (by omega)),
          h.u16be_zero (i := off + 2) (by omega) (hz _ (by omega)) (hz _ (by omega)),
          if_pos (by omega), if_neg htype]
        exact sniExtensions_bareName (fun i hi => h.after i (by omega)) hroom (by omega)

/-- The record ends before the length of the extensions: all of them may follow. -/
theorem exists_extensions (hrecord : 5 + u16be record 3 = record.length) (hmax : outMax ≠ 0)
    (hcontent : u8 record 0 = 0x16) (hmajor : u8 record 1 = 3)
    (htype : record.length ≤ 5 ∨ u8 record 5 = 1)
    (hshort : record.length < extensionsAt record + 2) :
    ∃ data, record <+: data ∧ (pfSniExtract data outMax).isSome := by
  have hlarge : 47 ≤ extensionsAt record := by
    rw [extensionsAt]
    omega
  let fill : Nat → Nat := fun i =>
    if i = 5 then 1 else if i = extensionsAt record + 1 then 10 else
      bareName (extensionsAt record + 2) i
  have hfill : ∀ i, fill i < 256 := by
    intro i
    show (if i = 5 then 1 else if i = extensionsAt record + 1 then 10 else _) < 256
    split
    · decide
    · split
      · decide
      · exact bareName_lt _ _
  have hzero : ∀ i, i ≠ 5 → i ≤ extensionsAt record → fill i = 0 := by
    intro i h5 hi
    show (if i = 5 then 1 else if i = extensionsAt record + 1 then 10 else bareName _ _) = 0
    rw [if_neg h5, if_neg (by omega), bareName, if_neg (by omega), if_neg (by omega)]
  obtain ⟨extsEnd, hend⟩ : ∃ extsEnd, extsEnd = extensionsAt record + 2 +
    (u16be record (extensionsAt record) + 10) := ⟨_, rfl⟩
  have h : Filled record (complete record fill extsEnd) extsEnd fill :=
    filled_complete record hfill (by omega)
  have hlen := length_complete record fill extsEnd
  generalize complete record fill extsEnd = data at h hlen
  have hat : extensionsAt data = extensionsAt record := by
    have hX : extensionsAt record = 44 + u8 record 43 + 2 + u16be record (44 + u8 record 43) + 1 +
      u8 record (44 + u8 record 43 + 2 + u16be record (44 + u8 record 43)) := rfl
    have hX' : extensionsAt data = 44 + u8 data 43 + 2 + u16be data (44 + u8 data 43) + 1 +
      u8 data (44 + u8 data 43 + 2 + u16be data (44 + u8 data 43)) := rfl
    rw [hX', h.u8_zero (i := 43) (by omega) (hzero _ (by omega) (by omega)),
      h.u16be_zero (by omega) (hzero _ (by omega) (by omega)) (hzero _ (by omega) (by omega)),
      h.u8_zero (by omega) (hzero _ (by omega) (by omega)), ← hX]
  have htotal : u16be data (extensionsAt record) = u16be record (extensionsAt record) + 10 := by
    rw [h.u16be_low (by omega) (hzero _ (by omega) (Nat.le_refl _)) (by omega)]
    show _ + (if _ then _ else if _ then _ else _) = _
    rw [if_neg (by omega), if_pos rfl]
  have hone : u8 data 5 = 1 := by
    rcases Nat.lt_or_ge 5 record.length with hin | hout
    · rw [u8_of_isPrefix h.starts hin]
      exact htype.resolve_left (by omega)
    · exact h.after 5 hout (by omega)
  have hhello : helloExtensions data = some (extensionsAt record + 2, extsEnd) := by
    rw [helloExtensions_eq_some_iff, hat, u8_of_isPrefix h.starts (by omega),
      u8_of_isPrefix h.starts (by omega), u16be_of_isPrefix h.starts (by omega), htotal]
    exact ⟨⟨hcontent, hmajor, hone, by omega⟩, rfl, hend, by omega⟩
  refine ⟨data, h.starts, ?_⟩
  rw [pfSniExtract_of_hello (n := extsEnd) hmax hhello (by omega)]
  refine sniExtensions_bareName (fun i hi hlt => ?_) (by omega) (by omega)
  rw [h.after i (by omega) hlt]
  show (if _ then _ else if _ then _ else _) = _
  rw [if_neg (by omega), if_neg (by omega)]

theorem exists_name (hrecord : 5 + u16be record 3 = record.length) (hmax : outMax ≠ 0)
    (hopen : leavesOpen record = true) :
    ∃ data, record <+: data ∧ (pfSniExtract data outMax).isSome := by
  obtain ⟨⟨hcontent, hmajor, htype⟩, hblock⟩ := leavesOpen_iff.mp hopen
  rcases Nat.lt_or_ge record.length (extensionsAt record + 2) with hshort | hlong
  · exact exists_extensions hrecord hmax hcontent hmajor htype hshort
  obtain ⟨hover, hexts⟩ := hblock.resolve_left (by omega)
  obtain ⟨extsEnd, hend⟩ : ∃ extsEnd, extsEnd = extensionsAt record + 2 +
    u16be record (extensionsAt record) := ⟨_, rfl⟩
  rw [← hend] at hover hexts
  have hat : 44 ≤ extensionsAt record := by
    rw [extensionsAt]
    omega
  obtain ⟨fill, hfill, hname⟩ := exists_fill (by omega) hexts
  have h := filled_complete record hfill (Nat.le_add_left extsEnd record.length)
  have hlen := length_complete record fill extsEnd
  generalize complete record fill extsEnd = data at h hlen
  have hhello : helloExtensions data = some (extensionsAt record + 2, extsEnd) := by
    rw [helloExtensions_eq_some_iff, extensionsAt_of_isPrefix h.starts (by omega),
      u8_of_isPrefix h.starts (by omega), u8_of_isPrefix h.starts (by omega),
      u8_of_isPrefix h.starts (by omega), u16be_of_isPrefix h.starts (by omega),
      u16be_of_isPrefix h.starts (by omega)]
    exact ⟨⟨hcontent, hmajor, htype.resolve_left (by omega), by omega⟩, rfl, hend, by omega⟩
  refine ⟨data, h.starts, ?_⟩
  rw [pfSniExtract_of_hello (n := extsEnd) hmax hhello (by omega)]
  exact hname data h

/-- The record alone has no name while something is open. -/
theorem pfSniExtract_of_open (hopen : leavesOpen record = true) :
    pfSniExtract record outMax = none := by
  obtain ⟨-, hblock⟩ := leavesOpen_iff.mp hopen
  apply pfSniExtract_of_not_hello
  rw [Option.eq_none_iff_forall_ne_some]
  rintro ⟨start, extsEnd⟩ hhello
  obtain ⟨-, hstart, hend, hfits⟩ := helloExtensions_eq_some_iff.mp hhello
  rcases hblock with hshort | ⟨hover, -⟩
  · omega
  · omega

/-! ## The name of a record -/

/-- Every buffer with the same first record gives the same name. -/
def RecordDecides (data : CStr) : Prop :=
  ∀ other : CStr, 5 + u16be data 3 ≤ other.length →
    other.take (5 + u16be data 3) = data.take (5 + u16be data 3) →
    ∀ outMax, pfSniExtract other outMax = pfSniExtract data outMax

/-- For every buffer that holds its first record. -/
theorem first_record_decides_iff (data : CStr) (hwhole : 5 + u16be data 3 ≤ data.length) :
    RecordDecides data ↔ leavesOpen (firstRecord data) = false := by
  have hstarts : firstRecord data <+: data := List.take_prefix _ _
  have hlen : (firstRecord data).length = 5 + u16be data 3 := by
    rw [firstRecord, List.length_take]
    omega
  have hrecord : 5 + u16be (firstRecord data) 3 = (firstRecord data).length := by
    rw [hlen, u16be_of_isPrefix hstarts (by omega)]
  rw [← Bool.not_eq_true]
  constructor
  · intro hdecides hopen
    have htwo : 2 ≠ 0 := by decide
    obtain ⟨other, hother, hname⟩ := exists_name hrecord htwo hopen
    have hsame : other.take (5 + u16be data 3) = firstRecord data := by
      rw [← hlen]
      exact (List.prefix_iff_eq_take.mp hother).symm
    have hlong := hother.length_le
    rw [hdecides other (by omega) hsame 2,
      ← hdecides (firstRecord data) (Nat.le_of_eq hlen.symm) (by rw [firstRecord, List.take_take,
        Nat.min_self]) 2, pfSniExtract_of_open hopen] at hname
    cases hname
  · intro hclosed other hlong hsame outMax
    have hother : firstRecord data <+: other := by
      rw [firstRecord, ← hsame]
      exact List.take_prefix _ _
    rw [pfSniExtract_of_closed hother hrecord hclosed, pfSniExtract_of_closed hstarts hrecord hclosed]

/-- A hello for a host of one byte, in a record of `recordLen` bytes. -/
def oneByteHello (recordLen host : UInt8) : CStr :=
  [0x16, 3, 1, 0, recordLen, 1, 0, 0, 53, 3, 3] ++ List.replicate 32 5 ++
    [0, 0, 2, 0x13, 1, 1, 0, 0, 10, 0, 0, 0, 6, 0, 4, 0, 0, 1, host]

theorem whole_record_decides : RecordDecides (oneByteHello 57 97) :=
  (first_record_decides_iff (oneByteHello 57 97) (by decide +kernel)).mpr (by decide +kernel)

/-- The record is a byte shorter than its hello: the byte after it is the name. -/
theorem short_record_gives_two_names :
    (oneByteHello 56 98).take 61 = (oneByteHello 56 97).take 61 ∧
      pfSniExtract (oneByteHello 56 97) 253 = some [97] ∧
      pfSniExtract (oneByteHello 56 98) 253 = some [98] ∧ ¬ RecordDecides (oneByteHello 56 97) := by
  have hsame : (oneByteHello 56 98).take 61 = (oneByteHello 56 97).take 61 := by decide +kernel
  have hfirst : pfSniExtract (oneByteHello 56 97) 253 = some [97] := by decide +kernel
  have hother : pfSniExtract (oneByteHello 56 98) 253 = some [98] := by decide +kernel
  refine ⟨hsame, hfirst, hother, fun hdecides => ?_⟩
  have hnames := hdecides (oneByteHello 56 98) (by decide +kernel) hsame 253
  rw [hfirst, hother] at hnames
  exact absurd hnames (by decide)

end Proxiflare.Guarantees.FirstRecord
