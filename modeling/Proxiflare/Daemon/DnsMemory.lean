import Proxiflare.Daemon.Dns
import Proxiflare.Daemon.SniMemory

/-!
# `dns.c` on its packet

`dns_callback` and `dns_parse_qname` with offsets into the packet for pointers, and every
access to the packet and to `domain` checked. The addresses go into the cache as the
answers are read. Where no access faults it is the callback of `Dns`.
-/

namespace Proxiflare.Daemon.Memory

open Lib Lib.CString Lib.CBody

/-! ## Names -/

/-- A stretch of `dns_parse_qname`: it writes `out` and returns a pointer or NULL. -/
abbrev QnameBody := CBody (Option Nat) CStr

/-- `memcpy(out + written, …)`. -/
def writeOut (written : Nat) (bytes : CStr) : QnameBody Unit := do
  let out ← get
  let out ← store out written bytes
  modify fun _ => out

/-- The dot between labels. -/
def separate (outsz written : Nat) : QnameBody Nat :=
  if 0 < written then do
    require (written + 1 < outsz) none
    writeOut written [46]
    pure (written + 1)
  else pure written

def copyLabel (pkt : CStr) (outsz len ptr written : Nat) : QnameBody (Nat × Nat) := do
  require (written + len < outsz) none
  let label ← loadRange pkt ptr len
  writeOut written label
  pure (ptr + len, written + len)

/-- One turn of `while (ptr < end)`, with `ptr` and `written`. -/
def qnameTurn (pkt : CStr) (outsz : Nat) (at' : Nat × Nat) : QnameBody ((Nat × Nat) ⊕ (Nat × Nat)) :=
  let (ptr, written) := at'
  if ptr < pkt.length then do
    let len ← load pkt ptr
    let ptr := ptr + 1
    if len &&& 0xC0 = 0xC0 then
      require (ptr < pkt.length) none
      pure (.inr (ptr + 1, written))
    else if len = 0 then pure (.inr (ptr, written))
    else
      require (ptr + len.toNat ≤ pkt.length) none
      let written ← separate outsz written
      let next ← copyLabel pkt outsz len.toNat ptr written
      pure (.inl next)
  else pure (.inr (ptr, written))

def dnsParseQname (pkt : CStr) (outsz turns ptr : Nat) : QnameBody (Option Nat) := do
  writeOut 0 [0]
  let (ptr, written) ← loop (qnameTurn pkt outsz) turns (ptr, 0)
  writeOut written [0]
  pure (some ptr)

/-! ## The callback -/

/-- A stretch of `dns_callback`: it writes the cache; every `goto accept` returns. -/
abbrev Callback := CBody Unit Dns

def u32be (pkt : CStr) (ptr : Nat) : Callback Nat := do
  let high ← u16be pkt ptr
  let low ← u16be pkt (ptr + 2)
  pure (high * 65536 + low)

/-- One turn over an owner name; it leaves with the end of the name, or `none` for `broken`. -/
def ownerTurn (pkt : CStr) (ptr : Nat) : Callback (Nat ⊕ Option Nat) :=
  if ptr < pkt.length then do
    let b ← load pkt ptr
    if b &&& 0xC0 = 0xC0 then
      pure (.inr (if pkt.length < ptr + 2 then none else some (ptr + 2)))
    else if b = 0 then pure (.inr (some (ptr + 1)))
    else if pkt.length < ptr + 1 + b.toNat then pure (.inr none)
    else pure (.inl (ptr + 1 + b.toNat))
  else pure (.inr (some ptr))

/-- An A or AAAA record of `rdlength` bytes at `ptr` updates the cache. -/
def useRecord (rs : Ruleset) (domain pkt : CStr) (rtype rttl rdlength ptr : Nat) : Callback Unit :=
  if rtype = 1 ∧ rdlength = 4 then do
    let rdata ← loadRange pkt ptr 4
    let name ← loadUntil domain 0
    modify fun d => updateAddress rs (.snprintf name) d (.snprintf (inetNtop4 rdata), clampTtl rttl)
  else if rtype = 28 ∧ rdlength = 16 then do
    let rdata ← loadRange pkt ptr 16
    let name ← loadUntil domain 0
    modify fun d => updateAddress rs (.snprintf name) d (.snprintf (inetNtop6 rdata), pfDnsTtl)
  else pure ()

/-- One turn of the answer loop, with `i` and `ptr`. -/
def answerTurn (rs : Ruleset) (domain pkt : CStr) (ancount turns : Nat) (at' : Nat × Nat) :
    Callback ((Nat × Nat) ⊕ Unit) :=
  let (i, ptr) := at'
  if i < ancount ∧ ptr < pkt.length then do
    match ← loop (ownerTurn pkt) turns ptr with
    | none => pure (.inr ())
    | some ptr =>
      if pkt.length < ptr + 10 then pure (.inr ())
      else
        let rtype ← u16be pkt ptr
        let rttl ← u32be pkt (ptr + 4)
        let rdlength ← u16be pkt (ptr + 8)
        let ptr := ptr + 10
        if pkt.length < ptr + rdlength then pure (.inr ())
        else
          useRecord rs domain pkt rtype rttl rdlength ptr
          pure (.inl (i + 1, ptr + rdlength))
  else pure (.inr ())

/-- Where the DNS data starts. -/
def dnsData (pkt : CStr) : Callback Nat := do
  require (20 ≤ pkt.length) ()
  let version ← u8 pkt 0
  let ipHlen := version % 16 * 4
  require (20 ≤ ipHlen ∧ ipHlen ≤ pkt.length) ()
  let protocol ← u8 pkt 9
  require (protocol = 17) ()
  require (ipHlen + 8 ≤ pkt.length) ()
  require (12 ≤ pkt.length - ipHlen - 8) ()
  pure (ipHlen + 8)

/-- The question: where the answers start, and `domain`, which was zeroed. -/
def question (pkt : CStr) (qdcount turns ptr : Nat) : Callback (Nat × CStr) :=
  if 0 < qdcount then do
    let (after, domain) ←
      callOn (dnsParseQname pkt pfDomainMax turns ptr) (List.replicate pfDomainMax 0)
    pure (match after with | some after => after + 4 | none => ptr, domain)
  else pure (ptr, List.replicate pfDomainMax 0)

/-- No loop may take more than `turns` turns. -/
def dnsCallback (rs : Ruleset) (pkt : CStr) (turns : Nat) : Callback Unit := do
  let data ← dnsData pkt
  let flagsHi ← u8 pkt (data + 2)
  -- the transaction id is read and not used
  let _ ← u16be pkt data
  let qdcount ← u16be pkt (data + 4)
  let ancount ← u16be pkt (data + 6)
  let (ptr, domain) ← question pkt qdcount turns (data + 12)
  let first ← load domain 0
  require (first ≠ 0) ()
  if flagsHi < 128 then
    let name ← loadUntil domain 0
    modify fun d => pfDnsCacheAdd d name [] (matchRoute rs name)
  else
    require (ancount ≠ 0) ()
    loop (answerTurn rs domain pkt ancount turns) turns (0, ptr)

/-! ## A name is read as the reader reads it -/

variable {pkt out : CStr} {outsz turns n ptr : Nat}

theorem meets_writeOut {bytes : CStr} {R : Option Nat → CStr → Prop} {Q : Unit → CStr → Prop}
    (h : out.length + bytes.length ≤ outsz) (hQ : Q () (padded outsz 0 (out ++ bytes))) :
    Meets (writeOut out.length bytes) (padded outsz 0 out) R Q := by
  simp only [writeOut, meets_bind, meets_get, meets_store, meets_modify, overwrite_padded]
  rw [length_padded (by omega)]
  exact ⟨h, hQ⟩

/-- The name so far with the dot for one more label. -/
def dotted (out : CStr) : CStr := if out = [] then [] else out ++ [46]

theorem length_dotted (h : out ≠ []) : (dotted out).length = out.length + 1 := by
  rw [dotted, if_neg h, List.length_append, List.length_singleton]

theorem meets_separate {R : Option Nat → CStr → Prop} {Q : Nat → CStr → Prop}
    (hroom : out.length < outsz)
    (hfull : out ≠ [] ∧ outsz ≤ out.length + 1 → R none (padded outsz 0 out))
    (hdot : (dotted out).length < outsz → Q (dotted out).length (padded outsz 0 (dotted out))) :
    Meets (separate outsz out.length) (padded outsz 0 out) R Q := by
  rw [separate]
  split
  · next hpos =>
    have hne := List.ne_nil_of_length_pos hpos
    have hlen := length_dotted hne
    rw [meets_bind, meets_require]
    split
    · next hlt =>
      rw [meets_bind]
      apply meets_writeOut
      · exact Nat.le_of_lt hlt
      · have hQ := hdot (by omega)
        rw [hlen, dotted, if_neg hne] at hQ
        exact hQ
    · next hlt => exact hfull ⟨hne, by omega⟩
  · next hpos =>
    obtain rfl := List.length_eq_zero_iff.mp (show out.length = 0 by omega)
    exact hdot hroom

/-- The pointer and `written` where the decoder is, when it has `n` turns left. -/
structure QnameAt (pkt : CStr) (outsz n : Nat) (result : CStr × Option CStr) (at' : Nat × Nat)
    (t : CStr) (out : CStr) : Prop where
  inside : at'.1 ≤ pkt.length
  enough : pkt.length < n + at'.1
  written : at'.2 = out.length
  room : out.length < outsz
  buffer : t = padded outsz 0 out
  goes : Daemon.dnsParseQname outsz n (pkt.drop at'.1) out = result

/-- What `out` and the pointer returned are in the end. -/
def QnameEnds (pkt : CStr) (outsz : Nat) (result : CStr × Option CStr) (after : Option Nat)
    (t : CStr) : Prop :=
  result.1.length < outsz ∧ t = padded outsz 0 result.1 ∧
    match after with
    | some p => p ≤ pkt.length ∧ result.2 = some (pkt.drop p)
    | none => result.2 = none

theorem meets_qnameTurn {result : CStr × Option CStr} {at' : Nat × Nat} {t : CStr}
    (h : QnameAt pkt outsz n result at' t out) :
    Meets (qnameTurn pkt outsz at') t (fun r t => r = none ∧ QnameEnds pkt outsz result none t)
      (Sum.elim
        (fun next t => pkt.length - next.1 < pkt.length - at'.1 ∧
          ∃ n out, QnameAt pkt outsz n result next t out)
        fun last t => last.2 = result.1.length ∧
          QnameEnds pkt outsz result (some last.1) t) := by
  obtain ⟨ptr, written⟩ := at'
  obtain ⟨hin, hn, rfl, hroom, rfl, hgoes⟩ := h
  dsimp only at hin hn hgoes ⊢
  obtain ⟨n, rfl⟩ := Nat.exists_eq_succ_of_ne_zero (show n ≠ 0 by omega)
  rw [qnameTurn]
  split
  · next hlt =>
    have hempty : pkt.drop (ptr + 1) = [] ↔ ¬ ptr + 1 < pkt.length := by
      rw [List.drop_eq_nil_iff, Nat.not_lt]
    rw [List.drop_eq_getElem_cons hlt, Daemon.dnsParseQname, List.length_drop, List.drop_drop,
      List.tail_drop] at hgoes
    rw [meets_bind, meets_load]
    refine ⟨hlt, ?_⟩
    generalize pkt[ptr] = len at hgoes ⊢
    dsimp only at hgoes ⊢
    split
    · next hpointer =>
      rw [if_pos hpointer] at hgoes
      rw [meets_bind, meets_require]
      split
      · next hnext =>
        rw [if_neg (fun h => hempty.mp h hnext)] at hgoes
        subst hgoes
        exact ⟨rfl, hroom, rfl, by omega, rfl⟩
      · next hnext =>
        rw [if_pos (hempty.mpr hnext)] at hgoes
        subst hgoes
        exact ⟨rfl, hroom, rfl, rfl⟩
    · next hpointer =>
      rw [if_neg hpointer] at hgoes
      split
      · next hroot =>
        rw [if_pos hroot] at hgoes
        subst hgoes
        exact ⟨rfl, hroom, rfl, by omega, rfl⟩
      · next hroot =>
        rw [if_neg hroot] at hgoes
        rw [meets_bind, meets_require]
        split
        · next hfits =>
          rw [if_neg (by omega)] at hgoes
          rw [meets_bind]
          apply meets_separate hroom
          · intro hfull
            rw [if_pos hfull] at hgoes
            subst hgoes
            exact ⟨rfl, hroom, rfl, rfl⟩
          · intro hdotted
            have hdot : ¬ (out ≠ [] ∧ outsz ≤ out.length + 1) := by
              rintro ⟨hne, hfull⟩
              rw [length_dotted hne] at hdotted
              omega
            rw [if_neg hdot] at hgoes
            change (if outsz ≤ (dotted out).length + _ then (dotted out, none) else
              Daemon.dnsParseQname outsz n _ (dotted out ++ _)) = result at hgoes
            rw [meets_bind, copyLabel, meets_bind, meets_require]
            split
            · next hlabel =>
              rw [if_neg (by omega)] at hgoes
              rw [meets_bind, meets_loadRange, meets_bind]
              have hlen : ((pkt.drop (ptr + 1)).take len.toNat).length = len.toNat := by
                rw [List.length_take, List.length_drop]
                omega
              refine ⟨hfits, meets_writeOut (by omega) ?_⟩
              refine ⟨show pkt.length - (ptr + 1 + len.toNat) < pkt.length - ptr by omega, n,
                dotted out ++ (pkt.drop (ptr + 1)).take len.toNat, ?_⟩
              refine ⟨hfits, ?_, ?_, ?_, rfl, hgoes⟩
              · show pkt.length < n + (ptr + 1 + len.toNat)
                omega
              · show (dotted out).length + len.toNat = _
                rw [List.length_append, hlen]
              · rw [List.length_append, hlen]
                exact hlabel
            · next hlabel =>
              rw [if_pos (by omega)] at hgoes
              subst hgoes
              exact ⟨rfl, hdotted, rfl, rfl⟩
        · next hfits =>
          rw [if_pos (by omega)] at hgoes
          subst hgoes
          exact ⟨rfl, hroom, rfl, rfl⟩
  · next hge =>
    rw [List.drop_of_length_le (by omega), Daemon.dnsParseQname] at hgoes
    subst hgoes
    exact ⟨rfl, hroom, rfl, hin, by rw [List.drop_of_length_le (by omega)]⟩

/-- `out` was zeroed by the caller. -/
theorem call_dnsParseQname {turns : Nat} (hsize : 0 < outsz) (hptr : ptr ≤ pkt.length)
    (hturns : pkt.length < turns) (hn : pkt.length < n + ptr) :
    ∃ after t, call (dnsParseQname pkt outsz turns ptr) (List.replicate outsz 0) = some (after, t) ∧
      QnameEnds pkt outsz (Daemon.dnsParseQname outsz n (pkt.drop ptr) []) after t := by
  apply Meets.call
  generalize hresult : Daemon.dnsParseQname outsz n (pkt.drop ptr) [] = result
  have hzero : List.replicate outsz (0 : UInt8) = padded outsz 0 [] := rfl
  rw [dnsParseQname, meets_bind, hzero]
  have hstart : ([] : CStr).length < outsz := hsize
  refine meets_writeOut hstart ?_
  rw [padded_append hstart, meets_bind]
  apply meets_loop (fun at' t => ∃ n out, QnameAt pkt outsz n result at' t out)
    fun at' => pkt.length - at'.1
  · rintro at' t ⟨n, out, hat⟩
    refine (meets_qnameTurn hat).mono ?_ ?_
    · rintro _ _ ⟨rfl, hends⟩
      exact hends
    · rintro (next | ⟨last, written⟩) t h
      · exact ⟨h.2, h.1⟩
      · obtain ⟨hwritten, hroom, rfl, hin, hrest⟩ := h
        obtain rfl : written = _ := hwritten
        rw [Sum.elim_inr, meets_bind]
        apply meets_writeOut
        · exact hroom
        rw [padded_append hroom]
        exact ⟨hroom, rfl, hin, hrest⟩
  · exact ⟨n, [], hptr, hn, rfl, hsize, rfl, hresult⟩
  · show pkt.length - ptr < turns
    omega

/-! ## The answers -/

theorem u8_drop (pkt : CStr) (k i : Nat) : Daemon.u8 (pkt.drop k) i = Daemon.u8 pkt (k + i) := by
  rw [Daemon.u8, Daemon.u8, List.getD_eq_getElem?_getD, List.getD_eq_getElem?_getD,
    List.getElem?_drop]

theorem u16be_drop (pkt : CStr) (k i : Nat) :
    Daemon.u16be (pkt.drop k) i = Daemon.u16be pkt (k + i) := by
  rw [Daemon.u16be, Daemon.u16be, u8_drop, u8_drop, Nat.add_assoc]

theorem u32be_drop (pkt : CStr) (k i : Nat) :
    Daemon.u32be (pkt.drop k) i = Daemon.u32be pkt (k + i) := by
  rw [Daemon.u32be, Daemon.u32be, u16be_drop, u16be_drop, Nat.add_assoc]

theorem u32be_eq (h : ptr + 3 < pkt.length) : u32be pkt ptr = pure (Daemon.u32be pkt ptr) := by
  rw [u32be, u16be_eq (by omega), u16be_eq h]
  rfl

/-- The end of an owner name as a pointer. -/
def OwnerEnds (pkt : CStr) (result : Option CStr) (stop : Option Nat) : Prop :=
  match stop with
  | some p => result = some (pkt.drop p)
  | none => result = none

theorem meets_ownerTurn {d : Dns} {result : Option CStr} (hptr : ptr ≤ pkt.length)
    (hn : pkt.length < n + ptr) (h : skipOwner n (pkt.drop ptr) = result) :
    Meets (ownerTurn pkt ptr) d (fun _ _ => False)
      (Sum.elim
        (fun next t => t = d ∧ ptr < next ∧ next ≤ pkt.length ∧
          ∃ k, pkt.length < k + next ∧ skipOwner k (pkt.drop next) = result)
        fun stop t => t = d ∧ (∀ p ∈ stop, ptr ≤ p) ∧ OwnerEnds pkt result stop) := by
  obtain ⟨n, rfl⟩ := Nat.exists_eq_succ_of_ne_zero (show n ≠ 0 by omega)
  rw [ownerTurn]
  split
  · next hlt =>
    have hempty : pkt.drop (ptr + 1) = [] ↔ pkt.length < ptr + 2 := by
      rw [List.drop_eq_nil_iff, Nat.lt_succ_iff]
    rw [List.drop_eq_getElem_cons hlt, skipOwner, List.length_drop, List.drop_drop,
      List.tail_drop] at h
    rw [meets_bind, meets_load]
    refine ⟨hlt, ?_⟩
    generalize pkt[ptr] = b at h ⊢
    split
    · next hpointer =>
      rw [if_pos hpointer] at h
      by_cases hshort : pkt.length < ptr + 2
      · rw [if_pos (hempty.mpr hshort)] at h
        rw [if_pos hshort]
        exact ⟨rfl, fun p hp => (Option.not_mem_none p hp).elim, h.symm⟩
      · rw [if_neg (fun he => hshort (hempty.mp he))] at h
        rw [if_neg hshort]
        refine ⟨rfl, fun p hp => ?_, h.symm⟩
        obtain rfl := Option.some.inj hp
        omega
    · next hpointer =>
      rw [if_neg hpointer] at h
      split
      · next hroot =>
        rw [if_pos hroot] at h
        refine ⟨rfl, fun p hp => ?_, h.symm⟩
        obtain rfl := Option.some.inj hp
        omega
      · next hroot =>
        rw [if_neg hroot] at h
        split
        · next hover =>
          rw [if_pos (by omega)] at h
          exact ⟨rfl, fun p hp => (Option.not_mem_none p hp).elim, h.symm⟩
        · next hfits =>
          rw [if_neg (by omega)] at h
          exact ⟨rfl, by omega, by omega, n, by omega, h⟩
  · next hge =>
    rw [List.drop_of_length_le (by omega), skipOwner] at h
    refine ⟨rfl, fun p hp => ?_, ?_⟩
    · obtain rfl := Option.some.inj hp
      exact Nat.le_refl _
    · show result = some (pkt.drop ptr)
      rw [List.drop_of_length_le (by omega), h]

theorem meets_owner {d : Dns} {result : Option CStr} {turns : Nat} (hptr : ptr ≤ pkt.length)
    (hturns : pkt.length < turns) (hn : pkt.length < n + ptr)
    (h : skipOwner n (pkt.drop ptr) = result) :
    Meets (loop (ownerTurn pkt) turns ptr) d (fun _ _ => False)
      fun stop t => t = d ∧ (∀ p ∈ stop, ptr ≤ p) ∧ OwnerEnds pkt result stop := by
  apply meets_loop (fun at' t => t = d ∧ ptr ≤ at' ∧ at' ≤ pkt.length ∧
    ∃ k, pkt.length < k + at' ∧ skipOwner k (pkt.drop at') = result) fun at' => pkt.length - at'
  · rintro at' _ ⟨rfl, hle, hin, k, hk, hgoes⟩
    refine (meets_ownerTurn hin hk hgoes).mono (fun _ _ h => h) ?_
    rintro (next | stop) t ht
    · obtain ⟨rfl, hlt, hnext, hrest⟩ := ht
      exact ⟨⟨rfl, by omega, hnext, hrest⟩, by omega⟩
    · obtain ⟨rfl, hstop, hends⟩ := ht
      exact ⟨rfl, fun p hp => Nat.le_trans hle (hstop p hp), hends⟩
  · exact ⟨rfl, Nat.le_refl _, hptr, n, hn, h⟩
  · show pkt.length - ptr < turns
    omega

/-- `buffer` holds `domain` with its terminator. -/
structure HoldsName (buffer : CStr) (domain : CBuf pfDomainMax) : Prop where
  ends : 0 ∈ buffer
  holds : cstr buffer = domain.chars

section Answers

variable {rs : Ruleset} {buffer : CStr} {domain : CBuf pfDomainMax} {d d' : Dns}

theorem meets_useRecord {rtype rttl rdlength : Nat} {R : Unit → Dns → Prop} {Q : Unit → Dns → Prop}
    (hname : HoldsName buffer domain) (hfits : ptr + rdlength ≤ pkt.length)
    (hQ : Q () ((recordAddress rtype rttl ((pkt.drop ptr).take rdlength)).toList.foldl
      (updateAddress rs domain) d)) :
    Meets (useRecord rs buffer pkt rtype rttl rdlength ptr) d R Q := by
  have hlen : ((pkt.drop ptr).take rdlength).length = rdlength := by
    rw [List.length_take, List.length_drop]
    omega
  rw [recordAddress, hlen] at hQ
  rw [useRecord]
  split
  · next ha =>
    rw [if_pos ha, ha.2] at hQ
    rw [meets_bind, meets_loadRange, meets_bind, meets_loadUntil, meets_modify]
    refine ⟨by omega, hname.ends, ?_⟩
    change Q () (updateAddress rs (.snprintf (cstr buffer)) d _)
    rw [hname.holds, CBuf.snprintf_chars]
    exact hQ
  · next ha =>
    rw [if_neg ha] at hQ
    split
    · next haaaa =>
      rw [if_pos haaaa, haaaa.2] at hQ
      rw [meets_bind, meets_loadRange, meets_bind, meets_loadUntil, meets_modify]
      refine ⟨by omega, hname.ends, ?_⟩
      change Q () (updateAddress rs (.snprintf (cstr buffer)) d _)
      rw [hname.holds, CBuf.snprintf_chars]
      exact hQ
    · next haaaa =>
      rw [if_neg haaaa] at hQ
      exact hQ

/-- What is left of the answers still updates the cache to `d'`. -/
def Answers (rs : Ruleset) (domain : CBuf pfDomainMax) (pkt : CStr) (left ptr : Nat) (d d' : Dns) :
    Prop :=
  (answerAddresses left (pkt.drop ptr)).foldl (updateAddress rs domain) d = d'

theorem meets_answerTurn {ancount turns i : Nat} (hname : HoldsName buffer domain)
    (hturns : pkt.length < turns) (h : Answers rs domain pkt (ancount - i) ptr d d') :
    Meets (answerTurn rs buffer pkt ancount turns (i, ptr)) d (fun _ _ => False)
      (Sum.elim
        (fun next t => pkt.length - next.2 < pkt.length - ptr ∧
          Answers rs domain pkt (ancount - next.1) next.2 t d')
        fun _ t => t = d') := by
  rw [answerTurn]
  split
  · next hmore =>
    obtain ⟨left, hleft⟩ := Nat.exists_eq_succ_of_ne_zero (show ancount - i ≠ 0 by omega)
    have hne : pkt.drop ptr ≠ [] := by
      rw [Ne, List.drop_eq_nil_iff]
      omega
    rw [Answers, hleft, answerAddresses, if_neg hne] at h
    rw [meets_bind]
    refine (meets_owner (n := (pkt.drop ptr).length + 1) (by omega) hturns
      (by rw [List.length_drop]; omega) rfl).mono (fun _ _ h => h) ?_
    rintro stop _ ⟨rfl, hstop, hends⟩
    cases stop with
    | none =>
      rw [show skipOwner _ _ = none from hends] at h
      exact h
    | some p =>
      have hle : ptr ≤ p := hstop p rfl
      rw [show skipOwner _ _ = some (pkt.drop p) from hends] at h
      dsimp only at h ⊢
      rw [List.length_drop, List.drop_drop, List.length_drop, u16be_drop, u16be_drop] at h
      split
      · next hshort =>
        rw [if_pos (by omega)] at h
        exact h
      · next hlong =>
        rw [u16be_eq (by omega), u32be_eq (by omega), u16be_eq (by omega), pure_then, pure_then,
          pure_then]
        split
        · next hover =>
          rw [if_pos (by omega)] at h
          exact h
        · next hfits =>
          rw [if_neg (by omega), List.foldl_append, List.drop_drop] at h
          rw [meets_bind]
          apply meets_useRecord hname (by omega)
          refine ⟨show pkt.length - (p + 10 + _) < pkt.length - ptr by omega, ?_⟩
          rw [show ancount - (i + 1) = left by omega]
          rw [u32be_drop] at h
          exact h
  · next hdone =>
    have hnone : answerAddresses (ancount - i) (pkt.drop ptr) = [] := by
      rcases Nat.lt_or_ge i ancount with hi | hi
      · obtain ⟨left, hleft⟩ := Nat.exists_eq_succ_of_ne_zero (show ancount - i ≠ 0 by omega)
        rw [hleft, answerAddresses, if_pos (List.drop_of_length_le (by omega))]
      · rw [Nat.sub_eq_zero_of_le hi, answerAddresses]
    rw [Answers, hnone] at h
    exact h

theorem meets_answers {ancount turns i : Nat} (hname : HoldsName buffer domain)
    (hturns : pkt.length < turns) (h : Answers rs domain pkt (ancount - i) ptr d d') :
    Meets (loop (answerTurn rs buffer pkt ancount turns) turns (i, ptr)) d
      (fun _ t => t = d') fun _ t => t = d' := by
  apply meets_loop (fun at' t => Answers rs domain pkt (ancount - at'.1) at'.2 t d')
    fun at' => pkt.length - at'.2
  · rintro ⟨i, ptr⟩ t hat
    refine (meets_answerTurn hname hturns hat).mono (fun _ _ h => h.elim) ?_
    rintro (next | _) t h
    · exact ⟨h.2, h.1⟩
    · exact h
  · exact h
  · show pkt.length - ptr < turns
    omega

end Answers

/-! ## The whole callback -/

variable {d : Dns}

theorem meets_dnsData :
    Meets (dnsData pkt) d (fun _ t => t = d ∧ dnsPayload pkt = none)
      fun p t => t = d ∧ dnsPayload pkt = some (pkt.drop p) ∧ p + 12 ≤ pkt.length := by
  rw [dnsData, dnsPayload, meets_bind, meets_require]
  dsimp only
  split
  · next hheader =>
    rw [if_neg (by omega), u8_eq (by omega), pure_then, meets_bind, meets_require]
    split
    · next hip =>
      rw [if_neg (by omega), u8_eq (by omega), pure_then, meets_bind, meets_require]
      split
      · next hudp =>
        rw [if_neg (by omega), meets_bind, meets_require]
        split
        · next hports =>
          rw [if_neg (by omega), meets_bind, meets_require]
          split
          · next hdns =>
            rw [if_neg (by omega)]
            exact ⟨rfl, rfl, by omega⟩
          · next hdns => exact ⟨rfl, if_pos (by omega)⟩
        · next hports => exact ⟨rfl, if_pos (by omega)⟩
      · exact ⟨rfl, rfl⟩
    · next hip => exact ⟨rfl, if_pos (by omega)⟩
  · next hheader => exact ⟨rfl, if_pos (by omega)⟩

/-- The name of `readQuestion` is in the buffer, and what is left starts at the pointer. -/
structure Asked (pkt : CStr) (name : CBuf pfDomainMax × CStr) (at' : Nat × CStr) : Prop where
  buffer : HoldsName at'.2 name.1
  size : at'.2.length = pfDomainMax
  rest : name.2 = pkt.drop at'.1

theorem holdsName_padded {out : CStr} (h : out.length < pfDomainMax) :
    HoldsName (padded pfDomainMax 0 out) (.snprintf out) := by
  have hlen := (List.takeWhile_prefix (p := (· ≠ (0 : UInt8))) (l := out)).length_le
  refine ⟨mem_padded h, (takeWhile_padded _ _ _).trans ?_⟩
  exact (List.take_of_length_le (by omega)).symm

/-- The question neither returns nor writes the cache. -/
theorem question_eq {turns k : Nat} (hturns : pkt.length < turns) (hk : k + 12 ≤ pkt.length) :
    ∃ at', question pkt (Daemon.u16be pkt (k + 4)) turns (k + 12) = pure at' ∧
      Asked pkt (readQuestion (pkt.drop k)) at' := by
  rw [question, readQuestion, u16be_drop, List.drop_drop, List.length_drop]
  split
  · have hsize : 0 < pfDomainMax := BufSize.pos
    have hn : pkt.length < pkt.length - (k + 12) + 1 + (k + 12) := by omega
    obtain ⟨after, buffer, hcall, hroom, rfl, hafter⟩ := call_dnsParseQname hsize hk hturns hn
    rw [callOn_eq hcall, pure_then]
    refine ⟨_, rfl, holdsName_padded hroom, length_padded (Nat.le_of_lt hroom), ?_⟩
    cases after with
    | none =>
      rw [show Prod.snd _ = none from hafter]
      rfl
    | some p =>
      rw [hafter.2, Option.map_some, List.drop_drop]
      rfl
  · have hempty : ([] : CStr).length < pfDomainMax := BufSize.pos
    exact ⟨_, rfl, holdsName_padded hempty, List.length_replicate, rfl⟩

/-- The first byte of the buffer says whether there is a name. -/
theorem HoldsName.nonempty_iff {buffer : CStr} {domain : CBuf pfDomainMax}
    (h : HoldsName buffer domain) (h0 : 0 < buffer.length) :
    buffer[0] ≠ 0 ↔ domain.nonempty = true := by
  rw [CBuf.nonempty, ← h.holds]
  cases buffer with
  | nil => cases h0
  | cons b buffer =>
    rw [cstr, List.takeWhile_cons]
    by_cases hb : b = 0
    · simp [hb]
    · simp [hb]

/-- The callback on memory does what the callback does, without a fault. -/
theorem meets_dnsCallback {rs : Ruleset} {turns : Nat} (hturns : pkt.length < turns) :
    Meets (dnsCallback rs pkt turns) d (fun _ t => t = Daemon.dnsCallback rs pkt d)
      fun _ t => t = Daemon.dnsCallback rs pkt d := by
  rw [dnsCallback, Daemon.dnsCallback, readDns, meets_bind]
  refine meets_dnsData.mono ?_ ?_
  · rintro _ _ ⟨rfl, hnone⟩
    rw [hnone]
    rfl
  rintro k _ ⟨rfl, hdata, hk⟩
  rw [hdata, Option.bind_some, readMessage, u8_eq (by omega), u16be_eq (by omega),
    u16be_eq (by omega), u16be_eq (by omega), pure_then, pure_then, pure_then, pure_then,
    u8_drop, u16be_drop]
  obtain ⟨⟨ptr, buffer⟩, hquestion, hasked⟩ := question_eq hturns hk
  rw [hquestion, pure_then]
  generalize readQuestion (pkt.drop k) = name at hasked
  obtain ⟨domain, rest⟩ := name
  obtain ⟨hname, hsize, rfl⟩ := hasked
  have h0 : 0 < buffer.length := by
    rw [hsize]
    decide
  have hnonempty := hname.nonempty_iff h0
  dsimp only
  rw [meets_bind, meets_load]
  refine ⟨h0, ?_⟩
  rw [meets_bind, meets_require]
  split
  · next hfirst =>
    rw [if_pos (hnonempty.mp hfirst)]
    dsimp only
    split
    · next hquery =>
      rw [if_neg (by simpa using hquery), meets_bind, meets_loadUntil, meets_modify]
      refine ⟨hname.ends, ?_⟩
      change pfDnsCacheAdd _ (cstr buffer) [] (matchRoute rs (cstr buffer)) = _
      rw [hname.holds]
    · next hresponse =>
      have h128 : decide (128 ≤ Daemon.u8 pkt (k + 2)) = true := by simpa using hresponse
      rw [if_pos h128, if_pos h128, meets_bind, meets_require]
      split
      · exact meets_answers hname hturns rfl
      · next hnone => rw [not_not.mp hnone, answerAddresses]; rfl
  · next hfirst =>
    rw [if_neg (fun h => hfirst (hnonempty.mpr h))]

end Proxiflare.Daemon.Memory
