import Proxiflare.Daemon.Http
import Proxiflare.Lib.CBody

/-!
# `http_parser.c` on its buffers

Both parsers with offsets into `buf` for pointers, and every access to `buf` and to the
arrays of `pf_http_msg_t` checked. Nothing stands after `buf`. Where no access faults they
are the parsers of `Http`.
-/

namespace Proxiflare.Daemon.Memory

open Lib Lib.CString Lib.CBody

/-- `pf_http_header_t`. -/
structure HttpHeader where
  key : CStr
  value : CStr

/-- `pf_http_msg_t`; `body` is an offset into the buffer or NULL. -/
structure HttpMsg where
  method : CStr
  url : CStr
  version : CStr
  headers : List HttpHeader
  headerCount : Nat
  body : Option Nat
  bodyLen : Nat
  contentLength : Int
  statusCode : Int
  statusText : CStr
  isRequest : Bool
  complete : Bool
  headerEnd : Nat

def HttpHeader.zero : HttpHeader := ⟨List.replicate 256 0, List.replicate pfHttpMaxHeaderLen 0⟩

/-- After the `memset`. -/
def HttpMsg.zero : HttpMsg where
  method := List.replicate 16 0
  url := List.replicate pfHttpMaxUrlLen 0
  version := List.replicate 16 0
  headers := List.replicate pfHttpMaxHeaders .zero
  headerCount := 0
  body := none
  bodyLen := 0
  contentLength := 0
  statusCode := 0
  statusText := List.replicate 64 0
  isRequest := false
  complete := false
  headerEnd := 0

/-! ## Searching, copying, reading a number -/

section Access

variable {ρ σ : Type}

/-- `(size_t)(stop - start)` of two pointers. -/
def distance (start stop : Nat) : CBody ρ σ Nat := if start ≤ stop then pure (stop - start) else fault

/-- `memchr` in `buf[start .. stop)`. -/
def memchrIn (buf : CStr) (start stop : Nat) (c : UInt8) : CBody ρ σ (Option Nat) := do
  let n ← distance start stop
  let bytes ← loadRange buf start n
  pure ((memchr bytes c).map (start + ·))

/-- The `memcpy` of `buf[start .. stop)` to an array, cut to one byte less than its size, and the
number of bytes copied. -/
def copyCut (field buf : CStr) (start stop : Nat) : CBody ρ σ (CStr × Nat) := do
  let n ← distance start stop
  let n := if field.length ≤ n then field.length - 1 else n
  let bytes ← loadRange buf start n
  let field ← store field 0 bytes
  pure (field, n)

def copyTerminated (field buf : CStr) (start stop : Nat) : CBody ρ σ CStr := do
  let (field, n) ← copyCut field buf start stop
  store field n [0]

/-- What is left where `strtol` stops. -/
def afterNumber (s : CStr) : CStr :=
  let unsigned := match s.dropWhile isSpace with
    | 45 :: ds => ds
    | 43 :: ds => ds
    | ds => ds
  unsigned.dropWhile isDigit

/-- `strtol(s + p, NULL, 10)`: it reads up to and with the byte that ends the number. -/
def strtolAt (s : CStr) (p : Nat) : CBody ρ σ Int :=
  if afterNumber (s.drop p) = [] then fault else pure (strtol (s.drop p))

/-- One turn of `for (i = 0; i + 3 < len; i++)`. -/
def headerEndTurn (buf : CStr) (i : Nat) : CBody ρ σ (Nat ⊕ Nat) :=
  if i + 3 < buf.length then do
    let bytes ← loadRange buf i 4
    pure (if bytes = [13, 10, 13, 10] then .inr (i + 4) else .inl (i + 1))
  else pure (.inr 0)

def findHeaderEnd (buf : CStr) (turns : Nat) : CBody ρ σ Nat := loop (headerEndTurn buf) turns 0

/-- One turn of the loop over the blanks before a value. -/
def blankTurn (buf : CStr) (eol val : Nat) : CBody ρ σ (Nat ⊕ Nat) :=
  if val < eol then do
    let b ← load buf val
    pure (if isBlank b then .inl (val + 1) else .inr val)
  else pure (.inr val)

/-- `p[0] == '\r' && p + 1 < end && p[1] == '\n'`. -/
def isClosing (buf : CStr) (stop p : Nat) : CBody ρ σ Bool := do
  let b ← load buf p
  if b = 13 ∧ p + 1 < stop then
    let next ← load buf (p + 1)
    pure (next = 10)
  else pure false

end Access

/-! ## Headers -/

/-- A stretch of a parser: it writes the message and returns an `int`. -/
abbrev HttpBody := CBody Int HttpMsg

/-- The next of the headers, from `buf[p .. eol)` with its colon at `colon`. -/
def addHeader (buf : CStr) (turns p colon eol : Nat) : HttpBody Unit := do
  let msg ← get
  let h ← load msg.headers msg.headerCount
  let key ← copyTerminated h.key buf p colon
  let val ← loop (blankTurn buf eol) turns (colon + 1)
  let value ← copyTerminated h.value buf val eol
  modify fun msg => { msg with
    headers := msg.headers.set msg.headerCount ⟨key, value⟩
    headerCount := msg.headerCount + 1 }

/-- One turn of `while (p < end && …)`. -/
def headerTurn (buf : CStr) (stop turns p : Nat) : HttpBody (Nat ⊕ Unit) := do
  let msg ← get
  if p < stop ∧ msg.headerCount < pfHttpMaxHeaders then
    if ← isClosing buf stop p then pure (.inr ())
    else match ← memchrIn buf p stop 13 with
      | none => pure (.inr ())
      | some eol => match ← memchrIn buf p eol 58 with
        | none => pure (.inl (eol + 2))
        | some colon =>
          addHeader buf turns p colon eol
          pure (.inl (eol + 2))
  else pure (.inr ())

def parseHeaders (buf : CStr) (start len turns : Nat) : HttpBody Unit := do
  modify fun msg => { msg with headerCount := 0 }
  loop (headerTurn buf (start + len) turns) turns start

/-- One turn of the search for a header. -/
def getHeaderTurn (key : CStr) (i : Nat) : HttpBody (Nat ⊕ Option CStr) := do
  let msg ← get
  if i < msg.headerCount then
    let h ← load msg.headers i
    let name ← loadUntil h.key 0
    pure (if strcaseeq name key then .inr (some h.value) else .inl (i + 1))
  else pure (.inr none)

/-- The array of the value, or NULL. -/
def pfHttpGetHeader (key : String) (turns : Nat) : HttpBody (Option CStr) :=
  loop (getHeaderTurn (lit key)) turns 0

/-! ## The two parsers -/

/-- What both do first: `hend` and `eol`. -/
def parseStart (buf : CStr) (isRequest : Bool) (turns : Nat) : HttpBody (Nat × Nat) := do
  require (10 ≤ buf.length) (-1)
  modify fun _ => { HttpMsg.zero with isRequest := isRequest }
  let hend ← findHeaderEnd buf turns
  require (hend ≠ 0) (-1)
  modify fun msg => { msg with headerEnd := hend, complete := true }
  let eol ← orReturn (-1) (← memchrIn buf 0 buf.length 13)
  pure (hend, eol)

def setLength (turns : Nat) : HttpBody Unit := do
  match ← pfHttpGetHeader "Content-Length" turns with
  | some cl =>
    let n ← strtolAt cl 0
    modify fun msg => { msg with contentLength := n % 2 ^ 64 }
  | none => pure ()

def setBody (buf : CStr) (hend : Nat) : HttpBody Unit :=
  if hend < buf.length then
    modify fun msg => { msg with
      body := some hend
      bodyLen := min (buf.length - hend) pfHttpMaxBodyLen }
  else pure ()

/-- What both do last. -/
def parseRest (buf : CStr) (hend eol turns : Nat) : HttpBody Int := do
  let len ← distance (eol + 2) hend
  parseHeaders buf (eol + 2) len turns
  setLength turns
  setBody buf hend
  pure 0

/-- One `memcpy` to a field of the message. -/
def fill (field : HttpMsg → CStr) (set : HttpMsg → CStr → HttpMsg) (buf : CStr) (start stop : Nat) :
    HttpBody Unit := do
  let msg ← get
  let (bytes, _) ← copyCut (field msg) buf start stop
  modify fun msg => set msg bytes

def pfHttpParseRequest (buf : CStr) (turns : Nat) : HttpBody Int := do
  let (hend, eol) ← parseStart buf true turns
  let sp1 ← orReturn (-1) (← memchrIn buf 0 eol 32)
  fill (·.method) (fun msg s => { msg with method := s }) buf 0 sp1
  let sp2 ← orReturn (-1) (← memchrIn buf (sp1 + 1) eol 32)
  fill (·.url) (fun msg s => { msg with url := s }) buf (sp1 + 1) sp2
  fill (·.version) (fun msg s => { msg with version := s }) buf (sp2 + 1) eol
  parseRest buf hend eol turns

def setStatusText (buf : CStr) (p eol : Nat) : HttpBody Unit := do
  match ← memchrIn buf p eol 32 with
  | some sp2 => fill (·.statusText) (fun msg s => { msg with statusText := s }) buf (sp2 + 1) eol
  | none => pure ()

def pfHttpParseResponse (buf : CStr) (turns : Nat) : HttpBody Int := do
  let (hend, eol) ← parseStart buf false turns
  let sp1 ← orReturn (-1) (← memchrIn buf 0 eol 32)
  fill (·.version) (fun msg s => { msg with version := s }) buf 0 sp1
  -- the number is read from the buffer, with no bound
  let status ← strtolAt buf (sp1 + 1)
  modify fun msg => { msg with statusCode := status.bmod (2 ^ 32) }
  setStatusText buf (sp1 + 1) eol
  parseRest buf hend eol turns

/-! ## One fact an access -/

/-- `field` is an array that holds the string `s` with its terminator. -/
structure HoldsText (field s : CStr) : Prop where
  ends : 0 ∈ field
  holds : cstr field = s

section Accesses

variable {ρ σ : Type} {buf : CStr} {start stop size : Nat}

theorem distance_eq (h : start ≤ stop) : (distance start stop : CBody ρ σ Nat) = pure (stop - start) :=
  if_pos h

theorem memchrIn_eq {c : UInt8} (h : start ≤ stop) (hstop : stop ≤ buf.length) :
    (memchrIn buf start stop c : CBody ρ σ (Option Nat)) =
      pure ((memchr ((buf.take stop).drop start) c).map (start + ·)) := by
  rw [memchrIn, distance_eq h, pure_then, loadRange_eq (by omega), pure_then, List.drop_take]

theorem holdsText_padded {bytes : CStr} (hsize : 0 < size) :
    HoldsText (padded size 0 (bytes.take (size - 1))) (copyField size bytes) where
  ends := mem_padded (by rw [List.length_take]; omega)
  holds := takeWhile_padded _ _ _

/-- A copy to an array that was zeroed. -/
theorem copyCut_eq (hsize : 0 < size) (h : start ≤ stop) (hstop : stop ≤ buf.length) :
    (copyCut (List.replicate size 0) buf start stop : CBody ρ σ (CStr × Nat)) =
      pure (padded size 0 (((buf.take stop).drop start).take (size - 1)),
        (((buf.take stop).drop start).take (size - 1)).length) := by
  obtain ⟨n, hn⟩ : ∃ n, n = if size ≤ stop - start then size - 1 else stop - start := ⟨_, rfl⟩
  have hle : n ≤ stop - start := by
    rw [hn]
    split <;> omega
  have hmin : n = min (size - 1) (stop - start) := by
    rw [hn]
    split <;> omega
  have hbytes : (buf.drop start).take n = ((buf.take stop).drop start).take (size - 1) := by
    rw [List.drop_take, List.take_take, hmin]
  have hlen : ((buf.drop start).take n).length = n := by
    rw [List.length_take, List.length_drop]
    omega
  rw [copyCut, distance_eq h, pure_then, List.length_replicate, ← hn]
  dsimp only
  rw [loadRange_eq (by omega), pure_then, ← hbytes, store, hlen, List.length_replicate,
    if_pos (by omega), pure_then]
  exact congrArg (fun field => pure (field, n)) (overwrite_padded [] _)

theorem copyTerminated_eq (hsize : 0 < size) (h : start ≤ stop) (hstop : stop ≤ buf.length) :
    (copyTerminated (List.replicate size 0) buf start stop : CBody ρ σ CStr) =
      pure (padded size 0 (((buf.take stop).drop start).take (size - 1))) := by
  have hlen : (((buf.take stop).drop start).take (size - 1)).length < size := by
    rw [List.length_take]
    omega
  rw [copyTerminated, copyCut_eq hsize h hstop, pure_then]
  dsimp only
  rw [store, length_padded (Nat.le_of_lt hlen), List.length_singleton, if_pos (Nat.succ_le_of_lt hlen),
    overwrite_padded, padded_append hlen]

theorem zero_mem_dropWhile {p : UInt8 → Bool} {s : CStr} (hp : p 0 = false) (h : 0 ∈ s) :
    0 ∈ s.dropWhile p := by
  rw [← List.takeWhile_append_dropWhile (p := p) (l := s), List.mem_append] at h
  rcases h with h | h
  · exact absurd (List.mem_takeWhile_imp h) (by rw [hp]; exact Bool.false_ne_true)
  · exact h

/-- A number ends where the string does. -/
theorem afterNumber_ne_nil {s : CStr} (h : 0 ∈ s) : afterNumber s ≠ [] := by
  have hspace := zero_mem_dropWhile (p := isSpace) rfl h
  have hdigits : ∀ ds : CStr, 0 ∈ ds → ds.dropWhile isDigit ≠ [] := fun ds hds =>
    List.ne_nil_of_mem (zero_mem_dropWhile rfl hds)
  unfold afterNumber
  split
  · next ds heq =>
    rw [heq] at hspace
    exact hdigits ds ((List.mem_cons.mp hspace).resolve_left (by decide))
  · next ds heq =>
    rw [heq] at hspace
    exact hdigits ds ((List.mem_cons.mp hspace).resolve_left (by decide))
  · exact hdigits _ hspace

/-- What follows the string does not count. -/
theorem strtol_append_nul (s rest : CStr) : strtol (s ++ 0 :: rest) = strtol s := by
  have hdigits : ∀ ds : CStr, (ds ++ 0 :: rest).takeWhile isDigit = ds.takeWhile isDigit := by
    intro ds
    rw [List.takeWhile_append, List.takeWhile_cons_of_neg (by decide), List.append_nil]
    split
    · next h => exact ((List.takeWhile_prefix _).eq_of_length h).symm
    · rfl
  have hspace : (s ++ 0 :: rest).dropWhile isSpace = s.dropWhile isSpace ++ 0 :: rest := by
    rw [List.dropWhile_append, List.dropWhile_cons_of_neg (by decide)]
    split
    · next h => rw [List.isEmpty_iff.mp h, List.nil_append]
    · rfl
  unfold strtol
  rw [hspace]
  rcases s.dropWhile isSpace with _ | ⟨d, ds⟩
  · rfl
  rw [List.cons_append]
  by_cases hminus : d = 45
  · rw [hminus]
    simp only [hdigits]
  by_cases hplus : d = 43
  · rw [hplus]
    simp only [hdigits]
  dsimp only
  split
  · next heq => exact absurd (List.cons.inj heq).1 hminus
  · next heq => exact absurd (List.cons.inj heq).1 hplus
  split
  · next heq => exact absurd (List.cons.inj heq).1 hminus
  · next heq => exact absurd (List.cons.inj heq).1 hplus
  · rw [← List.cons_append, hdigits]

theorem strtolAt_text {field s : CStr} (h : HoldsText field s) :
    (strtolAt field 0 : CBody ρ σ Int) = pure (strtol s) := by
  obtain ⟨text, rest, hfield, hnul⟩ := List.eq_append_cons_of_mem h.ends
  have htext : text = s := by
    rw [← h.holds, hfield, cstr, List.takeWhile_append_of_pos, List.takeWhile_cons_of_neg (by simp),
      List.append_nil]
    exact fun b hb => decide_eq_true fun hzero => hnul (hzero ▸ hb)
  rw [strtolAt, List.drop_zero, if_neg (afterNumber_ne_nil h.ends), hfield, strtol_append_nul, htext]

end Accesses

/-! ## The loops of the search -/

section Loops

variable {buf : CStr} {turns start stop : Nat} {msg : HttpMsg} {R : Int → HttpMsg → Prop}

/-- An offset found in what follows `i`, as an offset into the whole; 0 stays 0. -/
def shifted (i n : Nat) : Nat := if n = 0 then 0 else i + n

theorem findHeaderEnd_short {s : CStr} (h : s.length ≤ 3) : Daemon.findHeaderEnd s = 0 := by
  induction s with
  | nil => rfl
  | cons b s ih =>
    have hne : (b :: s).take 4 ≠ [13, 10, 13, 10] := by
      intro heq
      have hlen := congrArg List.length heq
      rw [List.length_take] at hlen
      simp at hlen h
      omega
    rw [List.length_cons] at h
    rw [Daemon.findHeaderEnd, if_neg hne, ih (by omega)]

theorem shifted_step {i : Nat} (h : i < buf.length) (hne : (buf.drop i).take 4 ≠ [13, 10, 13, 10]) :
    shifted (i + 1) (Daemon.findHeaderEnd (buf.drop (i + 1))) =
      shifted i (Daemon.findHeaderEnd (buf.drop i)) := by
  rw [List.drop_eq_getElem_cons h] at hne ⊢
  rw [Daemon.findHeaderEnd, if_neg hne]
  cases Daemon.findHeaderEnd (buf.drop (i + 1)) with
  | zero => rfl
  | succ n =>
    show i + 1 + (n + 1) = i + (n + 2)
    omega

theorem meets_findHeaderEnd {Q : Nat → HttpMsg → Prop} (hturns : buf.length < turns)
    (hQ : Q (Daemon.findHeaderEnd buf) msg) : Meets (findHeaderEnd buf turns) msg R Q := by
  apply meets_loop (fun i t => t = msg ∧
    shifted i (Daemon.findHeaderEnd (buf.drop i)) = Daemon.findHeaderEnd buf) fun i => buf.length - i
  · rintro i _ ⟨rfl, hi⟩
    rw [headerEndTurn]
    split
    · next hmore =>
      rw [loadRange_eq (by omega), pure_then, meets_pure]
      split
      · next hfound =>
        rw [Sum.elim_inr]
        rw [List.drop_eq_getElem_cons (by omega)] at hfound hi
        rw [Daemon.findHeaderEnd, if_pos hfound] at hi
        rw [show i + 4 = _ from hi]
        exact hQ
      · next hne =>
        refine ⟨⟨rfl, ?_⟩, by omega⟩
        rw [shifted_step (by omega) hne]
        exact hi
    · next hend =>
      rw [findHeaderEnd_short (by rw [List.length_drop]; omega)] at hi
      rw [meets_pure, Sum.elim_inr, show 0 = _ from hi]
      exact hQ
  · refine ⟨rfl, ?_⟩
    rw [List.drop_zero, shifted]
    split
    · next hzero => exact hzero.symm
    · exact Nat.zero_add _
  · exact hturns

/-- The blanks are passed. -/
theorem meets_blanks {Q : Nat → HttpMsg → Prop} (hstart : start ≤ stop) (hstop : stop ≤ buf.length)
    (hturns : buf.length < turns)
    (hQ : ∀ val, start ≤ val → val ≤ stop →
      (buf.take stop).drop val = ((buf.take stop).drop start).dropWhile isBlank → Q val msg) :
    Meets (loop (blankTurn buf stop) turns start) msg R Q := by
  apply meets_loop (fun val t => t = msg ∧ start ≤ val ∧ val ≤ stop ∧
    ((buf.take stop).drop val).dropWhile isBlank =
      ((buf.take stop).drop start).dropWhile isBlank) fun val => stop - val
  · rintro val _ ⟨rfl, hle, hval, hrest⟩
    rw [blankTurn]
    split
    · next hlt =>
      have hin : val < (buf.take stop).length := by
        rw [List.length_take]
        omega
      rw [meets_bind, meets_load]
      refine ⟨by omega, ?_⟩
      rw [List.drop_eq_getElem_cons hin, List.getElem_take] at hrest
      rw [meets_pure]
      split
      · next hblank =>
        rw [List.dropWhile_cons_of_pos hblank] at hrest
        exact ⟨⟨rfl, by omega, by omega, hrest⟩, by omega⟩
      · next hblank =>
        rw [List.dropWhile_cons_of_neg hblank] at hrest
        apply hQ val hle hval
        rw [← hrest, List.drop_eq_getElem_cons hin, List.getElem_take]
    · next hge =>
      have hempty : (buf.take stop).drop val = [] := by
        rw [List.drop_eq_nil_iff, List.length_take]
        omega
      rw [hempty] at hrest
      exact hQ val hle hval (hempty.trans hrest)
  · exact ⟨rfl, Nat.le_refl _, hstart, rfl⟩
  · show stop - start < turns
    omega

/-- The blank line that closes the headers. -/
theorem meets_isClosing {p : Nat} {Q : Bool → HttpMsg → Prop} (hp : p < stop)
    (hstop : stop ≤ buf.length) (hQ : Q (((buf.take stop).drop p).take 2 = [13, 10]) msg) :
    Meets (isClosing buf stop p) msg R Q := by
  have hin : p < (buf.take stop).length := by
    rw [List.length_take]
    omega
  rw [isClosing, meets_bind, meets_load]
  refine ⟨by omega, ?_⟩
  rw [List.drop_eq_getElem_cons hin, List.getElem_take, List.take_succ_cons] at hQ
  split
  · next hcr =>
    have hnext : p + 1 < (buf.take stop).length := by
      rw [List.length_take]
      omega
    rw [List.drop_eq_getElem_cons hnext, List.getElem_take, hcr.1] at hQ
    rw [meets_bind, meets_load]
    refine ⟨by omega, ?_⟩
    simpa using hQ
  · next hother =>
    have hne : ¬ buf[p] :: ((buf.take stop).drop (p + 1)).take 1 = [13, 10] := by
      intro heq
      obtain ⟨hcr, hlf⟩ := List.cons.inj heq
      refine hother ⟨hcr, ?_⟩
      have hlen := congrArg List.length hlf
      rw [List.length_take, List.length_drop, List.length_take] at hlen
      simp at hlen
      omega
    rw [decide_eq_false hne] at hQ
    exact hQ

end Loops

/-! ## The headers -/

structure HttpHeader.Holds (h : HttpHeader) (d : Daemon.HttpHeader) : Prop where
  key : HoldsText h.key d.key
  value : HoldsText h.value d.value

/-- The message with these headers, and zeros in the rest of the array. -/
def HttpMsg.withHeaders (msg : HttpMsg) (written : List HttpHeader) : HttpMsg :=
  { msg with
    headers := padded pfHttpMaxHeaders .zero written
    headerCount := written.length }

section Headers

variable {buf : CStr} {turns stop p : Nat} {msg : HttpMsg} {written : List HttpHeader}
  {R : Int → HttpMsg → Prop}

theorem slice_take {k : Nat} (h : p + k ≤ stop) :
    ((buf.take stop).drop p).take k = (buf.take (p + k)).drop p := by
  rw [List.take_drop, List.take_take, Nat.min_eq_left h]

theorem withHeaders_add (hcount : written.length < pfHttpMaxHeaders) (h : HttpHeader) :
    { msg.withHeaders written with
      headers := (msg.withHeaders written).headers.set (msg.withHeaders written).headerCount h
      headerCount := (msg.withHeaders written).headerCount + 1 } = msg.withHeaders (written ++ [h]) := by
  simp only [HttpMsg.withHeaders, set_padded hcount, List.length_append, List.length_singleton]

theorem meets_addHeader {colon eol : Nat} {Q : Unit → HttpMsg → Prop} (hp : p ≤ colon)
    (hcolon : colon < eol) (heol : eol ≤ buf.length) (hturns : buf.length < turns)
    (hcount : written.length < pfHttpMaxHeaders)
    (hQ : ∀ h : HttpHeader, h.Holds ⟨copyField 256 ((buf.take colon).drop p),
        copyField pfHttpMaxHeaderLen (((buf.take eol).drop (colon + 1)).dropWhile isBlank)⟩ →
      Q () (msg.withHeaders (written ++ [h]))) :
    Meets (addHeader buf turns p colon eol) (msg.withHeaders written) R Q := by
  have hsize : 0 < pfHttpMaxHeaderLen := by decide
  rw [addHeader, meets_bind, meets_get]
  have hload : (msg.withHeaders written).headers[(msg.withHeaders written).headerCount]? =
      some .zero := getElem?_padded hcount
  rw [load_eq hload, pure_then]
  have hkey : (copyTerminated HttpHeader.zero.key buf p colon : HttpBody CStr) = _ :=
    copyTerminated_eq (by decide) hp (by omega)
  rw [hkey, pure_then, meets_bind]
  apply meets_blanks (by omega) heol hturns
  intro val hval hle hrest
  have hvalue : (copyTerminated HttpHeader.zero.value buf val eol : HttpBody CStr) = _ :=
    copyTerminated_eq hsize hle heol
  rw [hvalue, pure_then, meets_modify, withHeaders_add hcount, hrest]
  exact hQ _ ⟨holdsText_padded (by decide), holdsText_padded hsize⟩

/-- The loop is at `p` with `n` turns left, and ends with `result`. -/
structure HeadersAt (buf : CStr) (stop p n : Nat) (written : List HttpHeader)
    (result : List Daemon.HttpHeader) : Prop where
  enough : stop ≤ n + p
  count : written.length ≤ pfHttpMaxHeaders
  reads : ∃ headers, List.Forall₂ HttpHeader.Holds written headers ∧
    parseHeaderLines n ((buf.take stop).drop p) headers = result

/-- The headers the loop leaves. -/
def Headers (msg : HttpMsg) (result : List Daemon.HttpHeader) (t : HttpMsg) : Prop :=
  ∃ written, t = msg.withHeaders written ∧ written.length ≤ pfHttpMaxHeaders ∧
    List.Forall₂ HttpHeader.Holds written result

theorem parseHeaderLines_nil (n : Nat) (headers : List Daemon.HttpHeader) :
    parseHeaderLines n [] headers = headers := by
  cases n with
  | zero => rfl
  | succ n => exact if_pos (.inl rfl)

theorem meets_headerTurn {n : Nat} {result : List Daemon.HttpHeader} (hstop : stop ≤ buf.length)
    (hturns : buf.length < turns) (h : HeadersAt buf stop p n written result) :
    Meets (headerTurn buf stop turns p) (msg.withHeaders written) R
      (Sum.elim
        (fun next t => stop - next < stop - p ∧
          ∃ n written, t = msg.withHeaders written ∧ HeadersAt buf stop next n written result)
        fun _ t => Headers msg result t) := by
  obtain ⟨henough, hcount, headers, hreads, hgoes⟩ := h
  have hlen : headers.length = written.length := hreads.length_eq.symm
  rw [headerTurn, meets_bind, meets_get]
  split
  · next hmore =>
    obtain ⟨hlt, hroom⟩ := hmore
    obtain ⟨n, rfl⟩ := Nat.exists_eq_succ_of_ne_zero (show n ≠ 0 by omega)
    have hne : ¬ ((buf.take stop).drop p = [] ∨ pfHttpMaxHeaders ≤ headers.length) := by
      rw [List.drop_eq_nil_iff, List.length_take, hlen]
      have : written.length < pfHttpMaxHeaders := hroom
      omega
    rw [parseHeaderLines, if_neg hne] at hgoes
    rw [meets_bind]
    apply meets_isClosing hlt hstop
    split
    · next hclosing =>
      rw [if_pos (of_decide_eq_true hclosing)] at hgoes
      exact ⟨written, rfl, hcount, hgoes ▸ hreads⟩
    · next hclosing =>
      rw [if_neg fun heq => hclosing (decide_eq_true heq)] at hgoes
      rw [memchrIn_eq (by omega) hstop, pure_then]
      cases heol : memchr ((buf.take stop).drop p) 13 with
      | none =>
        rw [heol] at hgoes
        exact ⟨written, rfl, hcount, hgoes ▸ hreads⟩
      | some eol =>
        have hin := memchr_lt heol
        rw [List.length_drop, List.length_take] at hin
        rw [heol] at hgoes
        dsimp only at hgoes
        rw [slice_take (by omega), List.drop_drop, ← Nat.add_assoc] at hgoes
        simp only [Option.map_some]
        rw [memchrIn_eq (by omega) (by omega), pure_then]
        cases hcolon : memchr ((buf.take (p + eol)).drop p) 58 with
        | none =>
          rw [hcolon] at hgoes
          simp only [Option.map_none, meets_pure, Sum.elim_inl]
          exact ⟨by omega, n, written, rfl, by omega, hcount, headers, hreads, hgoes⟩
        | some colon =>
          have hbefore := memchr_lt hcolon
          rw [List.length_drop, List.length_take] at hbefore
          rw [hcolon] at hgoes
          dsimp only at hgoes
          simp only [Option.map_some]
          rw [meets_bind]
          apply meets_addHeader (by omega) (by omega) (by omega) hturns hroom
          intro h hh
          rw [meets_pure, Sum.elim_inl]
          rw [slice_take (by omega), List.drop_drop, ← Nat.add_assoc] at hgoes
          refine ⟨by omega, n, written ++ [h], rfl, by omega, ?_, headers ++ [_],
            List.rel_append hreads (.cons hh .nil), hgoes⟩
          rw [List.length_append, List.length_singleton]
          exact hroom
  · next hdone =>
    have hall : parseHeaderLines n ((buf.take stop).drop p) headers = headers := by
      by_cases hlt : p < stop
      · have hfull : pfHttpMaxHeaders ≤ headers.length := by
          rw [hlen]
          exact Nat.le_of_not_lt fun hroom => hdone ⟨hlt, hroom⟩
        cases n with
        | zero => rfl
        | succ n => exact if_pos (.inr hfull)
      · rw [List.drop_of_length_le (by rw [List.length_take]; omega), parseHeaderLines_nil]
    exact ⟨written, rfl, hcount, (hall.symm.trans hgoes) ▸ hreads⟩

theorem meets_parseHeaders {start len : Nat} {Q : Unit → HttpMsg → Prop}
    (hempty : msg.headers = List.replicate pfHttpMaxHeaders .zero)
    (hin : start + len ≤ buf.length) (hturns : buf.length < turns)
    (hQ : ∀ t, Headers msg (Daemon.parseHeaders ((buf.take (start + len)).drop start)) t → Q () t) :
    Meets (parseHeaders buf start len turns) msg R Q := by
  have hstart : { msg with headerCount := 0 } = msg.withHeaders [] := by
    rw [HttpMsg.withHeaders, padded, List.length_nil, Nat.sub_zero, List.nil_append, ← hempty]
  rw [parseHeaders, meets_bind, meets_modify, hstart]
  apply meets_loop (fun p t => ∃ n written, t = msg.withHeaders written ∧
    HeadersAt buf (start + len) p n written
      (Daemon.parseHeaders ((buf.take (start + len)).drop start))) fun p => start + len - p
  · rintro p _ ⟨n, written, rfl, hat⟩
    refine (meets_headerTurn hin hturns hat).mono (fun _ _ h => h) ?_
    rintro (next | _) t h
    · exact ⟨h.2, h.1⟩
    · exact hQ t h
  · refine ⟨len, [], rfl, by omega, Nat.zero_le _, [], .nil, ?_⟩
    rw [Daemon.parseHeaders, List.length_drop, List.length_take, Nat.min_eq_left hin,
      Nat.add_sub_cancel_left]
  · show start + len - start < turns
    omega

end Headers

/-! ## The messages -/

/-- The texts and the status of `m` stand in the arrays of `t`. -/
structure TextsHold (t : HttpMsg) (m : Daemon.HttpMsg) : Prop where
  method : HoldsText t.method m.method
  url : HoldsText t.url m.url
  version : HoldsText t.version m.version
  statusText : HoldsText t.statusText m.statusText
  statusCode : t.statusCode = m.statusCode

/-- The captured part of the body. -/
def HttpMsg.bodyBytes (t : HttpMsg) (buf : CStr) : CStr :=
  match t.body with
  | some p => (buf.drop p).take t.bodyLen
  | none => []

/-- `t` is the record of the message `m`. -/
structure HttpMsg.Holds (t : HttpMsg) (buf : CStr) (m : HttpParsed) : Prop where
  texts : TextsHold t m.toHttpMsg
  headers : ∃ written, t.headers = padded pfHttpMaxHeaders .zero written ∧
    t.headerCount = written.length ∧ List.Forall₂ HttpHeader.Holds written m.headers
  body : t.bodyBytes buf = m.body
  contentLength : t.contentLength = m.contentLength
  isRequest : t.isRequest = m.isRequest
  complete : t.complete = m.complete
  headerEnd : t.headerEnd = m.headerEnd

section Messages

variable {buf : CStr} {turns : Nat} {msg : HttpMsg} {R : Int → HttpMsg → Prop}

theorem meets_pfHttpGetHeader {key : String} {written : List HttpHeader}
    {headers : List Daemon.HttpHeader} {Q : Option CStr → HttpMsg → Prop}
    (hreads : List.Forall₂ HttpHeader.Holds written headers) (hturns : written.length < turns)
    (hQ : ∀ found, Option.Rel HoldsText found
        ((headers.find? fun h => strcaseeq h.key (lit key)).map Daemon.HttpHeader.value) →
      Q found (msg.withHeaders written)) :
    Meets (pfHttpGetHeader key turns) (msg.withHeaders written) R Q := by
  have hlen : headers.length = written.length := hreads.length_eq.symm
  apply meets_loop (fun i t => t = msg.withHeaders written ∧
    (headers.drop i).find? (fun h => strcaseeq h.key (lit key)) =
      headers.find? fun h => strcaseeq h.key (lit key)) fun i => written.length - i
  · rintro i _ ⟨rfl, hi⟩
    rw [getHeaderTurn, meets_bind, meets_get]
    split
    · next hlt =>
      have hlt : i < written.length := hlt
      have hload : (msg.withHeaders written).headers[i]? = some written[i] :=
        (getElem?_padded_of_lt hlt).trans (List.getElem?_eq_getElem hlt)
      have hlt' : i < headers.length := by omega
      have hholds : written[i].Holds headers[i] := hreads.get hlt hlt'
      rw [load_eq hload, pure_then, meets_bind, meets_loadUntil]
      refine ⟨hholds.key.ends, ?_⟩
      rw [show written[i].key.takeWhile (· ≠ 0) = _ from hholds.key.holds]
      rw [List.drop_eq_getElem_cons hlt', List.find?_cons] at hi
      rw [meets_pure]
      split
      · next hnamed =>
        rw [hnamed] at hi
        apply hQ
        rw [← hi]
        exact .some hholds.value
      · next hother =>
        rw [Bool.not_eq_true] at hother
        rw [hother] at hi
        exact ⟨⟨rfl, hi⟩, by omega⟩
    · next hge =>
      have hge : written.length ≤ i := Nat.le_of_not_lt hge
      rw [List.drop_of_length_le (by omega)] at hi
      apply hQ
      rw [← hi]
      exact .none
  · exact ⟨rfl, rfl⟩
  · exact hturns

/-- The head ends at `hend` and its first CR is at `eol`. -/
structure Started (buf : CStr) (hend eol : Nat) : Prop where
  long : 10 ≤ buf.length
  found : Daemon.findHeaderEnd buf = hend
  isSome : hend ≠ 0
  cr : memchr buf 13 = some eol

open HttpText Pattern in
/-- Only a buffer with CRLFCRLF has a head, and its first CR is not after that. -/
theorem exists_started (hlong : 10 ≤ buf.length) (hsome : Daemon.findHeaderEnd buf ≠ 0) :
    ∃ hend eol, Started buf hend eol ∧ eol + 4 ≤ hend ∧ hend ≤ buf.length := by
  rcases headEnd_spec buf with ⟨hzero, -⟩ | ⟨i, hend, hfirst⟩
  · exact absurd ((findHeaderEnd_eq buf).trans hzero) hsome
  have hlast := hfirst.1.end_le (List.cons_ne_nil _ _)
  have hcr : buf[i]? = some 13 := hfirst.1.getElem? (m := 0) (by decide)
  cases heol : memchr buf 13 with
  | none => exact absurd (List.mem_of_getElem? hcr) (memchr_none heol)
  | some eol =>
    have hle : eol ≤ i := by
      by_contra hgt
      refine (memchr_some heol).1 (List.mem_of_getElem? (i := i) ?_)
      rw [List.getElem?_take_of_lt (by omega)]
      exact hcr
    rw [show crlfCrlf.length = 4 from rfl] at hlast
    exact ⟨i + 4, eol, ⟨hlong, (findHeaderEnd_eq buf).trans hend, by omega, heol⟩, by omega, hlast⟩

theorem Started.bounds {hend eol : Nat} (h : Started buf hend eol) :
    eol + 4 ≤ hend ∧ hend ≤ buf.length := by
  obtain ⟨hlong, rfl, hsome, hcr⟩ := h
  obtain ⟨hend', eol', ⟨-, rfl, -, hcr'⟩, hbounds⟩ := exists_started hlong hsome
  obtain rfl := Option.some.inj (hcr.symm.trans hcr')
  exact hbounds

/-- The record after `parseStart`. -/
def HttpMsg.started (isRequest : Bool) (hend : Nat) : HttpMsg :=
  { HttpMsg.zero with
    isRequest := isRequest
    headerEnd := hend
    complete := true }

theorem meets_parseStart {isRequest : Bool} {Q : Nat × Nat → HttpMsg → Prop}
    (hturns : buf.length < turns)
    (hfail : buf.length < 10 ∨ Daemon.findHeaderEnd buf = 0 → ∀ t, R (-1) t)
    (hQ : ∀ hend eol, Started buf hend eol → Q (hend, eol) (.started isRequest hend)) :
    Meets (parseStart buf isRequest turns) msg R Q := by
  rw [parseStart, meets_bind, meets_require]
  split
  · next hlong =>
    rw [meets_bind, meets_modify, meets_bind]
    apply meets_findHeaderEnd hturns
    rw [meets_bind, meets_require]
    split
    · next hsome =>
      obtain ⟨hend, eol, hstarted, -⟩ := exists_started hlong hsome
      rw [hstarted.found, meets_bind, meets_modify, memchrIn_eq (Nat.zero_le _) (Nat.le_refl _),
        pure_then, List.take_length, List.drop_zero, hstarted.cr]
      simp only [Option.map_some, Nat.zero_add]
      exact hQ hend eol hstarted
    · next hzero => exact hfail (.inr (not_not.mp hzero)) _
  · next hshort => exact hfail (.inl (by omega)) _

theorem meets_fill {field : HttpMsg → CStr} {set : HttpMsg → CStr → HttpMsg} {start stop : Nat}
    {Q : Unit → HttpMsg → Prop} (size : Nat) (hsize : 0 < size)
    (hfield : field msg = List.replicate size 0) (h : start ≤ stop) (hstop : stop ≤ buf.length)
    (hQ : ∀ text, HoldsText text (copyField size ((buf.take stop).drop start)) → Q () (set msg text)) :
    Meets (fill field set buf start stop) msg R Q := by
  rw [fill, meets_bind, meets_get, hfield, copyCut_eq hsize h hstop, pure_then, meets_modify]
  exact hQ _ (holdsText_padded hsize)

/-- What is still zero before the headers are read, and what the start has set. -/
structure Fresh (t : HttpMsg) (isRequest : Bool) (hend : Nat) : Prop where
  headers : t.headers = List.replicate pfHttpMaxHeaders .zero
  body : t.body = none
  bodyLen : t.bodyLen = 0
  contentLength : t.contentLength = 0
  isRequest : t.isRequest = isRequest
  complete : t.complete = true
  headerEnd : t.headerEnd = hend

theorem holdsText_zero (size : Nat) (hsize : 0 < size) : HoldsText (List.replicate size 0) [] := by
  obtain ⟨k, rfl⟩ := Nat.exists_eq_succ_of_ne_zero (Nat.ne_of_gt hsize)
  exact ⟨List.mem_cons_self, rfl⟩

theorem meets_setLength {written : List HttpHeader} {m : Daemon.HttpMsg} {Q : Unit → HttpMsg → Prop}
    (hreads : List.Forall₂ HttpHeader.Holds written m.headers) (hturns : written.length < turns)
    (hlength : msg.contentLength = m.contentLength)
    (hQ : Q () { msg.withHeaders written with contentLength := m.withLength.contentLength }) :
    Meets (setLength turns) (msg.withHeaders written) R Q := by
  rw [setLength, meets_bind]
  apply meets_pfHttpGetHeader hreads hturns
  intro found hfound
  rw [HttpMsg.withLength, Daemon.pfHttpGetHeader] at hQ
  generalize Option.map _ _ = value at hfound hQ
  cases hfound with
  | none =>
    rw [meets_pure]
    rw [show m.contentLength = _ from hlength.symm] at hQ
    exact hQ
  | some htext =>
    dsimp only
    rw [strtolAt_text htext, pure_then, meets_modify]
    exact hQ

theorem meets_setBody {hend : Nat} {Q : Unit → HttpMsg → Prop} (hnull : msg.body = none)
    (hQ : ∀ body bodyLen, { msg with body := body, bodyLen := bodyLen }.bodyBytes buf =
        (buf.drop hend).take pfHttpMaxBodyLen →
      Q () { msg with body := body, bodyLen := bodyLen }) :
    Meets (setBody buf hend) msg R Q := by
  rw [setBody]
  split
  · next hmore =>
    rw [meets_modify]
    apply hQ
    show (buf.drop hend).take (min (buf.length - hend) pfHttpMaxBodyLen) = _
    rw [← List.length_drop, Nat.min_comm, ← List.take_take, List.take_length]
  · next hnone =>
    apply hQ msg.body msg.bodyLen
    rw [HttpMsg.bodyBytes, hnull, List.drop_of_length_le (by omega), List.take_nil]

theorem withLength_eq (m : Daemon.HttpMsg) :
    m.withLength = { m with contentLength := m.withLength.contentLength } := by
  rw [HttpMsg.withLength]
  split <;> rfl

theorem meets_parseRest {hend eol : Nat} {isRequest : Bool} {m : Daemon.HttpMsg}
    {Q : Int → HttpMsg → Prop} (hturns : buf.length + pfHttpMaxHeaders < turns)
    (hstarted : Started buf hend eol) (hfresh : Fresh msg isRequest hend) (htexts : TextsHold msg m)
    (hheaders : m.headers = Daemon.parseHeaders ((buf.take hend).drop (eol + 2)))
    (hbody : m.body = (buf.drop hend).take pfHttpMaxBodyLen) (hlength : m.contentLength = 0)
    (hQ : ∀ t, t.Holds buf (m.withLength.parsed isRequest buf) → Q 0 t) :
    Meets (parseRest buf hend eol turns) msg R Q := by
  obtain ⟨heol, hend'⟩ := hstarted.bounds
  have hsplit : eol + 2 + (hend - (eol + 2)) = hend := by omega
  rw [parseRest, distance_eq (by omega), pure_then, meets_bind]
  apply meets_parseHeaders hfresh.headers (by omega) (by omega)
  rw [hsplit, ← hheaders]
  rintro _ ⟨written, rfl, hcount, hreads⟩
  rw [meets_bind]
  apply meets_setLength hreads (by omega) (hfresh.contentLength.trans hlength.symm)
  rw [meets_bind]
  apply meets_setBody
  · exact hfresh.body
  intro body bodyLen hbytes
  apply hQ
  rw [withLength_eq]
  exact {
    texts := ⟨htexts.method, htexts.url, htexts.version, htexts.statusText, htexts.statusCode⟩
    headers := ⟨written, rfl, rfl, hreads⟩
    body := hbytes.trans hbody.symm
    contentLength := rfl
    isRequest := hfresh.isRequest
    complete := hfresh.complete
    headerEnd := hfresh.headerEnd.trans hstarted.found.symm }

/-- What a parser returns and fills in, against the message the parser of `Http` gives. -/
def Parsed (buf : CStr) (parsed : Option HttpParsed) (r : Int) (t : HttpMsg) : Prop :=
  match parsed with
  | some m => r = 0 ∧ t.Holds buf m
  | none => r = -1

theorem parsed_none (h : buf.length < 10 ∨ Daemon.findHeaderEnd buf = 0) :
    Daemon.pfHttpParsedRequest buf = none ∧ Daemon.pfHttpParsedResponse buf = none := by
  rw [pfHttpParsedRequest, pfHttpParsedResponse, Daemon.pfHttpParseRequest,
    Daemon.pfHttpParseResponse]
  rcases h with h | h
  · rw [if_pos h, if_pos h]
    exact ⟨rfl, rfl⟩
  · rw [h]
    dsimp only
    split <;> exact ⟨rfl, rfl⟩

/-- A blank found in the first line, as an offset into the buffer. -/
theorem meets_blank {start stop : Nat} {f : Nat → HttpBody Int} {Q : Int → HttpMsg → Prop}
    (h : start ≤ stop) (hstop : stop ≤ buf.length)
    (hfail : memchr ((buf.take stop).drop start) 32 = none → R (-1) msg)
    (hQ : ∀ sp, memchr ((buf.take stop).drop start) 32 = some sp → start + sp < stop →
      Meets (f (start + sp)) msg R Q) :
    Meets (do let sp ← orReturn (-1) (← memchrIn buf start stop 32); f sp) msg R Q := by
  rw [memchrIn_eq h hstop, pure_then, meets_bind]
  cases hsp : memchr ((buf.take stop).drop start) 32 with
  | none => exact hfail hsp
  | some sp =>
    have hlt := memchr_lt hsp
    rw [List.length_drop, List.length_take] at hlt
    exact hQ sp hsp (by omega)

/-- The request parser on memory fills in the message the request parser finds, without a fault. -/
theorem meets_pfHttpParseRequest (hturns : buf.length + pfHttpMaxHeaders < turns) :
    Meets (pfHttpParseRequest buf turns) msg (Parsed buf (Daemon.pfHttpParsedRequest buf))
      (Parsed buf (Daemon.pfHttpParsedRequest buf)) := by
  rw [pfHttpParseRequest, meets_bind]
  apply meets_parseStart (by omega)
  · intro hshort t
    rw [(parsed_none hshort).1]
    rfl
  intro hend eol hstarted
  obtain ⟨heol, hend'⟩ := hstarted.bounds
  obtain ⟨hlong, hfound, hsome, hcr⟩ := id hstarted
  generalize hparse : Daemon.pfHttpParsedRequest buf = parsed
  rw [pfHttpParsedRequest, Daemon.pfHttpParseRequest, if_neg (by omega), hfound] at hparse
  dsimp only at hparse
  rw [if_neg hsome, hcr, Option.bind_eq_bind, Option.bind_some] at hparse
  dsimp only
  apply meets_blank (Nat.zero_le _) (by omega)
  · intro hnone
    rw [List.drop_zero] at hnone
    rw [hnone] at hparse
    subst hparse
    rfl
  intro sp1 hsp1 hlt1
  rw [List.drop_zero] at hsp1
  rw [Nat.zero_add] at hlt1 ⊢
  rw [hsp1, Option.bind_some] at hparse
  rw [meets_bind]
  apply meets_fill 16 (by decide) rfl (Nat.zero_le _) (by omega)
  intro method hmethod
  apply meets_blank (by omega) (by omega)
  · intro hnone
    rw [hnone] at hparse
    subst hparse
    rfl
  intro sp2 hsp2 hlt2
  rw [hsp2, Option.bind_some] at hparse
  rw [meets_bind]
  apply meets_fill pfHttpMaxUrlLen (by decide) rfl (by omega) (by omega)
  intro url hurl
  rw [meets_bind]
  apply meets_fill 16 (by decide) rfl (by omega) (by omega)
  intro version hversion
  rw [slice_take (by omega), List.drop_drop, ← Nat.add_assoc] at hparse
  subst hparse
  refine meets_parseRest hturns hstarted ?_ ?_ rfl rfl rfl fun t ht => ⟨rfl, ht⟩
  · exact ⟨rfl, rfl, rfl, rfl, rfl, rfl, rfl⟩
  · exact ⟨hmethod, hurl, hversion, holdsText_zero 64 (by decide), rfl⟩

theorem meets_setStatusText {p eol : Nat} {Q : Unit → HttpMsg → Prop} (hp : p ≤ eol)
    (heol : eol ≤ buf.length) (hzero : msg.statusText = List.replicate 64 0)
    (hQ : ∀ text, HoldsText text
        (match memchr ((buf.take eol).drop p) 32 with
          | some sp2 => copyField 64 (((buf.take eol).drop p).drop (sp2 + 1))
          | none => []) → Q () { msg with statusText := text }) :
    Meets (setStatusText buf p eol) msg R Q := by
  rw [setStatusText, memchrIn_eq hp heol, pure_then]
  cases hsp : memchr ((buf.take eol).drop p) 32 with
  | none =>
    have hsame : { msg with statusText := List.replicate 64 0 } = msg := by rw [← hzero]
    rw [hsp] at hQ
    have hQ' := hQ _ (holdsText_zero 64 (by decide))
    rw [hsame] at hQ'
    exact hQ'
  | some sp2 =>
    have hlt := memchr_lt hsp
    rw [List.length_drop, List.length_take] at hlt
    rw [hsp] at hQ
    dsimp only at hQ
    rw [List.drop_drop, ← Nat.add_assoc] at hQ
    have hle : p + sp2 + 1 ≤ eol := by omega
    exact meets_fill 64 (by decide) hzero hle heol hQ

/-- Where a byte of the buffer ends the number, the response parser on memory fills in the message
the response parser finds, without a fault. -/
theorem meets_pfHttpParseResponse (hturns : buf.length + pfHttpMaxHeaders < turns)
    (hstops : ∀ hend eol sp1, Started buf hend eol → memchr (buf.take eol) 32 = some sp1 →
      afterNumber (buf.drop (sp1 + 1)) ≠ []) :
    Meets (pfHttpParseResponse buf turns) msg (Parsed buf (Daemon.pfHttpParsedResponse buf))
      (Parsed buf (Daemon.pfHttpParsedResponse buf)) := by
  rw [pfHttpParseResponse, meets_bind]
  apply meets_parseStart (by omega)
  · intro hshort t
    rw [(parsed_none hshort).2]
    rfl
  intro hend eol hstarted
  obtain ⟨heol, hend'⟩ := hstarted.bounds
  obtain ⟨hlong, hfound, hsome, hcr⟩ := id hstarted
  generalize hparse : Daemon.pfHttpParsedResponse buf = parsed
  rw [pfHttpParsedResponse, Daemon.pfHttpParseResponse, if_neg (by omega), hfound] at hparse
  dsimp only at hparse
  rw [if_neg hsome, hcr, Option.bind_eq_bind, Option.bind_some] at hparse
  dsimp only
  apply meets_blank (Nat.zero_le _) (by omega)
  · intro hnone
    rw [List.drop_zero] at hnone
    rw [hnone] at hparse
    subst hparse
    rfl
  intro sp1 hsp1 hlt1
  rw [List.drop_zero] at hsp1
  rw [Nat.zero_add] at hlt1 ⊢
  rw [hsp1, Option.bind_some] at hparse
  rw [meets_bind]
  apply meets_fill 16 (by decide) rfl (Nat.zero_le _) (by omega)
  intro version hversion
  rw [strtolAt, if_neg (hstops hend eol sp1 hstarted hsp1), pure_then, meets_bind, meets_modify,
    meets_bind]
  apply meets_setStatusText (by omega) (by omega) rfl
  intro text htext
  subst hparse
  refine meets_parseRest hturns hstarted ?_ ?_ rfl rfl rfl fun t ht => ⟨rfl, ht⟩
  · exact ⟨rfl, rfl, rfl, rfl, rfl, rfl, rfl⟩
  · exact ⟨holdsText_zero 16 (by decide), holdsText_zero pfHttpMaxUrlLen (by decide), hversion, htext, rfl⟩

/-- Where nothing ends the number, it is read past the end of the buffer. -/
theorem pfHttpParseResponse_faults {hend eol sp1 : Nat} (hturns : buf.length < turns)
    (hstarted : Started buf hend eol) (hsp1 : memchr (buf.take eol) 32 = some sp1)
    (hruns : afterNumber (buf.drop (sp1 + 1)) = []) :
    ¬ Meets (pfHttpParseResponse buf turns) msg R R := by
  obtain ⟨heol, hend'⟩ := hstarted.bounds
  have hlt := memchr_lt hsp1
  rw [List.length_take] at hlt
  have hstart : parseStart buf false turns msg = some (.ok (hend, eol), .started false hend) := by
    apply Meets.eq
    apply meets_parseStart hturns
    · intro hshort
      have hlong := hstarted.long
      have hsome := hstarted.isSome
      rw [← hstarted.found] at hsome
      exact absurd hshort (by omega)
    · intro hend' eol' hstarted'
      obtain rfl := hstarted.found.symm.trans hstarted'.found
      obtain rfl := Option.some.inj (hstarted.cr.symm.trans hstarted'.cr)
      exact ⟨rfl, rfl⟩
  rw [pfHttpParseResponse, meets_bind_of_eq hstart]
  dsimp only
  rw [memchrIn_eq (Nat.zero_le _) (by omega), pure_then, List.drop_zero, hsp1, Option.map_some,
    Nat.zero_add, orReturn, pure_then, fill, meets_bind, meets_bind, meets_get]
  have hzero : (HttpMsg.started false hend).version = List.replicate 16 0 := rfl
  rw [hzero, copyCut_eq (by decide) (Nat.zero_le _) (by omega), pure_then, meets_modify, strtolAt,
    if_pos hruns, meets_bind]
  exact meets_fault

end Messages

end Proxiflare.Daemon.Memory
