import Proxiflare.Daemon.DnsResolver
import Proxiflare.Daemon.Http
import Proxiflare.Daemon.Net

/-!
# The exchange with the DoH server

`ssl_read_full`, `read_http_headers`, `parse_content_length` and what `dns_worker` does
with the response in `daemon/src/dns_resolver.c`. The response is a list of pieces:
`SSL_read` gives what is left of the next piece or, of a longer one, as much as it is asked for;
an empty piece is its failure.
-/

namespace Proxiflare.Daemon

open Lib.CString Lib

/-- The loop of `recv_all`, over `SSL_read`. -/
def sslReadFull (pieces : List CStr) (want : Nat) : Option CStr × List CStr := recvLoop pieces want

/-- `buf` holds what was read, `scanned` bytes of it were searched for CRLFCRLF. The result is
`body_off`, the bytes read and the pieces left. -/
def readHttpHeaders (cap : Nat) : List CStr → CStr → Nat → Option (Nat × CStr × List CStr)
  | [], _, _ => none
  | piece :: pieces, buf, scanned =>
    if cap ≤ buf.length then none
    else if piece = [] then none
    else
      let room := cap - buf.length
      let got := buf ++ piece.take room
      let left := if piece.length ≤ room then pieces else piece.drop room :: pieces
      let scanFrom := scanned - 3
      match findHeaderEnd (got.drop scanFrom) with
      | n + 1 => some (scanFrom + (n + 1), got, left)
      | 0 => if piece.length ≤ room then readHttpHeaders cap pieces got got.length else none

/-- The loop from `p` on, in at most `n` lines. The number is read from `hdr` without a look at
`hlen`. -/
def contentLengthFrom (hdr : CStr) (hlen : Nat) : Nat → Nat → Int
  | 0, _ => -1
  | n + 1, p =>
    if p + 16 < hlen then
      let line := (hdr.take hlen).drop p
      if (line.head? = some 67 ∨ line.head? = some 99) ∧
          strncaseeq line (lit "Content-Length:") 15 then
        let blanks := ((line.drop 15).takeWhile isBlank).length
        atoi (hdr.drop (p + 15 + blanks))
      else match memchr line 10 with
        | none => -1
        | some nl => contentLengthFrom hdr hlen n (p + nl + 1)
    else -1

def parseContentLength (hdr : CStr) (hlen : Nat) : Int := contentLengthFrom hdr hlen hlen 0

/-- `strncmp(hbuf, …, 12) == 0` for one of the two status lines. -/
def isOk (hbuf : CStr) : Bool :=
  hbuf.take 12 = lit "HTTP/1.1 200" || hbuf.take 12 = lit "HTTP/1.0 200"

/-- The answer `dns_worker` puts together from the response. -/
def dohBody (pieces : List CStr) : Option CStr := do
  let (bodyOff, hbuf, left) ← readHttpHeaders 8192 pieces [] 0
  guard (isOk hbuf)
  let clenS := parseContentLength hbuf bodyOff
  guard (0 < clenS ∧ clenS ≤ 4096)
  let clen := clenS.toNat
  let leftover := (hbuf.drop bodyOff).take clen
  if leftover.length < clen then
    (sslReadFull left (clen - leftover.length)).1.map fun more => leftover ++ more
  else pure leftover

/-- What the worker hands to `sendto` and the cache it leaves, for the response to its query. -/
def dnsWorker (c : DnsCache) (now now' : Int) (q : CStr) (pieces : List CStr) :
    Option CStr × DnsCache :=
  match cachedAnswer c now q with
  | some answer => (some answer, c)
  | none =>
    match dohBody pieces with
    | none => (none, c)
    | some body => (some body, putAnswer c now' q body)

/-! ## The head of the response -/

open HttpText Pattern

variable {cap : Nat} {head body buf : CStr} {pieces : List CStr}

/-- Whatever the pieces are, the head is found where it ends; the bytes after it are kept. -/
theorem readHttpHeaders_finds (hfirst : First crlfCrlf (head ++ body) (head.length - 4))
    (hlong : 4 ≤ head.length) (hcap : head.length ≤ cap)
    (hstream : buf ++ stream pieces = head ++ body) (hnone : ∀ i, ¬ At crlfCrlf buf i) :
    ∃ got left, readHttpHeaders cap pieces buf buf.length = some (head.length, got, left) ∧
      got ++ stream left = head ++ body ∧ head.length ≤ got.length := by
  have hlen : crlfCrlf.length = 4 := rfl
  induction pieces generalizing buf with
  | nil =>
    rw [stream_nil, List.append_nil] at hstream
    rw [hstream] at hnone
    exact absurd hfirst.1 (hnone _)
  | cons piece pieces ih =>
    have hshort : buf.length < head.length := by
      by_contra hge
      rw [← hstream] at hfirst
      exact hnone _ (hfirst.of_append (by omega)).1
    have hne : piece ≠ [] := by
      rintro rfl
      rw [stream_empty_cons, List.append_nil] at hstream
      rw [hstream] at hshort
      simp at hshort
    rw [readHttpHeaders, if_neg (by omega), if_neg hne]
    dsimp only
    obtain ⟨left, hleft⟩ : ∃ left, left = if piece.length ≤ cap - buf.length then pieces
      else piece.drop (cap - buf.length) :: pieces := ⟨_, rfl⟩
    obtain ⟨got, hgot⟩ : ∃ got, got = buf ++ piece.take (cap - buf.length) := ⟨_, rfl⟩
    have hrest : got ++ stream left = head ++ body := by
      rw [hgot, hleft, ← hstream, List.append_assoc, stream_cons hne]
      split
      · next hfits => rw [List.take_of_length_le hfits]
      · next hover =>
        rw [stream_drop_cons (by omega), stream_cons hne, List.drop_append_of_le_length (by omega),
          ← List.append_assoc (piece.take _), List.take_append_drop]
    rw [← hleft, ← hgot]
    have hbefore : ∀ j < buf.length - 3, ¬ At crlfCrlf got j := by
      intro j hj
      rw [hgot]
      exact not_at_append hnone (by omega)
    have hwhole := hrest ▸ hfirst
    rcases Nat.lt_or_ge got.length head.length with hlt | hge
    · -- the head goes on in the next piece
      have hgot' : ∀ i, ¬ At crlfCrlf got i := fun i =>
        hwhole.not_at (List.cons_ne_nil _ _) (by omega)
      have hzero : findHeaderEnd (got.drop (buf.length - 3)) = 0 := by
        rw [findHeaderEnd_eq]
        exact headEnd_of_not_at fun i h => hgot' _ (at_drop.mp h)
      have hfits : piece.length ≤ cap - buf.length := by
        by_contra hover
        rw [hgot, List.length_append, List.length_take] at hlt
        omega
      have hnext : left = pieces := hleft.trans (if_pos hfits)
      rw [hnext] at hrest
      rw [hzero]
      dsimp only
      rw [if_pos hfits]
      exact ih hrest hgot'
    · have hfound := hwhole.of_append (show head.length - 4 + crlfCrlf.length ≤ got.length by omega)
      have hsplit : buf.length - 3 + (head.length - 4 - (buf.length - 3)) = head.length - 4 := by
        omega
      have hend : findHeaderEnd (got.drop (buf.length - 3)) =
          head.length - 4 - (buf.length - 3) + 3 + 1 := by
        rw [findHeaderEnd_eq]
        apply headEnd_of_first
        rw [first_drop hbefore, hsplit]
        exact hfound
      rw [hend]
      refine ⟨got, left, ?_, hrest, hge⟩
      dsimp only
      congr 2
      omega

/-! ## The length of the body -/

/-- A `Content-Length` field with a plain number. -/
structure LengthField where
  field : HeaderField
  digits : CStr
  trailing : CStr
  named : strcaseeq field.name (lit "Content-Length") = true
  blanks : ∀ b ∈ field.blanks, isBlank b = true
  value : field.value = digits ++ trailing
  decimal : IsDecimal digits
  trailingBlanks : ∀ b ∈ trailing, isBlank b = true

/-- `Content-Length:` starts a line of a head exactly when it starts the line without its end. -/
theorem not_named_append {line : CStr} (h : ¬ FieldNamed (lit "Content-Length") line) (t : CStr) :
    strncaseeq (line ++ 13 :: t) (lit "Content-Length:") 15 = false := by
  by_contra hne
  have hmatch := strncaseeq_of_append_cr (by decide) (Bool.eq_true_of_not_eq_false hne)
  exact h (fieldNamed_of_strncaseeq (by decide) hmatch)

theorem digit_not_blank {b : UInt8} (hd : isDigit b = true) : isBlank b = false := by
  have h := forall_byte (p := fun b => !isDigit b || !isBlank b) (by decide +kernel) b
  rw [hd, Bool.not_true, Bool.false_or, Bool.not_eq_true'] at h
  exact h

theorem tolower_eq_c {b : UInt8} (h : tolower b = 99) : b = 67 ∨ b = 99 := by
  have hb := forall_byte (p := fun b => decide (tolower b = 99 → b = 67 ∨ b = 99))
    (by decide +kernel) b
  exact of_decide_eq_true hb h

/-- What follows the colon is read as the number. -/
theorem LengthField.read (l : LengthField) (hmax : decimalValue l.digits < 2 ^ 31) (t : CStr) :
    (l.field.blanks ++ l.field.value ++ 13 :: t).takeWhile isBlank = l.field.blanks ∧
      atoi (l.field.value ++ 13 :: t) = decimalValue l.digits := by
  obtain ⟨d, ds, hds⟩ := List.exists_cons_of_ne_nil l.decimal.ne_nil
  have hd : isDigit d = true := l.decimal.digits d (by rw [hds]; exact List.mem_cons_self)
  refine ⟨?_, atoi_of_digits l.decimal ?_ hmax⟩
  · rw [List.append_assoc, List.takeWhile_append_of_pos l.blanks, l.value, hds]
    simp [digit_not_blank hd]
  · rw [l.value, List.append_assoc, List.takeWhile_append_of_pos l.decimal.digits]
    cases htrailing : l.trailing with
    | nil => rw [List.nil_append, List.takeWhile_cons_of_neg (by decide), List.append_nil]
    | cons b trailing =>
      have hb := l.trailingBlanks b (by rw [htrailing]; exact List.mem_cons_self)
      have hnot : ¬ isDigit b = true := fun h => by rw [digit_not_blank h] at hb; cases hb
      rw [List.cons_append, List.takeWhile_cons_of_neg hnot, List.append_nil]

theorem LengthField.name_length (l : LengthField) : l.field.name.length = 14 := by
  have hmap := congrArg List.length (of_decide_eq_true l.named)
  rwa [List.length_map, List.length_map] at hmap

theorem LengthField.first_letter (l : LengthField) (t : CStr) :
    (l.field.line ++ t).head? = some 67 ∨ (l.field.line ++ t).head? = some 99 := by
  obtain ⟨b, bs, hname⟩ := List.exists_cons_of_length_pos (l := l.field.name) (by rw [l.name_length]; decide)
  have hmap := of_decide_eq_true l.named
  rw [hname, List.map_cons] at hmap
  rcases tolower_eq_c (List.cons.inj hmap).1 with rfl | rfl
  · exact .inl (by rw [HeaderField.line, hname]; rfl)
  · exact .inr (by rw [HeaderField.line, hname]; rfl)

theorem LengthField.line_length (l : LengthField) : 16 ≤ l.field.line.length := by
  have hdigits := List.length_pos_of_ne_nil l.decimal.ne_nil
  rw [HeaderField.line, List.length_append, List.length_cons, List.length_append, l.value,
    List.length_append, l.name_length]
  omega

variable {line : CStr} {before after lines : List CStr} {hdr pre rest : CStr} {hlen n : Nat}

/-- At `p` the loop looks at the rest of the head. -/
theorem contentLengthFrom_line (hhdr : hdr = pre ++ headText lines ++ rest)
    (hend : hlen = pre.length + (headText lines).length) :
    (hdr.take hlen).drop pre.length = headText lines := by
  rw [hhdr, hend, ← List.length_append, List.take_left, List.drop_left]

theorem contentLengthFrom_found (l : LengthField) (hmax : decimalValue l.digits < 2 ^ 31)
    (hhdr : hdr = pre ++ headText (l.field.line :: after) ++ rest)
    (hend : hlen = pre.length + (headText (l.field.line :: after)).length) :
    contentLengthFrom hdr hlen (n + 1) pre.length = decimalValue l.digits := by
  have hguard : pre.length + 16 < hlen := by
    have hlong := length_of_mem_headText (List.mem_cons_self (a := l.field.line) (l := after))
    have := l.line_length
    omega
  rw [contentLengthFrom, if_pos hguard, contentLengthFrom_line hhdr hend, headText_cons]
  dsimp only
  have hmatch := strncaseeq_field (t := 13 :: 10 :: headText after) l.named
  rw [if_pos ⟨l.first_letter _, hmatch⟩]
  have hafter (t : CStr) : (l.field.line ++ 13 :: t).drop 15 =
      l.field.blanks ++ l.field.value ++ 13 :: t := by
    rw [HeaderField.line, show 15 = l.field.name.length + 1 by rw [l.name_length], List.append_assoc,
      List.drop_append]
    simp
  obtain ⟨hblanks, hatoi⟩ := l.read hmax (10 :: headText after ++ rest)
  rw [hafter, (l.read hmax _).1, hhdr, List.append_assoc, Nat.add_assoc, List.drop_append, ← hatoi,
    Nat.add_sub_cancel_left, List.drop_of_length_le (by omega), List.nil_append, headText_cons,
    List.append_assoc, List.cons_append, ← List.drop_drop, hafter, List.append_assoc l.field.blanks,
    List.drop_left]

theorem contentLengthFrom_next (hline : IsLfFree line)
    (hother : ¬ FieldNamed (lit "Content-Length") line)
    (hhdr : hdr = pre ++ headText (line :: lines) ++ rest)
    (hend : hlen = pre.length + (headText (line :: lines)).length) (hguard : pre.length + 16 < hlen) :
    contentLengthFrom hdr hlen (n + 1) pre.length =
      contentLengthFrom hdr hlen n (pre ++ line ++ [13, 10]).length := by
  rw [contentLengthFrom, if_pos hguard, contentLengthFrom_line hhdr hend, headText_cons]
  dsimp only
  have hmiss := not_named_append hother (10 :: headText lines)
  have hlf : memchr (line ++ 13 :: 10 :: headText lines) 10 = some (line.length + 1) := by
    have h := memchr_append (s := line ++ [13]) (c := 10) (by simp [hline.noLf]) (headText lines)
    rwa [List.append_assoc, List.length_append] at h
  rw [if_neg fun h => Bool.false_ne_true (hmiss.symm.trans h.2), hlf]
  dsimp only
  rw [List.length_append, List.length_append]
  rfl

/-- The scan takes one line a turn until the first of that name. -/
theorem contentLengthFrom_finds (l : LengthField) (hmax : decimalValue l.digits < 2 ^ 31)
    (hbefore : ∀ line ∈ before, IsLfFree line ∧ ¬ FieldNamed (lit "Content-Length") line)
    (hhdr : hdr = pre ++ headText (before ++ l.field.line :: after) ++ rest)
    (hend : hlen = pre.length + (headText (before ++ l.field.line :: after)).length)
    (hn : before.length < n) : contentLengthFrom hdr hlen n pre.length = decimalValue l.digits := by
  induction before generalizing pre n with
  | nil =>
    obtain ⟨n, rfl⟩ : ∃ m, n = m + 1 := ⟨n - 1, by rw [List.length_nil] at hn; omega⟩
    exact contentLengthFrom_found l hmax hhdr hend
  | cons line before ih =>
    obtain ⟨⟨hfree, hother⟩, hbefore⟩ := List.forall_mem_cons.mp hbefore
    rw [List.length_cons] at hn
    obtain ⟨n, rfl⟩ : ∃ m, n = m + 1 := ⟨n - 1, by omega⟩
    have hguard : pre.length + 16 < hlen := by
      have hlong := length_of_mem_headText (List.mem_append_right (line :: before)
        (List.mem_cons_self (a := l.field.line) (l := after)))
      have := l.line_length
      omega
    rw [contentLengthFrom_next hfree hother hhdr hend hguard]
    rw [List.cons_append, headText_cons] at hhdr hend
    refine ih hbefore ?_ ?_ (by omega)
    · rw [hhdr]
      simp
    · rw [hend]
      simp only [List.length_append, List.length_cons, List.length_nil]
      omega

end Proxiflare.Daemon
