import Proxiflare.Daemon.DohExchange

/-!
# The DoH answer does not depend on how it arrives

The head is found wherever the pieces are cut, what came with it is kept, and the second
loop reads what is missing. The length is that of the first field of its name.
-/

namespace Proxiflare.Guarantees.DohChunks

open Lib Lib.CString Lib.HttpText
open Proxiflare.Daemon

/-- The head of a 200 response with a plain length. A line may hold a CR but no LF. -/
structure OkHead where
  status : CStr
  before : List CStr
  length : LengthField
  after : List CStr
  ok : isOk status = true
  lines : ∀ line ∈ status :: before ++ length.field.line :: after, IsLfFree line
  first : ∀ line ∈ before, ¬ FieldNamed (lit "Content-Length") line
  range : 1 ≤ decimalValue length.digits ∧ decimalValue length.digits ≤ 4096
  fits : (headText (status :: before ++ length.field.line :: after)).length ≤ 8192

def OkHead.text (h : OkHead) : CStr := headText (h.status :: h.before ++ h.length.field.line :: h.after)

def OkHead.bodyLength (h : OkHead) : Nat := decimalValue h.length.digits

variable {h : OkHead} {body got : CStr} {pieces : List CStr} {c : DnsCache} {now now' : Int} {q : CStr}

/-! ## The status line -/

theorem isOk_length {s : CStr} (hok : isOk s = true) : 12 ≤ s.length := by
  simp only [isOk, Bool.or_eq_true, decide_eq_true_eq] at hok
  rcases hok with hok | hok
  · have hlen := congrArg List.length hok
    rw [List.length_take, show (lit "HTTP/1.1 200").length = 12 from rfl] at hlen
    omega
  · have hlen := congrArg List.length hok
    rw [List.length_take, show (lit "HTTP/1.0 200").length = 12 from rfl] at hlen
    omega

theorem isOk_append {s : CStr} (hok : isOk s = true) (t : CStr) : isOk (s ++ t) = true := by
  have hlen := isOk_length hok
  unfold isOk at hok ⊢
  rwa [List.take_append_of_le_length hlen]

theorem isOk_head {s : CStr} (hok : isOk s = true) : ∃ t, s = 72 :: t := by
  obtain ⟨b, t, rfl⟩ := List.exists_cons_of_length_pos (Nat.lt_of_lt_of_le (by decide) (isOk_length hok))
  simp only [isOk, Bool.or_eq_true, decide_eq_true_eq] at hok
  have hb : b = 72 := by
    rcases hok with hok | hok
    · exact (List.cons.inj hok).1
    · exact (List.cons.inj hok).1
  exact ⟨t, by rw [hb]⟩

theorem status_not_named {s : CStr} (hok : isOk s = true) :
    ¬ FieldNamed (lit "Content-Length") s := by
  obtain ⟨t, rfl⟩ := isOk_head hok
  rintro ⟨-, hname⟩
  rw [List.takeWhile_cons_of_pos (by decide)] at hname
  exact absurd (List.cons.inj (of_decide_eq_true hname)).1 (by decide)

/-! ## The whole exchange -/

theorem OkHead.first_end (h : OkHead) (body : CStr) :
    Pattern.First crlfCrlf (h.text ++ body) (h.text.length - 4) := by
  apply first_headText
  · exact List.cons_ne_nil _ _
  · exact h.lines

theorem OkHead.long (h : OkHead) : 16 ≤ h.text.length := by
  have hlen := length_of_mem_headText (List.mem_cons_self (a := h.status)
    (l := h.before ++ h.length.field.line :: h.after))
  have := isOk_length h.ok
  unfold OkHead.text
  rw [List.cons_append]
  omega

/-- The scan of the head gives the length. -/
theorem OkHead.scan (h : OkHead) (rest : CStr) :
    parseContentLength (h.text ++ rest) h.text.length = h.bodyLength := by
  have hmax : decimalValue h.length.digits < 2 ^ 31 := by
    have := h.range.2
    omega
  have hbefore : ∀ line ∈ h.status :: h.before,
      IsLfFree line ∧ ¬ FieldNamed (lit "Content-Length") line := by
    intro line hline
    refine ⟨h.lines line (List.mem_append_left _ hline), ?_⟩
    rcases List.mem_cons.mp hline with rfl | hmem
    · exact status_not_named h.ok
    · exact h.first line hmem
  have hcount : (h.status :: h.before).length < h.text.length := by
    have hlines := length_lt_headText (h.status :: h.before ++ h.length.field.line :: h.after)
    rw [List.length_append] at hlines
    unfold OkHead.text
    omega
  have hhdr : h.text ++ rest = [] ++ h.text ++ rest := rfl
  exact contentLengthFrom_finds h.length hmax hbefore hhdr (Nat.zero_add _).symm hcount

theorem dohBody_eq (hbody : h.bodyLength ≤ body.length) (hstream : stream pieces = h.text ++ body) :
    dohBody pieces = some (body.take h.bodyLength) := by
  have hstart : [] ++ stream pieces = h.text ++ body := hstream
  have hnone : ∀ i, ¬ Pattern.At crlfCrlf [] i := by
    intro i hat
    have hend := hat.end_le (List.cons_ne_nil _ _)
    simp [crlfCrlf] at hend
  obtain ⟨got, left, hread, hgot, hlong⟩ := readHttpHeaders_finds (h.first_end body)
    (Nat.le_trans (by decide) h.long) h.fits hstart hnone
  obtain ⟨came, rfl⟩ : h.text <+: got :=
    List.prefix_of_prefix_length_le ⟨body, rfl⟩ ⟨stream left, hgot⟩ hlong
  rw [List.append_assoc] at hgot
  have hrest := List.append_cancel_left hgot
  have hok : isOk (h.text ++ came) = true := by
    unfold OkHead.text
    rw [List.cons_append, headText_cons, List.append_assoc]
    exact isOk_append h.ok _
  have hrange : (0 : Int) < h.bodyLength ∧ (h.bodyLength : Int) ≤ 4096 := by
    have := h.range
    unfold OkHead.bodyLength
    omega
  rw [List.length_nil] at hread
  have hgot' : ((h.text ++ came).drop h.text.length).take h.bodyLength =
      came.take h.bodyLength := by
    rw [List.drop_left]
  unfold dohBody
  rw [hread, Option.bind_eq_bind, Option.bind_some]
  dsimp only
  rw [hok, h.scan, Int.toNat_natCast, hgot', ← hrest]
  simp only [guard, if_true, if_pos hrange, Option.pure_def, Option.bind_eq_bind, Option.bind_some]
  split
  · next hmore =>
    have hshort : came.length < h.bodyLength := by
      rw [List.length_take] at hmore
      omega
    have hle : h.bodyLength - came.length ≤ (stream left).length := by
      have hlen := congrArg List.length hrest
      rw [List.length_append] at hlen
      omega
    rw [List.take_of_length_le (Nat.le_of_lt hshort)]
    obtain ⟨left', hloop, -⟩ := recvLoop_of_le hle
    rw [sslReadFull, hloop, Option.map_some, List.take_append,
      List.take_of_length_le (Nat.le_of_lt hshort)]
  · next hall =>
    have hlong' : h.bodyLength ≤ came.length := by
      rw [List.length_take] at hall
      omega
    rw [List.take_append_of_le_length hlong']

/-- Every slot of the cache is the one before or holds the answer without its id. -/
theorem putAnswer_slots {resp : CStr} :
    ∀ e ∈ (putAnswer c now q resp).slots, e ∈ c.slots ∨ e.resp = resp.drop 2 := by
  intro e he
  unfold putAnswer at he
  split at he
  · exact .inl he
  · rcases WriteRing.mem_of_mem_writes he with he | he
    · exact .inr (putEntry_some (Option.mem_toList.mp he)).2.2.2.1
    · exact .inl he

/-- However the bytes are cut into pieces, the client is sent the first `n` bytes of the body, and
they are what the cache is given. -/
theorem doh_body_of_any_pieces (hbody : h.bodyLength ≤ body.length)
    (hstream : stream pieces = h.text ++ body) (hmiss : cachedAnswer c now q = none) :
    dnsWorker c now now' q pieces =
      (some (body.take h.bodyLength), putAnswer c now' q (body.take h.bodyLength)) ∧
    ∀ e ∈ (putAnswer c now' q (body.take h.bodyLength)).slots,
      e ∈ c.slots ∨ e.resp = (body.take h.bodyLength).drop 2 := by
  refine ⟨?_, putAnswer_slots⟩
  rw [dnsWorker, hmiss]
  dsimp only
  rw [dohBody_eq hbody hstream]

/-- A length in another case, after another field, with blanks around it. -/
def smallHead : OkHead where
  status := lit "HTTP/1.1 200 OK"
  before := [lit "Content-Length-Of: 7"]
  length := ⟨⟨lit "content-length", [32, 9], lit "05 "⟩, lit "05", [32], by decide,
    by decide +kernel, rfl, ⟨by decide, by decide +kernel⟩, by decide +kernel⟩
  after := []
  ok := by decide
  lines line hline := by
    have hall : ∀ line ∈ [lit "HTTP/1.1 200 OK", lit "Content-Length-Of: 7",
        lit "content-length: \t05 "], line ≠ [] ∧ 10 ∉ line := by decide
    obtain ⟨hne, hlf⟩ := hall line hline
    exact ⟨hne, hlf⟩
  first := by
    unfold FieldNamed
    decide
  range := by decide
  fits := by decide

def smallQuery : CStr := [0, 7, 1, 0, 0, 1, 0, 0, 0, 0, 0, 0, 1, 97, 0, 0, 1, 0, 1]

/-- The head and the first byte of the body in pieces of one byte, then more than is asked for. -/
def smallPieces : List CStr :=
  (smallHead.text ++ [1]).map (fun b => [b]) ++ [[2, 3, 4, 5, 6], []]

theorem smallPieces_answered :
    dnsWorker .start 0 0 smallQuery smallPieces =
      (some [1, 2, 3, 4, 5], putAnswer .start 0 smallQuery [1, 2, 3, 4, 5]) :=
  have hstream : stream smallPieces = smallHead.text ++ [1, 2, 3, 4, 5, 6] := by decide +kernel
  (doh_body_of_any_pieces (by decide) hstream (by decide +kernel)).1

end Proxiflare.Guarantees.DohChunks
