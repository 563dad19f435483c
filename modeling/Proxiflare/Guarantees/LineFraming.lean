import Proxiflare.Lib.Lines
import Proxiflare.Daemon.Ipc

/-!
# Requests are framed by newlines alone

However the bytes of a client are cut by `read`, the daemon handles the lines a
one-shot splitter finds, up to the first one that does not fit its buffer, and
removes the client there. The buffer holds what follows the last newline read.
-/

namespace Proxiflare.Guarantees.LineFraming

open Lib.CString Lib.Lines
open Proxiflare.Daemon

variable {ν σ : Type} {env : IpcEnv ν σ} {s : IpcSession ν σ}

/-! ## A client and its stream -/

/-- `sent` is everything the client wrote, `pending` what was not read yet. `session` is as the
last call left it. -/
structure Feed (ν σ : Type) where
  session : IpcSession ν σ
  isOpen : Bool
  sent : CStr
  pending : CStr

/-- `call n` is a readable event whose `read` would return up to `n + 1` bytes. -/
inductive FeedStep where
  | send (bytes : CStr)
  | call (n : Nat)

def Feed.start (st : σ) (c : IpcClient) : Feed ν σ := ⟨⟨st, { c with buf := [] }, [], []⟩, true, [], []⟩

/-- The descriptor is readable while it is open and bytes are pending. -/
def Feed.step (env : IpcEnv ν σ) (f : Feed ν σ) : FeedStep → Feed ν σ
  | .send bytes => { f with sent := f.sent ++ bytes, pending := f.pending ++ bytes }
  | .call n =>
    if f.isOpen && f.pending ≠ [] then
      match processClient env f.session (.data (f.pending.take (n + 1))) with
      | some s => { f with
          session := s
          pending := f.pending.drop (min (n + 1) f.session.client.space) }
      | none => { f with isOpen := false }
    else f

def feedRun (env : IpcEnv ν σ) (st : σ) (c : IpcClient) (steps : List FeedStep) : Feed ν σ :=
  steps.foldl (Feed.step env) (.start st c)

/-- No event is left to come. -/
def Feed.Quiet (f : Feed ν σ) : Prop := f.isOpen = false ∨ f.pending = []

/-! ## The one-shot splitter -/

/-- The longest line that fits. -/
def maxLine : Nat := 8190

/-- The lines before the first that is too long. -/
def framed (sent : CStr) : List CStr := (lines 10 sent).takeWhile fun l => l.length ≤ maxLine

/-- A line is too long, or what has come of one leaves no room for its end. -/
def TooLong (sent : CStr) : Prop :=
  (∃ l ∈ lines 10 sent, maxLine < l.length) ∨ maxLine + 2 ≤ (unfinished 10 sent).length

/-- Each line handled once, in order. -/
def answered (env : IpcEnv ν σ) (st : σ) (c : IpcClient) (ls : List CStr) : IpcSession ν σ :=
  ls.foldl (IpcSession.line env) ⟨st, { c with buf := [] }, [], []⟩

/-! ## The loop over a buffer -/

def withBuf (s : IpcSession ν σ) (buf : CStr) : IpcSession ν σ :=
  { s with client := { s.client with buf := buf } }

/-- Handling a line does not look at the buffer. -/
theorem line_withBuf (s : IpcSession ν σ) (buf line : CStr) :
    (withBuf s buf).line env line = withBuf (s.line env line) buf := by
  cases hparse : env.parse (cstr line) with
  | none => simp only [IpcSession.line, withBuf, hparse]
  | some req =>
    have hrespond : respond env s.state { s.client with buf := buf } req =
        ((respond env s.state s.client req).1, (respond env s.state s.client req).2.1,
          { (respond env s.state s.client req).2.2 with buf := buf }) := by
      unfold respond
      cases (req.getItem (lit "method")).bind Cjson.stringValue with
      | none => rfl
      | some method =>
        have hbuiltin : builtin { s.client with buf := buf } method =
            (builtin s.client method).map fun c => { c with buf := buf } := by
          unfold builtin
          split_ifs <;> rfl
        simp only [hbuiltin]
        cases builtin s.client method with
        | some c => rfl
        | none =>
          simp only [Option.map_none]
          cases (env.handler s.state method (req.getItem (lit "params"))).1 <;> rfl
    simp only [IpcSession.line, withBuf, hparse, hrespond]

theorem foldl_line_withBuf (ls : List CStr) (s : IpcSession ν σ) (buf : CStr) :
    ls.foldl (IpcSession.line env) (withBuf s buf) =
      withBuf (ls.foldl (IpcSession.line env) s) buf := by
  induction ls generalizing s with
  | nil => rfl
  | cons l ls ih => rw [List.foldl_cons, line_withBuf, ih, List.foldl_cons]

/-- With enough turns the loop handles every complete line and leaves the unfinished one. -/
theorem processLines_eq (n : Nat) (start : CStr) (s : IpcSession ν σ) (hn : start.length ≤ n) :
    processLines env n start s =
      (unfinished 10 start, (lines 10 start).foldl (IpcSession.line env) s) := by
  induction n generalizing start s with
  | zero =>
    obtain rfl := List.length_eq_zero_iff.mp (Nat.le_zero.mp hn)
    rfl
  | succ n ih =>
    unfold processLines
    cases hfind : memchr start 10 with
    | none =>
      obtain ⟨hlines, hrest⟩ := lines_of_notMem (memchr_none hfind)
      rw [hlines, hrest]
      rfl
    | some i =>
      obtain ⟨hnot, hsplit⟩ := memchr_some hfind
      obtain ⟨hlines, hrest⟩ := lines_cons hnot (start.drop (i + 1))
      rw [← hsplit] at hlines hrest
      show processLines env n _ _ = _
      rw [hlines, hrest, ih _ _ (by rw [List.length_drop]; omega)]
      rfl

/-! ## The invariant -/

/-- What was read is `taken`; its lines were handled and the rest is in the buffer. A client is
removed when the rest fills the buffer and more has come. -/
structure Follows (env : IpcEnv ν σ) (st : σ) (c : IpcClient) (f : Feed ν σ) (taken : CStr) :
    Prop where
  sent : f.sent = taken ++ f.pending
  session : f.session = withBuf (answered env st c (lines 10 taken)) (unfinished 10 taken)
  short : ∀ l ∈ lines 10 taken, l.length ≤ maxLine
  fits : (unfinished 10 taken).length ≤ maxLine + 1
  closed : f.isOpen = false → (unfinished 10 taken).length = maxLine + 1 ∧ f.pending ≠ []

variable {st : σ} {c : IpcClient} {f : Feed ν σ} {taken : CStr}

theorem Follows.space (h : Follows env st c f taken) :
    f.session.client.space = maxLine + 1 - (unfinished 10 taken).length := by
  rw [h.session]
  show pfBufSize - _ - 1 = _
  have hfits := h.fits
  simp only [maxLine, pfBufSize, withBuf] at hfits ⊢
  omega

theorem step_call_quiet {f : Feed ν σ} (h : f.Quiet) (n : Nat) : f.step env (.call n) = f := by
  unfold Feed.step
  rcases h with h | h
  · simp [h]
  · simp [h]

theorem step_call_ready {f : Feed ν σ} (hopen : f.isOpen = true) (hne : f.pending ≠ []) (n : Nat) :
    f.step env (.call n) =
      match processClient env f.session (.data (f.pending.take (n + 1))) with
      | some s => { f with
          session := s
          pending := f.pending.drop (min (n + 1) f.session.client.space) }
      | none => { f with isOpen := false } :=
  if_pos (by simp [hopen, hne])

theorem quiet_or_ready (f : Feed ν σ) : f.Quiet ∨ f.isOpen = true ∧ f.pending ≠ [] := by
  unfold Feed.Quiet
  cases f.isOpen with
  | false => exact .inl (.inl rfl)
  | true => exact (em (f.pending = [])).imp .inr fun hne => ⟨rfl, hne⟩

/-- A `read` of `part` into a buffer it fits. -/
theorem Follows.read (h : Follows env st c f taken) (part rest : CStr)
    (hpending : f.pending = part ++ rest)
    (hroom : (unfinished 10 taken).length + part.length ≤ maxLine + 1)
    (hopen : f.isOpen = true) :
    Follows env st c
      { f with
        session := withBuf ((lines 10 (unfinished 10 taken ++ part)).foldl (IpcSession.line env)
          f.session) (unfinished 10 (unfinished 10 taken ++ part))
        pending := rest } (taken ++ part) := by
  have hlen : (unfinished 10 taken ++ part).length ≤ maxLine + 1 := by
    rwa [List.length_append]
  constructor
  · rw [h.sent, hpending, List.append_assoc]
  · show withBuf _ _ = _
    rw [h.session, foldl_line_withBuf, lines_append taken part, unfinished_append taken part,
      answered, answered, List.foldl_append]
    rfl
  · intro l hl
    rw [lines_append, List.mem_append] at hl
    rcases hl with hl | hl
    · exact h.short l hl
    · have hlt := length_lt_of_mem_lines hl
      omega
  · rw [unfinished_append]
    exact (length_unfinished_le _).trans hlen
  · intro hclosed
    rw [hopen] at hclosed
    cases hclosed

theorem Follows.call (h : Follows env st c f taken) (n : Nat) :
    ∃ taken', Follows env st c (f.step env (.call n)) taken' := by
  rcases quiet_or_ready f with hquiet | ⟨hopen, hne⟩
  · exact ⟨taken, by rwa [step_call_quiet hquiet]⟩
  · rw [step_call_ready hopen hne]
    have hspace := h.space
    have hfits := h.fits
    by_cases hfull : f.session.client.space = 0
    · refine ⟨taken, ?_⟩
      simp only [processClient, hfull, if_true]
      exact ⟨h.sent, h.session, h.short, h.fits, fun _ => ⟨by omega, hne⟩⟩
    · cases hpart : f.pending.take (n + 1) with
      | nil => simp [hne] at hpart
      | cons b bytes =>
        refine ⟨taken ++ (b :: bytes).take f.session.client.space, ?_⟩
        have hbuf : f.session.client.buf = unfinished 10 taken := by
          rw [h.session]
          rfl
        simp only [processClient, hfull, if_false, hbuf, processLines_eq _ _ _ le_rfl]
        refine h.read _ _ ?_ ?_ hopen
        · rw [← hpart, List.take_take, Nat.min_comm, List.take_append_drop]
        · rw [List.length_take]
          omega

theorem feedRun_follows (env : IpcEnv ν σ) (st : σ) (c : IpcClient) (steps : List FeedStep) :
    ∃ taken, Follows env st c (feedRun env st c steps) taken := by
  have hstart : Follows env st c (.start st c) [] :=
    ⟨rfl, rfl, nofun, Nat.zero_le _, nofun⟩
  suffices ∀ f taken, Follows env st c f taken →
      ∃ taken', Follows env st c (steps.foldl (Feed.step env) f) taken' by
    exact this _ _ hstart
  induction steps with
  | nil => exact fun f taken h => ⟨taken, h⟩
  | cons step steps ih =>
    intro f taken h
    cases step with
    | send bytes =>
      refine ih _ taken ⟨?_, h.session, h.short, h.fits, fun hclosed => ?_⟩
      · show f.sent ++ bytes = taken ++ (f.pending ++ bytes)
        rw [h.sent, List.append_assoc]
      · obtain ⟨hfull, hne⟩ := h.closed hclosed
        exact ⟨hfull, by simp [Feed.step, hne]⟩
    | call n =>
      obtain ⟨taken', h'⟩ := h.call n
      exact ih _ taken' h'

/-! ## What the splitter says of a followed stream -/

/-- Nothing that is still to come changes the lines already framed. -/
theorem framed_of_short (hshort : ∀ l ∈ lines 10 taken, l.length ≤ maxLine) (t : CStr) :
    framed (taken ++ t) = lines 10 taken ++
      (lines 10 (unfinished 10 taken ++ t)).takeWhile fun l => l.length ≤ maxLine := by
  unfold framed
  rw [lines_append, List.takeWhile_append_of_pos]
  intro l hl
  exact decide_eq_true (hshort l hl)

/-- After a full buffer no further line is framed, and the stream has a line too long. -/
theorem full_buffer (hfull : (unfinished 10 taken).length = maxLine + 1) {t : CStr} (ht : t ≠ []) :
    (lines 10 (unfinished 10 taken ++ t)).takeWhile (fun l => l.length ≤ maxLine) = [] ∧
      TooLong (taken ++ t) := by
  cases hlines : lines 10 (unfinished 10 taken ++ t) with
  | nil =>
    refine ⟨rfl, .inr ?_⟩
    have hnot : (10 : UInt8) ∉ unfinished 10 taken ++ t := by
      intro hmem
      obtain ⟨pre, post, hsplit, hpre⟩ := List.eq_append_cons_of_mem hmem
      rw [hsplit, (lines_cons hpre post).1] at hlines
      cases hlines
    rw [unfinished_append, (lines_of_notMem hnot).2, List.length_append, hfull]
    have hpos := List.length_pos_iff.mpr ht
    omega
  | cons l ls =>
    have hlong : maxLine < l.length := by
      have hle := length_le_of_head_lines (unfinished_notMem taken) (t := t) (l := l)
        (by rw [hlines]; rfl)
      omega
    refine ⟨by simp [Nat.not_le.mpr hlong], .inl ⟨l, ?_, hlong⟩⟩
    rw [lines_append, hlines]
    simp

/-! ## Replies -/

theorem foldl_line_lines (ls : List CStr) (s : IpcSession ν σ) :
    (ls.foldl (IpcSession.line env) s).lines = s.lines ++ ls := by
  induction ls generalizing s with
  | nil => simp
  | cons l ls ih =>
    have hline : (s.line env l).lines = s.lines ++ [l] := by
      unfold IpcSession.line
      cases env.parse (cstr l) <;> rfl
    rw [List.foldl_cons, ih, hline, List.append_assoc]
    rfl

theorem respond_id (env : IpcEnv ν σ) (st : σ) (c : IpcClient) (req : Cjson ν) :
    (respond env st c req).1.getItem (lit "id") = some (replyId req) := by
  obtain ⟨key, value, heq⟩ := respond_reply env st c req
  rw [heq]
  rfl

/-- The requests among some lines. -/
def requests (env : IpcEnv ν σ) (ls : List CStr) : List (Cjson ν) :=
  ls.filterMap fun l => env.parse (cstr l)

/-- One reply for each line that parses, in order and with its id. -/
theorem foldl_line_ids (ls : List CStr) (s : IpcSession ν σ) :
    (ls.foldl (IpcSession.line env) s).replies.map (Cjson.getItem · (lit "id")) =
      s.replies.map (Cjson.getItem · (lit "id")) ++
        (requests env ls).map fun req => some (replyId req) := by
  induction ls generalizing s with
  | nil => simp [requests]
  | cons l ls ih =>
    rw [List.foldl_cons, ih]
    unfold requests IpcSession.line
    cases hparse : env.parse (cstr l) with
    | none => simp [hparse]
    | some req => simp [hparse, respond_id]

/-! ## Calls come to an end -/

theorem quiet_calls {f : Feed ν σ} (h : f.Quiet) (ns : List Nat) :
    (ns.map .call).foldl (Feed.step env) f = f := by
  induction ns with
  | nil => rfl
  | cons n ns ih => rw [List.map_cons, List.foldl_cons, step_call_quiet h, ih]

/-- A call on a readable client removes it or reads at least one byte. -/
theorem call_progress (env : IpcEnv ν σ) {f : Feed ν σ} (hopen : f.isOpen = true) (hne : f.pending ≠ []) (n : Nat) :
    (f.step env (.call n)).Quiet ∨ (f.step env (.call n)).pending.length < f.pending.length := by
  rw [step_call_ready hopen hne]
  by_cases hfull : f.session.client.space = 0
  · simp only [processClient, hfull, if_true]
    exact .inl (.inl rfl)
  · right
    have hpos := List.length_pos_iff.mpr hne
    cases hpart : f.pending.take (n + 1) with
    | nil => simp [hne] at hpart
    | cons b bytes =>
      simp only [processClient, hfull, if_false, List.length_drop]
      omega

theorem calls_quiet (f : Feed ν σ) (ns : List Nat) (hns : f.pending.length < ns.length) :
    ((ns.map .call).foldl (Feed.step env) f).Quiet := by
  induction ns generalizing f with
  | nil => exact absurd hns (Nat.not_lt_zero _)
  | cons n ns ih =>
    rcases quiet_or_ready f with hquiet | ⟨hopen, hne⟩
    · rwa [quiet_calls hquiet]
    · rcases call_progress env hopen hne n with hquiet | hlt
      · show ((ns.map .call).foldl (Feed.step env) (f.step env (.call n))).Quiet
        rwa [quiet_calls hquiet]
      · refine ih _ ?_
        rw [List.length_cons] at hns
        omega

/-! ## The result -/

/-- At any moment the lines handled are the first of those framed, each answered once if it
parses; reading on for as long as bytes are pending comes to an end, and then they are all of
them and the client was removed exactly if a line is too long. -/
theorem framing_by_newlines (env : IpcEnv ν σ) (st : σ) (c : IpcClient) (steps : List FeedStep) :
    (feedRun env st c steps).session.lines <+: framed (feedRun env st c steps).sent ∧
      (feedRun env st c steps).session.replies =
        (answered env st c (feedRun env st c steps).session.lines).replies ∧
      (feedRun env st c steps).session.replies.map (Cjson.getItem · (lit "id")) =
        (requests env (feedRun env st c steps).session.lines).map (fun req => some (replyId req)) ∧
      (∀ ns : List Nat, (feedRun env st c steps).pending.length < ns.length →
        ((ns.map .call).foldl (Feed.step env) (feedRun env st c steps)).Quiet) ∧
      ((feedRun env st c steps).Quiet →
        (feedRun env st c steps).session.lines = framed (feedRun env st c steps).sent ∧
          ((feedRun env st c steps).isOpen = false ↔ TooLong (feedRun env st c steps).sent)) := by
  obtain ⟨taken, h⟩ := feedRun_follows env st c steps
  generalize feedRun env st c steps = f at h ⊢
  have hlines : f.session.lines = lines 10 taken := by
    rw [h.session]
    exact foldl_line_lines _ _
  have hframed := framed_of_short h.short f.pending
  rw [← h.sent] at hframed
  refine ⟨?_, ?_, ?_, calls_quiet f, fun hquiet => ?_⟩
  · rw [hlines, hframed]
    exact List.prefix_append _ _
  · rw [hlines, h.session]
    rfl
  · rw [hlines, h.session]
    exact foldl_line_ids _ _
  · rw [hlines, hframed]
    cases hopen : f.isOpen with
    | false =>
      obtain ⟨hfull, hne⟩ := h.closed hopen
      obtain ⟨hnone, hlong⟩ := full_buffer hfull hne
      rw [hnone, List.append_nil, h.sent]
      exact ⟨rfl, iff_of_true rfl hlong⟩
    | true =>
      have hnil : f.pending = [] := hquiet.resolve_left (by simp [hopen])
      have hsent : f.sent = taken := by rw [h.sent, hnil, List.append_nil]
      have hnot : (10 : UInt8) ∉ unfinished 10 taken := unfinished_notMem taken
      have hrest := lines_of_notMem hnot
      rw [hnil, List.append_nil, hrest.1, hsent]
      refine ⟨(List.append_nil _).symm, iff_of_false (by simp) ?_⟩
      intro hlong
      rcases hlong with ⟨l, hl, hlt⟩ | hlt
      · have hle := h.short l hl
        omega
      · have hle := h.fits
        omega

/-- Takes every line for a request without members. -/
def echoEnv : IpcEnv Int Nat := ⟨id, fun _ => some (.obj []), fun n _ _ => (some .null, n + 1)⟩

/-- `a`, a newline and the first half of the next line, read in two calls. -/
theorem split_read_frames_one_line :
    (feedRun echoEnv 0 .free [.send [97, 10, 98], .call 0, .call 5]).session.lines =
      framed (feedRun echoEnv 0 .free [.send [97, 10, 98], .call 0, .call 5]).sent :=
  ((framing_by_newlines echoEnv 0 .free [.send [97, 10, 98], .call 0, .call 5]).2.2.2.2
    (.inr (by decide))).1

end Proxiflare.Guarantees.LineFraming
