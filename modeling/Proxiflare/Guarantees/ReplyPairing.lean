import Proxiflare.Lib.Runs
import Proxiflare.Gui.DaemonClient
import Proxiflare.Guarantees.OutboundFraming

/-!
# Replies on the cached stream

The client never compares ids: it takes the next line for its reply. That line is its
own as long as no request on the cached stream subscribes to events. Between two
calls a kept stream then has nothing in flight, and a call that fails before its
line is complete drops the stream with what is.
-/

namespace Proxiflare.Guarantees.ReplyPairing

open Lib.CString Lib.Lines Lib.Runs
open Proxiflare.Daemon Proxiflare.Gui

variable {ν σ : Type} {env : IpcEnv ν σ} {w : Wire ν}

/-! ## What is relied on -/

/-- `serde_json` escapes newlines, `print_number` writes no control characters, and `cJSON_Parse`
reads the method of a request text. -/
structure Sound (env : IpcEnv ν σ) (w : Wire ν) : Prop where
  toText : ∀ v, 10 ∉ w.toText v
  printNumber : ∀ n, ∀ b ∈ w.printNumber n, 32 ≤ b
  method : ∀ id method params req, env.parse (cstr (w.toText (requestOf w id method params))) =
    some req → (req.getItem (lit "method")).bind Cjson.stringValue = some (cstr method)

def IsSubscription (method : CStr) : Prop :=
  method = lit "log.subscribe" ∨ method = lit "stats.subscribe"

/-- Events are received on a connection of their own. -/
def NoSubscription (_ : Client ν) : ClientStep ν σ → Prop
  | .request method _ _ => ¬ IsSubscription (cstr method)
  | _ => True

/-! ## The invariant -/

def Unsubscribed (c : IpcClient) : Prop := c.subscribedLog = false ∧ c.subscribedStats = false

/-- Nothing is in flight. -/
structure Quiet (conn : Conn) : Prop where
  pending : conn.pending = []
  inbox : conn.inbox = []

/-- A line that subscribes to nothing. -/
def PlainLine (env : IpcEnv ν σ) (line : CStr) : Prop :=
  ∀ req method, env.parse (cstr line) = some req →
    (req.getItem (lit "method")).bind Cjson.stringValue = some method → ¬ IsSubscription method

/-- What was read and what arrived are the beginning of one reply line. -/
def OwnReply (k : Nat) (bytes : List (UInt8 × Origin)) : Prop :=
  ∃ msg : CStr, 10 ∉ msg ∧ bytes <+: (msg ++ [10]).map fun b => (b, Origin.reply k)

/-- The request is not handled yet, or its reply is on the way. -/
def Awaits (env : IpcEnv ν σ) (conn : Conn) (k : Nat) (bytes : List (UInt8 × Origin)) : Prop :=
  (∃ line, PlainLine env line ∧ conn.pending = [(k, line)] ∧ conn.inbox = [] ∧ bytes = []) ∨
    conn.pending = [] ∧ OwnReply k (bytes ++ conn.inbox)

def InStep (env : IpcEnv ν σ) (conn : Conn) : Option (Nat × CallState) → Prop
  | none => Quiet conn
  | some (_, .writing line) => Quiet conn ∧ 10 ∉ line ∧ PlainLine env line
  | some (k, .reading bytes) => Awaits env conn k bytes

structure Paired (env : IpcEnv ν σ) (g : Client ν) : Prop where
  returned : ∀ r ∈ g.returned, ∀ o ∈ r.sources, o = .reply r.request
  unsubscribed : ∀ conn, g.stream = some conn → ∀ c, conn.slot = some c → Unsubscribed c
  inStep : ∀ conn, g.stream = some conn → InStep env conn g.call

/-! ## The daemon's side -/

theorem builtin_unsubscribed {c c' : IpcClient} {method : CStr} (hc : Unsubscribed c)
    (hm : ¬ IsSubscription method) (h : builtin c method = some c') : Unsubscribed c' := by
  rw [IsSubscription, not_or] at hm
  unfold builtin at h
  rw [if_neg hm.1] at h
  split at h
  · obtain rfl := Option.some.inj h
    exact ⟨rfl, hc.2⟩
  · rw [if_neg hm.2] at h
    split at h
    · obtain rfl := Option.some.inj h
      exact ⟨hc.1, rfl⟩
    · cases h

theorem respond_unsubscribed {st : σ} {c : IpcClient} {req : Cjson ν} (hc : Unsubscribed c)
    (hm : ∀ method, (req.getItem (lit "method")).bind Cjson.stringValue = some method →
      ¬ IsSubscription method) : Unsubscribed (respond env st c req).2.2 := by
  rcases respond_client env st c req with hsame | ⟨method, hmethod, hbuiltin⟩
  · rw [hsame]
    exact hc
  · exact builtin_unsubscribed hc (hm method hmethod) hbuiltin

/-- One line gets at most one reply, and a plain one leaves the client unsubscribed. -/
theorem line_spec (st : σ) {c : IpcClient} {line : CStr} (hc : Unsubscribed c)
    (hline : PlainLine env line) :
    Unsubscribed (IpcSession.line env ⟨st, c, [], []⟩ line).client ∧
      ((IpcSession.line env ⟨st, c, [], []⟩ line).replies = [] ∨
        ∃ response, (IpcSession.line env ⟨st, c, [], []⟩ line).replies = [response]) := by
  unfold IpcSession.line
  split
  · exact ⟨hc, .inl rfl⟩
  · next req hreq =>
    refine ⟨respond_unsubscribed hc ?_, .inr ⟨_, rfl⟩⟩
    intro method hmethod
    exact hline req method hreq hmethod

/-- What is written of a message is the beginning of its line. -/
theorem ownReply_sendBytes (hw : Sound env w) (k : Nat) (msg : Cjson ν) (rs : List WriteRes) :
    OwnReply k ((sendBytes rs 0 (messageBytes w.printNumber msg)).map fun b => (b, .reply k)) := by
  have hpre := OutboundFraming.sendBytes_isPrefix rs 0 (messageBytes w.printNumber msg)
  have hmsg := Cjson.newline_notMem_print hw.printNumber msg
  exact ⟨msg.print w.printNumber, hmsg, hpre.map _⟩

theorem ownReply_nil (k : Nat) : OwnReply k [] := ⟨[], List.not_mem_nil, List.nil_prefix⟩

/-- The daemon is served only while a call awaits its reply. -/
theorem serveLine_spec (hw : Sound env w) {conn conn' : Conn} {call : Option (Nat × CallState)}
    {st : σ} {rs : List WriteRes} (hun : ∀ c, conn.slot = some c → Unsubscribed c)
    (hin : InStep env conn call) (h : serveLine env w conn st rs = some conn') :
    (∀ c, conn'.slot = some c → Unsubscribed c) ∧ InStep env conn' call := by
  obtain ⟨pending, slot, inbox⟩ := conn
  unfold serveLine at h
  cases slot with
  | none => cases h
  | some c =>
    cases pending with
    | nil => cases h
    | cons p rest =>
      obtain ⟨k, line⟩ := p
      have hawaits : ∃ bytes, call = some (k, .reading bytes) ∧ PlainLine env line ∧ rest = [] ∧
          inbox = [] ∧ bytes = [] := by
        rcases call with _ | ⟨k', _ | bytes⟩
        · cases hin.pending
        · cases hin.1.pending
        · rcases hin with ⟨line', hplain, hpending, hinbox, hbytes⟩ | ⟨hpending, -⟩
          · obtain ⟨heq, hrest⟩ := List.cons.inj hpending
            obtain ⟨rfl, rfl⟩ := Prod.mk.inj heq
            exact ⟨bytes, rfl, hplain, hrest, hinbox, hbytes⟩
          · cases hpending
      obtain ⟨bytes, rfl, hplain, rfl, rfl, rfl⟩ := hawaits
      obtain ⟨hc', hreplies⟩ := line_spec st (hun c rfl) hplain
      dsimp only at h
      split at h
      · obtain rfl := Option.some.inj h
        rcases hreplies with hnone | ⟨response, hone⟩
        · rw [hnone]
          refine ⟨?_, .inr ⟨rfl, ownReply_nil k⟩⟩
          intro c' hslot
          obtain rfl := Option.some.inj hslot
          exact hc'
        · rw [hone]
          refine ⟨?_, .inr ⟨rfl, ownReply_sendBytes hw k response rs⟩⟩
          intro c' hslot
          obtain rfl := Option.some.inj hslot
          exact hc'
      · cases h

/-- No event reaches an unsubscribed client. -/
theorem broadcast_none {conn : Conn} {subscribed : IpcClient → Bool} {msg : Cjson ν}
    {rs : List WriteRes} (h : ∀ c, conn.slot = some c → subscribed c = false) :
    broadcast w conn subscribed msg rs = none := by
  unfold broadcast
  cases hslot : conn.slot with
  | none => rfl
  | some c => simp [h c hslot]

/-! ## The client's side -/

theorem paired_of_stream {conn : Conn} {call : Option (Nat × CallState)} {nextId : Nat}
    {returned : List (Returned ν)} (hret : ∀ r ∈ returned, ∀ o ∈ r.sources, o = .reply r.request)
    (hun : ∀ c, conn.slot = some c → Unsubscribed c) (hin : InStep env conn call) :
    Paired env ⟨some conn, call, nextId, returned⟩ := by
  refine ⟨hret, ?_, ?_⟩
  · intro conn' hconn'
    obtain rfl := Option.some.inj hconn'
    exact hun
  · intro conn' hconn'
    obtain rfl := Option.some.inj hconn'
    exact hin

theorem fresh_unsubscribed (fd : Int) : ∀ c, (Conn.fresh fd).slot = some c → Unsubscribed c := by
  intro c hslot
  obtain rfl := Option.some.inj hslot
  exact ⟨rfl, rfl⟩

theorem fresh_quiet (fd : Int) : Quiet (Conn.fresh fd) := ⟨rfl, rfl⟩

theorem Paired.finish {g : Client ν} {stream : Option Conn} {k : Nat}
    {result : Except ClientError (Cjson ν)} {sources : List Origin} (h : Paired env g)
    (hstream : ∀ conn, stream = some conn →
      (∀ c, conn.slot = some c → Unsubscribed c) ∧ Quiet conn)
    (hsources : ∀ o ∈ sources, o = .reply k) : Paired env (g.finish stream k result sources) := by
  refine ⟨?_, fun conn hconn => (hstream conn hconn).1, fun conn hconn => (hstream conn hconn).2⟩
  intro r hr
  rcases List.mem_append.mp hr with hr | hr
  · exact h.returned r hr
  · obtain rfl := List.mem_singleton.mp hr
    exact hsources

/-- Only bytes of the own reply have been read. -/
theorem OwnReply.sources {k : Nat} {bytes rest : List (UInt8 × Origin)}
    (h : OwnReply k (bytes ++ rest)) : ∀ o ∈ bytes.map Prod.snd, o = .reply k := by
  obtain ⟨msg, -, hpre⟩ := h
  intro o ho
  obtain ⟨p, hp, rfl⟩ := List.mem_map.mp ho
  have hmem := hpre.subset (List.mem_append_left rest hp)
  obtain ⟨b, -, rfl⟩ := List.mem_map.mp hmem
  rfl

/-- After the newline of the own reply nothing is left. -/
theorem OwnReply.newline {k : Nat} {bytes inbox : List (UInt8 × Origin)} {o : Origin}
    (h : OwnReply k (bytes ++ (10, o) :: inbox)) : inbox = [] := by
  obtain ⟨msg, hmsg, hpre⟩ := h
  have hfst := hpre.map Prod.fst
  have hmap : ((msg ++ [10]).map fun b => (b, Origin.reply k)).map Prod.fst = msg ++ [10] := by
    rw [List.map_map]
    exact List.map_id _
  rw [hmap, List.map_append] at hfst
  exact List.map_eq_nil_iff.mp (nothing_after_terminator hmsg hfst)

/-- The request line is put on a quiet stream. -/
theorem plainLine_request (hw : Sound env w) {method : CStr} (hm : ¬ IsSubscription (cstr method))
    (id : Nat) (params : Cjson ν) : PlainLine env (w.toText (requestOf w id method params)) := by
  intro req method' hparse hmethod
  rw [hw.method id method params req hparse] at hmethod
  obtain rfl := Option.some.inj hmethod
  exact hm

/-- The line ends, at its newline or with the stream. -/
theorem paired_lineEnd {g : Client ν} {conn : Conn} {k : Nat} {bytes : List (UInt8 × Origin)}
    (h : Paired env g) (hun : ∀ c, conn.slot = some c → Unsubscribed c)
    (hquiet : bytes ≠ [] → Quiet conn) (hsources : ∀ o ∈ bytes.map Prod.snd, o = .reply k) :
    Paired env (g.lineEnd w conn k bytes) := by
  unfold Client.lineEnd
  refine h.finish ?_ hsources
  intro conn' hconn'
  split at hconn'
  · cases hconn'
  · next hne =>
    obtain rfl := Option.some.inj hconn'
    exact ⟨hun, hquiet hne⟩

/-- A call starts on a stream that is fresh or was left quiet. -/
theorem paired_request (hw : Sound env w) {g g' : Client ν} {method : CStr} {params : Cjson ν}
    {fd : Option Int} (h : Paired env g) (hm : ¬ IsSubscription (cstr method))
    (hs : Client.step env w g (.request method params fd) = some g') : Paired env g' := by
  obtain ⟨stream, call, nextId, returned⟩ := g
  rcases call with _ | call
  · simp only [Client.step] at hs
    cases hconn : stream.or (fd.map Conn.fresh) with
    | none =>
      rw [hconn] at hs
      obtain rfl := Option.some.inj hs
      exact h.finish nofun nofun
    | some conn =>
      rw [hconn] at hs
      obtain rfl := Option.some.inj hs
      have hstart : (∀ c, conn.slot = some c → Unsubscribed c) ∧ Quiet conn := by
        rcases Option.or_eq_some_iff.mp hconn with hold | ⟨-, hnew⟩
        · exact ⟨h.unsubscribed conn hold, h.inStep conn hold⟩
        · obtain ⟨fd', -, rfl⟩ := Option.map_eq_some_iff.mp hnew
          exact ⟨fresh_unsubscribed fd', fresh_quiet fd'⟩
      have hplain := plainLine_request hw hm nextId params
      exact paired_of_stream h.returned hstart.1 ⟨hstart.2, hw.toText _, hplain⟩
  · cases hs

/-- The request becomes the one pending line. -/
theorem paired_writeAll {g g' : Client ν} (h : Paired env g)
    (hs : Client.step env w g .writeAll = some g') : Paired env g' := by
  obtain ⟨stream, call, nextId, returned⟩ := g
  rcases stream with _ | conn
  · cases hs
  · rcases call with _ | ⟨k, line | bytes⟩
    · cases hs
    · obtain rfl := Option.some.inj hs
      obtain ⟨hquiet, hline, hplain⟩ := h.inStep conn rfl
      have hlines : lines 10 (line ++ [10]) = [line] := (lines_cons hline []).1
      have hpending : conn.pending ++ (lines 10 (line ++ [10])).map (fun l => (k, l)) =
          [(k, line)] := by
        simp [hquiet.pending, hlines]
      exact paired_of_stream h.returned (h.unsubscribed conn rfl)
        (.inl ⟨line, hplain, hpending, hquiet.inbox, rfl⟩)
    · cases hs

/-- A byte that can be read is of the own reply. -/
theorem paired_readByte {g g' : Client ν} (h : Paired env g)
    (hs : Client.step env w g .readByte = some g') : Paired env g' := by
  obtain ⟨stream, call, nextId, returned⟩ := g
  rcases stream with _ | ⟨pending, slot, inbox⟩
  · cases hs
  · rcases call with _ | ⟨k, line | bytes⟩
    · cases hs
    · cases hs
    · cases inbox with
      | nil => cases hs
      | cons p inbox =>
        obtain ⟨b, o⟩ := p
        have hun := h.unsubscribed _ rfl
        have hown : pending = [] ∧ OwnReply k (bytes ++ (b, o) :: inbox) := by
          rcases h.inStep _ rfl with ⟨-, -, -, hinbox, -⟩ | hown
          · cases hinbox
          · exact hown
        simp only [Client.step] at hs
        split at hs
        · next hb =>
          obtain rfl := Option.some.inj hs
          subst hb
          exact paired_lineEnd h hun (fun _ => ⟨hown.1, hown.2.newline⟩) hown.2.sources
        · obtain rfl := Option.some.inj hs
          have hread : OwnReply k (bytes ++ [(b, o)] ++ inbox) := by
            rw [List.append_assoc]
            exact hown.2
          exact paired_of_stream h.returned hun (.inr ⟨hown.1, hread⟩)

/-- At the end of the stream the bytes read are all there were. -/
theorem paired_readEof {g g' : Client ν} (h : Paired env g)
    (hs : Client.step env w g .readEof = some g') : Paired env g' := by
  obtain ⟨stream, call, nextId, returned⟩ := g
  rcases stream with _ | conn
  · cases hs
  · rcases call with _ | ⟨k, line | bytes⟩
    · cases hs
    · cases hs
    · simp only [Client.step] at hs
      split at hs
      · next hend =>
        obtain rfl := Option.some.inj hs
        rcases h.inStep conn rfl with ⟨-, -, -, -, rfl⟩ | ⟨hpending, hown⟩
        · exact paired_lineEnd h (h.unsubscribed conn rfl) (fun hne => absurd rfl hne) nofun
        · exact paired_lineEnd h (h.unsubscribed conn rfl) (fun _ => ⟨hpending, hend.2⟩)
            hown.sources
      · cases hs

theorem paired_daemonClose {g g' : Client ν} (h : Paired env g)
    (hs : Client.step env w g .daemonClose = some g') : Paired env g' := by
  obtain ⟨stream, call, nextId, returned⟩ := g
  obtain ⟨conn, hconn, rfl⟩ := Option.map_eq_some_iff.mp hs
  have hin := h.inStep conn hconn
  refine paired_of_stream h.returned nofun ?_
  rcases call with _ | ⟨k, line | bytes⟩
  · exact ⟨hin.pending, hin.inbox⟩
  · exact ⟨⟨hin.1.pending, hin.1.inbox⟩, hin.2⟩
  · exact hin

/-- Every step keeps the pairing. -/
theorem paired_step (hw : Sound env w) {g g' : Client ν} {l : ClientStep ν σ} (h : Paired env g)
    (hg : NoSubscription g l) (hs : Client.step env w g l = some g') : Paired env g' := by
  cases l with
  | connect fd =>
    obtain ⟨stream, call, nextId, returned⟩ := g
    rcases call with _ | call
    · cases fd with
      | none =>
        obtain rfl := Option.some.inj hs
        exact h
      | some fd =>
        obtain rfl := Option.some.inj hs
        exact paired_of_stream h.returned (fresh_unsubscribed fd) (fresh_quiet fd)
    · cases hs
  | request method params fd => exact paired_request hw h hg hs
  | writeAll => exact paired_writeAll h hs
  | writeError =>
    obtain ⟨stream, call, nextId, returned⟩ := g
    rcases call with _ | ⟨k, line | bytes⟩
    · cases hs
    · obtain rfl := Option.some.inj hs
      exact h.finish nofun nofun
    · cases hs
  | readByte => exact paired_readByte h hs
  | readEof => exact paired_readEof h hs
  | readError =>
    obtain ⟨stream, call, nextId, returned⟩ := g
    rcases call with _ | ⟨k, line | bytes⟩
    · cases hs
    · cases hs
    · obtain rfl := Option.some.inj hs
      exact h.finish nofun nofun
  | serve st rs =>
    obtain ⟨conn', hserve, rfl⟩ := Option.map_eq_some_iff.mp hs
    obtain ⟨conn, hconn, hline⟩ := Option.bind_eq_some_iff.mp hserve
    obtain ⟨hun, hin⟩ := serveLine_spec hw (h.unsubscribed conn hconn) (h.inStep conn hconn) hline
    exact paired_of_stream h.returned hun hin
  | broadcastLog event rs =>
    obtain ⟨conn', hcast, -⟩ := Option.map_eq_some_iff.mp hs
    obtain ⟨conn, hconn, hsome⟩ := Option.bind_eq_some_iff.mp hcast
    rw [broadcast_none fun c hslot => (h.unsubscribed conn hconn c hslot).1] at hsome
    cases hsome
  | broadcastStats event rs =>
    obtain ⟨conn', hcast, -⟩ := Option.map_eq_some_iff.mp hs
    obtain ⟨conn, hconn, hsome⟩ := Option.bind_eq_some_iff.mp hcast
    rw [broadcast_none fun c hslot => (h.unsubscribed conn hconn c hslot).2] at hsome
    cases hsome
  | daemonClose => exact paired_daemonClose h hs

theorem paired_new : Paired env (.new : Client ν) := ⟨nofun, nofun, nofun⟩

/-- Whatever fails and however the calls interleave, the bytes a call returns something from are of
the reply to its own request. -/
theorem reply_pairing (hw : Sound env w) {g : Client ν}
    (h : Reach (Client.step env w) NoSubscription (· = .new) g) :
    ∀ r ∈ g.returned, ∀ o ∈ r.sources, o = .reply r.request := by
  have hpaired : Paired env g := by
    apply h.invariant
    · rintro _ rfl
      exact paired_new
    · intro g l g' hg hguard hs
      exact paired_step hw hg hguard hs
  exact hpaired.returned

/-! ## Calls of `system.version` -/

def request (id : Nat) (method : String) : Cjson Nat :=
  .obj [(lit "id", .num id), (lit "method", .str (lit method)), (lit "params", .obj [])]

def versionReply (id : Nat) : Cjson Nat :=
  .obj [(lit "id", .num id), (lit "result", .obj [(lit "result", .str (lit "0.4.1-alpha"))])]

/-- The value among `vs` that has this text. -/
def readBack (vs : List (Cjson Nat)) (text : CStr) : Option (Cjson Nat) :=
  vs.find? fun v => v.print decimal = text

theorem mem_of_readBack {vs : List (Cjson Nat)} {text : CStr} {v : Cjson Nat}
    (h : readBack vs text = some v) : v ∈ vs := List.mem_of_find?_eq_some h

/-- The daemon as `system.version` meets it. -/
def versionEnv : IpcEnv Nat Unit where
  ofInt := Int.natAbs
  parse := readBack [request 1 "system.version", request 2 "system.version"]
  handler _ _ _ := (some (.obj [(lit "result", .str (lit "0.4.1-alpha"))]), ())

/-- Requests of other methods have no text here. -/
def versionText (v : Cjson Nat) : CStr :=
  if (get v (lit "method")).bind asStr = some (lit "system.version") then v.print decimal else []

def versionWire : Wire Nat where
  printNumber := decimal
  toText := versionText
  fromUtf8 s := s.all (· < 128)
  fromText := readBack [versionReply 1, versionReply 2]
  ofId := id

theorem decimal_ge (n : Nat) : ∀ b ∈ decimal n, 32 ≤ b := by
  intro b hb
  have hdigit := isDigit_of_mem_decimal hb
  simp only [isDigit, Bool.and_eq_true, decide_eq_true_eq] at hdigit
  have hlow : (32 : UInt8) ≤ 48 := by decide
  exact UInt8.le_trans hlow hdigit.1

theorem version_sound : Sound versionEnv versionWire where
  toText := by
    intro v
    show 10 ∉ versionText v
    unfold versionText
    split
    · exact Cjson.newline_notMem_print decimal_ge v
    · exact List.not_mem_nil
  printNumber := decimal_ge
  method := by
    intro id method params req hparse
    have hget : (get (requestOf versionWire id method params) (lit "method")).bind asStr =
        some method := rfl
    change versionEnv.parse (cstr (versionText _)) = some req at hparse
    unfold versionText at hparse
    split at hparse
    · next hmethod =>
      obtain rfl := Option.some.inj (hget.symm.trans hmethod)
      have hmem : req ∈ [request 1 "system.version", request 2 "system.version"] :=
        mem_of_readBack hparse
      rcases List.mem_cons.mp hmem with rfl | hsecond
      · decide
      · obtain rfl := List.mem_singleton.mp hsecond
        decide
    · have hempty : versionEnv.parse (cstr []) = none := by decide
      rw [hempty] at hparse
      cases hparse

/-- The first request times out in the middle of its reply; the second goes over a stream of its
own. -/
def versionCalls : List (ClientStep Nat Unit) :=
  [.request (lit "system.version") (.obj []) (some 5), .writeAll, .serve () []] ++
    List.replicate 10 ClientStep.readByte ++
    [.readError, .request (lit "system.version") (.obj []) (some 6), .writeAll, .serve () []] ++
    List.replicate 43 ClientStep.readByte

/-- The second call returns something, and from its own reply. -/
theorem version_replies_are_own : ∃ g, run (Client.step versionEnv versionWire) .new versionCalls =
    some g ∧ (g.returned.map fun r => (r.request, r.sources.length)) = [(1, 0), (2, 42)] ∧
      ∀ r ∈ g.returned, ∀ o ∈ r.sources, o = .reply r.request := by
  have hrun : ((run (Client.step versionEnv versionWire) .new versionCalls).any fun g =>
      (g.returned.map fun r => (r.request, r.sources.length)) = [(1, 0), (2, 42)]) = true := by
    decide +kernel
  obtain ⟨g, hg, hreturned⟩ := (Option.any_eq_true _ _).mp hrun
  have hreach : Reach (Client.step versionEnv versionWire) NoSubscription (· = .new) g := by
    refine Reach.run (.start rfl) (fun t l hl => ?_) hg
    have hplain : ¬ IsSubscription (cstr (lit "system.version")) := by
      unfold IsSubscription
      decide
    simp only [versionCalls, List.mem_append, List.mem_cons, List.mem_replicate, List.not_mem_nil,
      or_false] at hl
    rcases hl with (((rfl | rfl | rfl) | ⟨-, rfl⟩) | rfl | rfl | rfl | rfl) | ⟨-, rfl⟩
    all_goals first
      | exact hplain
      | trivial
  exact ⟨g, hg, of_decide_eq_true hreturned, reply_pairing version_sound hreach⟩

/-! ## A subscription on the cached stream -/

/-- A broadcast log entry, its other fields left out. -/
def logEntry : Cjson Nat := .obj [(lit "action", .str (lit "DIRECT"))]

def eventEnv : IpcEnv Nat Unit where
  ofInt := Int.natAbs
  parse := readBack [request 1 "log.subscribe", request 2 "system.version", request 3 "system.version"]
  handler _ _ _ := (some (.obj [(lit "result", .str (lit "0.4.1-alpha"))]), ())

def eventWire : Wire Nat where
  printNumber := decimal
  toText := Cjson.print decimal
  fromUtf8 s := s.all (· < 128)
  fromText := readBack [.obj [(lit "id", .num 1), (lit "result", .bool true)],
    eventMessage "log.entry" logEntry, versionReply 2, versionReply 3]
  ofId := id

/-- Request 1 subscribes; an event is sent before request 2, which gets it for its reply. -/
def subscribedCalls : List (ClientStep Nat Unit) :=
  [.request (lit "log.subscribe") (.obj []) (some 5), .writeAll, .serve () []] ++
    List.replicate 23 ClientStep.readByte ++
    [.broadcastLog logEntry [], .request (lit "system.version") (.obj []) none, .writeAll,
      .serve () []] ++ List.replicate 59 ClientStep.readByte ++
    [.request (lit "system.version") (.obj []) none, .writeAll, .serve () []] ++
    List.replicate 43 ClientStep.readByte

/-- Request 3 returns the reply to request 2. -/
theorem subscription_shifts_replies :
    ¬ ∀ g, Reach (Client.step eventEnv eventWire) (fun _ _ => True) (· = .new) g →
      ∀ r ∈ g.returned, ∀ k, .reply k ∈ r.sources → k = r.request := by
  intro hall
  have hrun : ((run (Client.step eventEnv eventWire) .new subscribedCalls).any fun g =>
      g.returned.any fun r => decide (r.request = 3 ∧ .reply 2 ∈ r.sources)) = true := by
    decide +kernel
  obtain ⟨g, hg, hany⟩ := (Option.any_eq_true _ _).mp hrun
  obtain ⟨r, hr, hdec⟩ := List.any_eq_true.mp hany
  obtain ⟨hthird, hsecond⟩ := of_decide_eq_true hdec
  have hreach : Reach (Client.step eventEnv eventWire) (fun _ _ => True) (· = .new) g :=
    Reach.run (.start rfl) (fun _ _ _ => trivial) hg
  have heq := hall g hreach r hr 2 hsecond
  omega

end Proxiflare.Guarantees.ReplyPairing
