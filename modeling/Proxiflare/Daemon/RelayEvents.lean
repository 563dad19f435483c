import Proxiflare.Daemon.Tproxy

/-!
# The relay between two kernels

The main loop calls `pf_tproxy_relay` when epoll reports one of the two
descriptors readable (level-triggered). The read results of a call are here
determined by what the peers have sent; the write results stay free. First plain
sockets, then TLS peers as the SSL objects see them.
-/

namespace Proxiflare.Daemon

open Lib.CString

/-! ## Plain sockets -/

/-- `queued` is in the receive buffer of our socket; `ended` is the peer's FIN; `broken` is an error
on the socket, such as a reset. `sent` and `received` record the whole streams from and to the
peer. -/
structure Peer where
  queued : CStr
  ended : Bool
  broken : Bool
  sent : CStr
  received : CStr
  deriving DecidableEq

def Peer.new : Peer := ⟨[], false, false, [], []⟩

def Peer.send (p : Peer) (bytes : CStr) : Peer :=
  { p with queued := p.queued ++ bytes, sent := p.sent ++ bytes }

/-- The next `read` from the peer's socket returns 0, if it does not fail. -/
def Peer.atEnd (p : Peer) : Bool := p.queued = [] && p.ended

/-- The next `read` gives the relay a reason to close. -/
def Peer.over (p : Peer) : Bool := p.atEnd || p.broken

def Peer.readable (p : Peer) : Bool := p.queued ≠ [] || p.ended || p.broken

/-- What one `read` gets. -/
def Peer.chunk (p : Peer) : CStr := if p.broken then [] else p.queued.take pfBufSize

/-- A socket that is broken fails at once; its buffer may have been read before. -/
def plainRead (p : Peer) : IoRes CStr :=
  if p.broken then .error ⟨.other, .other⟩
  else if p.queued ≠ [] then .ret p.queued
  else if p.ended then .ret []
  else .error ⟨.other, .eagain⟩

structure PlainWorld where
  conn : Connection
  client : Peer
  server : Peer
  deriving DecidableEq

inductive PlainEvent where
  | clientSends (bytes : CStr)
  | clientEnds
  | clientBreaks
  | serverSends (bytes : CStr)
  | serverEnds
  | serverBreaks
  | relay (writeP writeC : List (IoRes Nat))
  deriving DecidableEq

/-- After a call: what was read leaves the queue, what was written reaches the peer. -/
def Peer.moved (p : Peer) (read wrote : CStr) : Peer :=
  { p with queued := p.queued.drop read.length, received := p.received ++ wrote }

def plainRelay (s : PlainWorld) (writeP writeC : List (IoRes Nat)) : PlainWorld :=
  let out := pfTproxyRelay s.conn ⟨plainRead s.client, writeP, plainRead s.server, writeC⟩
  { conn := out.conn
    client := s.client.moved out.moved.readC out.moved.wroteC
    server := s.server.moved out.moved.readP out.moved.wroteP }

def plainStep (s : PlainWorld) : PlainEvent → Option PlainWorld
  | .clientSends bytes =>
    if s.client.ended || s.client.broken then none
    else some { s with client := s.client.send bytes }
  | .clientEnds => some { s with client := { s.client with ended := true } }
  | .clientBreaks => some { s with client := { s.client with broken := true } }
  | .serverSends bytes =>
    if s.server.ended || s.server.broken then none
    else some { s with server := s.server.send bytes }
  | .serverEnds => some { s with server := { s.server with ended := true } }
  | .serverBreaks => some { s with server := { s.server with broken := true } }
  | .relay writeP writeC =>
    if s.conn.active && (s.client.readable || s.server.readable) then
      some (plainRelay s writeP writeC)
    else none

/-- A connection without TLS interception, before either peer has sent anything. -/
def PlainStart (s : PlainWorld) : Prop :=
  s.conn.active = true ∧ 0 ≤ s.conn.clientFd ∧ 0 ≤ s.conn.proxyFd ∧ s.conn.inspect = false ∧
    s.client = .new ∧ s.server = .new

/-! ## TLS peers -/

def tlsRecordMax : Nat := 16384

/-- `queue`: the records in the receive buffer of our socket. `rest`: what the SSL object has
decrypted and not yet handed out. -/
structure TlsSide where
  queue : List CStr
  rest : CStr
  deriving DecidableEq

def TlsSide.readable (t : TlsSide) : Bool := t.queue ≠ []

/-- `SSL_read(ssl, buf, PF_BUF_SIZE)`. -/
def sslRead (t : TlsSide) : IoRes CStr × TlsSide :=
  if t.rest ≠ [] then (.ret (t.rest.take pfBufSize), { t with rest := t.rest.drop pfBufSize })
  else match t.queue with
    | [] => (.error ⟨.wantRead, .eagain⟩, t)
    | r :: queue => (.ret (r.take pfBufSize), ⟨queue, r.drop pfBufSize⟩)

structure TlsWorld where
  conn : Connection
  client : TlsSide
  server : TlsSide
  deriving DecidableEq

inductive TlsEvent where
  | clientRecord (r : CStr)
  | serverRecord (r : CStr)
  | relay
  deriving DecidableEq

/-- A call in which every write takes all it is given. -/
def tlsRelay (s : TlsWorld) : TlsWorld :=
  let (readC, client) := sslRead s.client
  let (readP, server) := sslRead s.server
  let out := pfTproxyRelay s.conn ⟨readC, [], readP, []⟩
  { conn := out.conn
    client := client
    server := if (relayHalf s.conn true readC []).ok then server else s.server }

def recordOk (r : CStr) : Bool := 1 ≤ r.length && r.length ≤ tlsRecordMax

def tlsStep (s : TlsWorld) : TlsEvent → Option TlsWorld
  | .clientRecord r =>
    if recordOk r then some { s with client := { s.client with queue := s.client.queue ++ [r] } }
    else none
  | .serverRecord r =>
    if recordOk r then some { s with server := { s.server with queue := s.server.queue ++ [r] } }
    else none
  | .relay =>
    if s.conn.active && (s.client.readable || s.server.readable) then some (tlsRelay s) else none

/-- Both handshakes are complete and nothing has arrived yet. -/
def TlsStart (s : TlsWorld) : Prop :=
  s.conn.active = true ∧ 0 ≤ s.conn.clientFd ∧ 0 ≤ s.conn.proxyFd ∧ s.conn.inspect = true ∧
    s.conn.clientSsl = true ∧ s.conn.serverSsl = true ∧ s.client = ⟨[], []⟩ ∧ s.server = ⟨[], []⟩

/-! ## What a call moves -/

/-- When every result accepts at least one byte, the whole buffer is written. -/
theorem writeLoop_accepts {conn : Connection} {isClient : Bool} {ws : List (IoRes Nat)}
    (h : ∀ w ∈ ws, ∃ k, w = .ret (k + 1)) (buf : CStr) :
    writeLoop conn isClient ws buf = (buf, .done) := by
  induction ws generalizing buf with
  | nil => cases buf <;> rfl
  | cons w ws ih =>
    obtain ⟨⟨k, rfl⟩, hrest⟩ := List.forall_mem_cons.mp h
    cases buf with
    | nil => rfl
    | cons b left => simp only [writeLoop, ih hrest, List.take_append_drop]

/-- An empty socket is retried, with or without TLS. -/
theorem relayCheckErr_eagain (conn : Connection) (isClient : Bool) (e : SslError) :
    relayCheckErr conn isClient (.error ⟨e, .eagain⟩) = 1 := by
  simp [relayCheckErr]

/-- Then a direction hands over what it read, and closes the connection at the end of stream or
where the socket is broken. -/
theorem relayHalf_plain {conn : Connection} {fromClient : Bool} {ws : List (IoRes Nat)}
    (h : ∀ w ∈ ws, ∃ k, w = .ret (k + 1)) (p : Peer) :
    relayHalf conn fromClient (plainRead p) ws = ⟨p.chunk, p.chunk, !p.over⟩ := by
  obtain ⟨queued, ended, broken, sent, received⟩ := p
  cases broken with
  | true => simp [plainRead, relayHalf, relayCheckErr, Peer.chunk, Peer.over]
  | false =>
    cases queued with
    | nil =>
      cases ended with
      | true => rfl
      | false =>
        show (⟨[], [], 0 ≤ relayCheckErr conn fromClient (.error ⟨.other, .eagain⟩)⟩ : Half) = _
        rw [relayCheckErr_eagain]
        rfl
    | cons b bytes =>
      have hne : (b :: bytes).take pfBufSize ≠ [] := by simp [pfBufSize]
      simp only [plainRead, relayHalf, Peer.chunk, Peer.over, Peer.atEnd]
      rw [if_neg (by simp), if_pos (by simp)]
      simp only [if_neg hne, writeLoop_accepts h]
      rfl

theorem tlsRelay_server (s : TlsWorld) :
    (tlsRelay s).server = (sslRead s.server).2 ∨ (tlsRelay s).server = s.server :=
  ite_eq_or_eq _ _ _

end Proxiflare.Daemon
