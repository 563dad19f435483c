import Proxiflare.Daemon.Types
import Proxiflare.Lib.Act
import Proxiflare.Lib.Pieces

/-!
# Blocking sockets

What the world answers to `getaddrinfo`, `connect`, `send` and `recv` is a script
inside the state, consumed in call order; every run of the C code is a run over
some script. `events` records what the daemon did. The connectors keep one socket
open at a time, so `send` and `recv` results need no descriptor.
-/

namespace Proxiflare.Daemon

open Lib.CString Lib

abbrev Fd := Nat

/-- `socket` and `connect` for one address of a `getaddrinfo` result. -/
inductive AddrRes where
  | noSocket
  | refused (fd : Fd)
  | connected (fd : Fd)
  deriving DecidableEq

/-- `dial p`: `connect` towards `p`. `reach p`: the connection now ends at `p`, directly or through
earlier hops, and what is sent next is meant for it. `useProxy` and `useChain` mark the choice of
a record before its connector is called. -/
inductive Event where
  | useProxy (id : Nat)
  | useChain (id : Nat)
  | dial (p : Proxy) (fd : Fd)
  | reach (p : Proxy) (fd : Fd)
  | sent (fd : Fd) (bytes : CStr)
  | closed (fd : Fd)
  | direct (fd : Fd) (ip : CStr) (port : Nat)
  deriving DecidableEq

/-- `lookups`: address lists, empty when the lookup fails. `sends`: how much the next `send`
takes, 0 on failure, everything once the list is exhausted. `inbox`: pieces in arrival order,
an empty piece or the end of the list being EOF or an error. -/
structure Net where
  lookups : List (List AddrRes)
  sends : List Nat
  inbox : List CStr
  events : List Event
  deriving DecidableEq

def Net.emit (e : Event) (net : Net) : Net := { net with events := net.events ++ [e] }

def getaddrinfo : Act Net (List AddrRes) := fun net =>
  (some (net.lookups.headD []), { net with lookups := net.lookups.tail })

def tryAddrs (p : Proxy) : List AddrRes → Act Net Fd
  | [] => Act.fail
  | .noSocket :: rest => tryAddrs p rest
  | .refused fd :: rest => do
    Act.update (Net.emit (.dial p fd))
    Act.update (Net.emit (.closed fd))
    tryAddrs p rest
  | .connected fd :: _ => do
    Act.update (Net.emit (.dial p fd))
    pure fd

/-- `tcp_connect(p->host, p->port)`. -/
def tcpConnect (p : Proxy) : Act Net Fd := do
  let res ← getaddrinfo
  tryAddrs p res

/-- Bytes taken, whether all were, and the `send` results left. -/
def sendLoop : List Nat → CStr → CStr × Bool × List Nat
  | sends, [] => ([], true, sends)
  | [], b :: buf => (b :: buf, true, [])
  | n :: sends, b :: buf =>
    if n = 0 then ([], false, sends)
    else
      let (sent, ok, rest) := sendLoop sends ((b :: buf).drop n)
      ((b :: buf).take n ++ sent, ok, rest)

def sendAll (fd : Fd) (buf : CStr) : Act Net PUnit := fun net =>
  let (sent, ok, rest) := sendLoop net.sends buf
  (if ok then some ⟨⟩ else none, Net.emit (.sent fd sent) { net with sends := rest })

/-- Exactly `len` bytes, and the pieces left. -/
def recvLoop : List CStr → Nat → Option CStr × List CStr
  | inbox, 0 => (some [], inbox)
  | [], _ + 1 => (none, [])
  | chunk :: inbox, len + 1 =>
    if chunk = [] then (none, inbox)
    else if chunk.length ≤ len + 1 then
      let (got, rest) := recvLoop inbox (len + 1 - chunk.length)
      (got.map (chunk ++ ·), rest)
    else (some (chunk.take (len + 1)), chunk.drop (len + 1) :: inbox)

def recvAll (len : Nat) : Act Net CStr := fun net =>
  let (got, rest) := recvLoop net.inbox len
  (got, { net with inbox := rest })

/-! ## What the primitives change -/

/-- The events added by a stretch of execution all satisfy `P`. -/
def Adds (P : Event → Prop) (net net' : Net) : Prop :=
  ∃ evs, net'.events = net.events ++ evs ∧ ∀ e ∈ evs, P e

variable {P : Event → Prop}

instance : Std.Refl (Adds P) := ⟨fun net => ⟨[], by simp, by simp⟩⟩

instance : IsTrans Net (Adds P) := ⟨by
  rintro a b c ⟨e₁, h₁, p₁⟩ ⟨e₂, h₂, p₂⟩
  refine ⟨e₁ ++ e₂, by rw [h₂, h₁, List.append_assoc], ?_⟩
  intro e he
  rcases List.mem_append.mp he with he | he
  · exact p₁ e he
  · exact p₂ e he⟩

theorem Adds.emit {e : Event} (h : P e) (net : Net) : Adds P net (net.emit e) :=
  ⟨[e], rfl, by simpa using h⟩

theorem Adds.of_events_eq {net net' : Net} (h : net'.events = net.events) : Adds P net net' :=
  ⟨[], by simpa using h, by simp⟩

/-- What has happened stays on record. -/
theorem Adds.mem {net net' : Net} (h : Adds P net net') {e : Event} (he : e ∈ net.events) :
    e ∈ net'.events := by
  obtain ⟨evs, hevs, -⟩ := h
  rw [hevs]
  exact List.mem_append_left evs he

/-- A dial tells the world of nothing but attempts and closes. -/
theorem tryAddrs_keeps {R : Net → Net → Prop} [Std.Refl R] [IsTrans Net R] (p : Proxy)
    (hd : ∀ fd net, R net (net.emit (.dial p fd))) (hc : ∀ fd net, R net (net.emit (.closed fd)))
    (res : List AddrRes) : Act.Moves R (tryAddrs p res) := by
  induction res with
  | nil => exact .fail
  | cons a rest ih =>
    cases a with
    | noSocket => exact ih
    | refused fd => exact .bind (.update (hd fd)) fun _ => .bind (.update (hc fd)) fun _ => ih
    | connected fd => exact .bind (.update (hd fd)) fun _ => .pure fd

theorem tcpConnect_keeps {R : Net → Net → Prop} [Std.Refl R] [IsTrans Net R] (p : Proxy)
    (hg : ∀ net, R net { net with lookups := net.lookups.tail })
    (hd : ∀ fd net, R net (net.emit (.dial p fd))) (hc : ∀ fd net, R net (net.emit (.closed fd))) :
    Act.Moves R (tcpConnect p) :=
  .bind hg fun res => tryAddrs_keeps p hd hc res

theorem tcpConnect_moves (p : Proxy) (hd : ∀ fd, P (.dial p fd)) (hc : ∀ fd, P (.closed fd)) :
    Act.Moves (Adds P) (tcpConnect p) :=
  tcpConnect_keeps p (fun _ => Adds.of_events_eq rfl) (fun fd => Adds.emit (hd fd))
    fun fd => Adds.emit (hc fd)

theorem sendAll_moves (hs : ∀ fd bytes, P (.sent fd bytes)) (fd : Fd) (buf : CStr) :
    Act.Moves (Adds P) (sendAll fd buf) :=
  fun _ => ⟨[_], rfl, by simpa using hs _ _⟩

theorem recvAll_moves (len : Nat) : Act.Moves (Adds P) (recvAll len) :=
  fun _ => Adds.of_events_eq rfl

/-! ## Scripts on which they succeed -/

theorem tcpConnect_gives {p : Proxy} {net : Net} {fd : Fd} {rest : List (List AddrRes)}
    (h : net.lookups = [.connected fd] :: rest) :
    Act.Gives (tcpConnect p) net fd (Net.emit (.dial p fd) { net with lookups := rest }) := by
  obtain ⟨_, sends, inbox, events⟩ := net
  subst h
  rfl

theorem sendAll_gives {net : Net} (h : net.sends = []) (fd : Fd) (buf : CStr) :
    Act.Gives (sendAll fd buf) net ⟨⟩ (net.emit (.sent fd buf)) := by
  obtain ⟨lookups, _, inbox, events⟩ := net
  subst h
  cases buf <;> rfl

theorem recvAll_gives {net : Net} {rest : List CStr} (chunk : CStr)
    (h : net.inbox = chunk :: rest) (hne : chunk ≠ []) :
    Act.Gives (recvAll chunk.length) net chunk { net with inbox := rest } := by
  obtain ⟨c, cs, rfl⟩ := List.exists_cons_of_ne_nil hne
  simp [Act.Gives, recvAll, h, recvLoop]

/-! ## What is read, whatever the pieces -/

/-- The bytes the peer still delivers. -/
def Net.stream (net : Net) : CStr := Lib.stream net.inbox

theorem recvLoop_of_le {inbox : List CStr} {len : Nat} (h : len ≤ (Lib.stream inbox).length) :
    ∃ rest, recvLoop inbox len = (some ((Lib.stream inbox).take len), rest) ∧
      Lib.stream rest = (Lib.stream inbox).drop len := by
  fun_induction recvLoop inbox len with
  | case1 inbox => exact ⟨inbox, rfl, rfl⟩
  | case2 => exact absurd h (by simp)
  | case3 => exact absurd h (by simp)
  | case4 chunk inbox len hne hle got rest hrec ih =>
    rw [stream_cons hne, List.length_append] at h
    obtain ⟨rest', hloop, hrest⟩ := ih (by omega)
    obtain ⟨rfl, rfl⟩ := Prod.mk.inj (hrec.symm.trans hloop)
    refine ⟨rest, ?_, ?_⟩
    · rw [stream_cons hne, List.take_append, List.take_of_length_le hle]
      rfl
    · rw [hrest, stream_cons hne, List.drop_append, List.drop_of_length_le hle, List.nil_append]
  | case5 chunk inbox len hne hgt =>
    have hlt : len + 1 < chunk.length := Nat.lt_of_not_le hgt
    refine ⟨_, ?_, stream_drop_cons hlt inbox⟩
    rw [stream_cons hne, List.take_append_of_le_length (Nat.le_of_lt hlt)]

theorem recvLoop_of_lt {inbox : List CStr} {len : Nat} (h : (Lib.stream inbox).length < len) :
    (recvLoop inbox len).1 = none := by
  fun_induction recvLoop inbox len with
  | case1 => exact absurd h (Nat.not_lt_zero _)
  | case2 => rfl
  | case3 => rfl
  | case4 chunk inbox len hne hle got rest hrec ih =>
    rw [stream_cons hne, List.length_append] at h
    have hgot := ih (by omega)
    rw [hrec] at hgot
    rw [show got = none from hgot]
    rfl
  | case5 chunk inbox len hne hgt =>
    rw [stream_cons hne, List.length_append] at h
    omega

/-- `recv_all` succeeds with the next `len` bytes of the stream and takes no other. -/
theorem recvAll_takes {len : Nat} {net net' : Net} {got : CStr}
    (h : Act.Gives (recvAll len) net got net') :
    got.length = len ∧ net.stream = got ++ net'.stream := by
  obtain ⟨hgot, hnet⟩ := Prod.mk.inj h
  by_cases hle : len ≤ net.stream.length
  · obtain ⟨rest, hloop, hrest⟩ := recvLoop_of_le hle
    rw [hloop] at hgot hnet
    obtain rfl := Option.some.inj hgot
    subst hnet
    refine ⟨List.length_take_of_le hle, ?_⟩
    show net.stream = net.stream.take len ++ Lib.stream rest
    rw [hrest]
    exact (List.take_append_drop len net.stream).symm
  · rw [recvLoop_of_lt (Nat.lt_of_not_le hle)] at hgot
    cases hgot

theorem recvAll_gives_stream (net : Net) (bytes : CStr) {rest : CStr}
    (h : net.stream = bytes ++ rest) :
    ∃ net', Act.Gives (recvAll bytes.length) net bytes net' ∧ net'.stream = rest ∧
      net'.sends = net.sends := by
  have hle : bytes.length ≤ net.stream.length := by
    rw [h, List.length_append]
    exact Nat.le_add_right _ _
  obtain ⟨inbox', hloop, hrest⟩ := recvLoop_of_le hle
  have htake : (Lib.stream net.inbox).take bytes.length = bytes := by
    show net.stream.take bytes.length = bytes
    rw [h, List.take_left]
  refine ⟨{ net with inbox := inbox' }, ?_, ?_, rfl⟩
  · unfold Act.Gives recvAll
    rw [hloop, htake]
  · show Lib.stream inbox' = rest
    rw [hrest]
    show net.stream.drop bytes.length = rest
    rw [h, List.drop_left]

theorem sendAll_inbox {fd : Fd} {buf : CStr} {net net' : Net}
    (h : Act.Gives (sendAll fd buf) net ⟨⟩ net') : net'.inbox = net.inbox := by
  rw [← (Prod.mk.inj h).2]
  rfl

theorem sendAll_stream {fd : Fd} {buf : CStr} {net net' : Net}
    (h : Act.Gives (sendAll fd buf) net ⟨⟩ net') : net'.stream = net.stream :=
  congrArg Lib.stream (sendAll_inbox h)

theorem tryAddrs_inbox {p : Proxy} {res : List AddrRes} {net net' : Net} {fd : Fd}
    (h : Act.Gives (tryAddrs p res) net fd net') : net'.inbox = net.inbox := by
  induction res generalizing net with
  | nil => exact absurd h Act.not_gives_fail
  | cons a rest ih =>
    cases a with
    | noSocket => exact ih h
    | refused fd' =>
      have hrest : Act.Gives (tryAddrs p rest) ((net.emit (.dial p fd')).emit (.closed fd')) fd net' := h
      have hinbox := ih hrest
      exact hinbox
    | connected =>
      obtain ⟨_, _, hdial, hfd⟩ := Act.gives_bind_iff.mp h
      rw [← (Act.gives_pure_iff.mp hfd).2, Act.gives_update_iff.mp hdial]
      rfl

theorem tcpConnect_inbox {p : Proxy} {net net' : Net} {fd : Fd}
    (h : Act.Gives (tcpConnect p) net fd net') : net'.inbox = net.inbox := by
  obtain ⟨res, net₁, hres, htry⟩ := Act.gives_bind_iff.mp h
  rw [tryAddrs_inbox htry, ← (Prod.mk.inj hres).2]

end Proxiflare.Daemon
