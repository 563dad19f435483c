import Proxiflare.Daemon.Types
import Mathlib.Data.List.Count

/-!
# The connection table and the relay

`daemon/src/tproxy.c`. A relay call gets the results of its reads and writes as
data; `Streams` records, for each direction, what was taken from one peer and
what the other peer's socket accepted.
-/

namespace Proxiflare.Daemon

open Lib.CString

def pfMaxConnections : Nat := 1024

/-- `pf_connection_t`. -/
structure Connection where
  clientFd : Int
  proxyFd : Int
  clientSsl : Bool
  serverSsl : Bool
  domain : CBuf pfDomainMax
  dstIp : CBuf 46
  dstPort : Int
  proxyId : Int
  bytesTx : UInt64
  bytesRx : UInt64
  active : Bool
  inspect : Bool
  isTls : Bool
  deriving DecidableEq

/-- A slot as `pf_tproxy_init` leaves it. -/
def Connection.unused : Connection :=
  ⟨-1, -1, false, false, .empty, .empty, 0, 0, 0, 0, false, false, false⟩

/-- `pf_tproxy_t`. -/
structure ConnTable where
  conns : List Connection
  size : conns.length = pfMaxConnections
  connCount : Nat
  deriving DecidableEq

def pfTproxyInit : ConnTable where
  conns := List.replicate pfMaxConnections .unused
  size := List.length_replicate
  connCount := 0

def ConnTable.set (tp : ConnTable) (i : Nat) (c : Connection) : ConnTable :=
  { tp with conns := tp.conns.set i c, size := by rw [List.length_set, tp.size] }

def ConnTable.activeSlots (tp : ConnTable) : Nat := tp.conns.countP (·.active)

/-- `find_free_slot`, also inlined in `tproxy_accept_thread`. -/
def findFreeSlot (tp : ConnTable) : Option Nat := tp.conns.findIdx? fun c => !c.active

/-- What `tproxy_accept_thread` knows about a connection besides its descriptors. -/
structure AcceptInfo where
  dstIp : CBuf 16
  dstPort : UInt16
  domain : CBuf pfDomainMax
  isTls : Bool
  deriving DecidableEq

/-- The record written into a claimed slot. -/
def AcceptInfo.connection (a : AcceptInfo) (cfd pfd : Int) : Connection where
  clientFd := cfd
  proxyFd := pfd
  clientSsl := false
  serverSsl := false
  domain := a.domain
  dstIp := ⟨a.dstIp.chars, a.dstIp.fits.trans (by decide), a.dstIp.noNul⟩
  dstPort := a.dstPort.toNat
  proxyId := -1
  bytesTx := 0
  bytesRx := 0
  active := true
  inspect := false
  isTls := a.isTls

@[simp] theorem AcceptInfo.connection_active (a : AcceptInfo) (cfd pfd : Int) :
    (a.connection cfd pfd).active = true := rfl

/-- Scan and claim under `conns_lock`; `none` when the table is full. -/
def claimSlot (tp : ConnTable) (cfd pfd : Int) (a : AcceptInfo) : Option (Nat × ConnTable) :=
  (findFreeSlot tp).map fun i =>
    (i, { tp.set i (a.connection cfd pfd) with connCount := tp.connCount + 1 })

/-! ## Closing -/

def Connection.closed (c : Connection) : Connection :=
  { c with
    clientSsl := false, serverSsl := false, clientFd := -1, proxyFd := -1
    active := false, inspect := false }

@[simp] theorem Connection.closed_active (c : Connection) : c.closed.active = false := rfl

/-- The descriptors `pf_tproxy_close_conn` passes to `close`. -/
def Connection.openFds (c : Connection) : List Int := [c.clientFd, c.proxyFd].filter (0 ≤ ·)

def pfTproxyCloseConn (tp : ConnTable) (idx : Nat) : ConnTable × List Int :=
  match tp.conns[idx]? with
  | none => (tp, [])
  | some c =>
    if c.active then ({ tp.set idx c.closed with connCount := tp.connCount - 1 }, c.openFds)
    else (tp, [])

/-! ## Reads and writes -/

inductive SslError where
  | wantRead | wantWrite | other
  deriving DecidableEq

inductive Errno where
  | eagain | eintr | other
  deriving DecidableEq

/-- What `SSL_get_error` and `errno` say after a negative result. -/
structure IoError where
  ssl : SslError
  errno : Errno
  deriving DecidableEq

/-- A `read` or `write` result: a count (for reads, the bytes), or `-1`. -/
inductive IoRes (α : Type) where
  | ret (a : α)
  | error (e : IoError)
  deriving DecidableEq

def usesSsl (conn : Connection) (isClient : Bool) : Bool :=
  conn.inspect && if isClient then conn.clientSsl else conn.serverSsl

/-- 0 ok, 1 retry, -1 closed or fatal. -/
def relayCheckErr (conn : Connection) (isClient : Bool) (ret : IoRes Nat) : Int :=
  match ret with
  | .ret (_ + 1) => 0
  | .ret 0 => -1
  | .error e =>
    if usesSsl conn isClient && (e.ssl = .wantRead || e.ssl = .wantWrite) then 1
    else if e.errno = .eagain || e.errno = .eintr then 1
    else -1

inductive WriteEnd where
  | done | refused | failed
  deriving DecidableEq

/-- The inner loop over `relay_write`: bytes accepted, and how the loop ended. A result list
shorter than the loop means that the next write takes the rest. -/
def writeLoop (conn : Connection) (isClient : Bool) : List (IoRes Nat) → CStr → CStr × WriteEnd
  | _, [] => ([], .done)
  | [], b :: left => (b :: left, .done)
  | .ret (n + 1) :: ws, b :: left =>
    let (rest, e) := writeLoop conn isClient ws ((b :: left).drop (n + 1))
    ((b :: left).take (n + 1) ++ rest, e)
  | w :: _, _ :: _ => ([], if relayCheckErr conn isClient w = 1 then .refused else .failed)

structure Half where
  read : CStr
  wrote : CStr
  ok : Bool
  deriving DecidableEq

/-- One direction: read at most `PF_BUF_SIZE` bytes and write them to the other peer. -/
def relayHalf (conn : Connection) (fromClient : Bool) (rd : IoRes CStr) (ws : List (IoRes Nat)) :
    Half :=
  match rd with
  | .ret bytes =>
    let chunk := bytes.take pfBufSize
    if chunk = [] then ⟨[], [], 0 ≤ relayCheckErr conn fromClient (.ret 0)⟩
    else
      let (wrote, e) := writeLoop conn (!fromClient) ws chunk
      ⟨chunk, wrote, e ≠ .failed⟩
  | .error e => ⟨[], [], 0 ≤ relayCheckErr conn fromClient (.error e)⟩

/-! ## The relay -/

/-- The results one call meets, in order. -/
structure RelayIo where
  readC : IoRes CStr
  writeP : List (IoRes Nat)
  readP : IoRes CStr
  writeC : List (IoRes Nat)
  deriving DecidableEq

structure Streams where
  readC : CStr
  wroteP : CStr
  readP : CStr
  wroteC : CStr
  deriving DecidableEq

def Streams.empty : Streams := ⟨[], [], [], []⟩

def Streams.append (s t : Streams) : Streams :=
  ⟨s.readC ++ t.readC, s.wroteP ++ t.wroteP, s.readP ++ t.readP, s.wroteC ++ t.wroteC⟩

structure RelayOut where
  ok : Bool
  conn : Connection
  moved : Streams
  deriving DecidableEq

/-- `pf_tproxy_relay` on the slot's connection. -/
def pfTproxyRelay (conn : Connection) (io : RelayIo) : RelayOut :=
  if !conn.active || conn.clientFd < 0 || conn.proxyFd < 0 then ⟨false, conn, .empty⟩
  else
    let up := relayHalf conn true io.readC io.writeP
    if !up.ok then ⟨false, conn.closed, ⟨up.read, up.wrote, [], []⟩⟩
    else
      let conn := { conn with bytesTx := conn.bytesTx + UInt64.ofNat up.read.length }
      let down := relayHalf conn false io.readP io.writeC
      let moved : Streams := ⟨up.read, up.wrote, down.read, down.wrote⟩
      if !down.ok then ⟨false, conn.closed, moved⟩
      else ⟨true, { conn with bytesRx := conn.bytesRx + UInt64.ofNat down.read.length }, moved⟩

/-- `pf_tproxy_relay(tp, idx)`: whether it returned `PF_OK`, the table, and the closed
descriptors. -/
def pfTproxyRelayAt (tp : ConnTable) (idx : Nat) (io : RelayIo) : Bool × ConnTable × List Int :=
  match tp.conns[idx]? with
  | none => (false, tp, [])
  | some c =>
    let out := pfTproxyRelay c io
    if c.active && !out.conn.active then
      (out.ok, { tp.set idx out.conn with connCount := tp.connCount - 1 }, c.openFds)
    else (out.ok, tp.set idx out.conn, [])

/-- The counters play no part in reading and writing. -/
theorem relayHalf_bytesTx (conn : Connection) (n : UInt64) :
    relayHalf { conn with bytesTx := n } = relayHalf conn := by
  have herr : relayCheckErr { conn with bytesTx := n } = relayCheckErr conn := rfl
  have hwrite : writeLoop { conn with bytesTx := n } = writeLoop conn := by
    funext isClient ws buf
    induction ws generalizing buf with
    | nil => cases buf <;> rfl
    | cons w ws ih =>
      cases buf with
      | nil => rfl
      | cons b left =>
        match w with
        | .ret (k + 1) => simp only [writeLoop, ih]
        | .ret 0 => rfl
        | .error e => rfl
  funext fromClient rd ws
  unfold relayHalf
  rw [hwrite, herr]

/-- A call that returns `PF_OK` completed both directions. -/
theorem pfTproxyRelay_ok {conn : Connection} {io : RelayIo}
    (h : (pfTproxyRelay conn io).ok = true) :
    conn.active = true ∧
      (relayHalf conn true io.readC io.writeP).ok = true ∧
      (relayHalf conn false io.readP io.writeC).ok = true ∧
      (pfTproxyRelay conn io).conn = { conn with
        bytesTx := conn.bytesTx +
          UInt64.ofNat (relayHalf conn true io.readC io.writeP).read.length
        bytesRx := conn.bytesRx +
          UInt64.ofNat (relayHalf conn false io.readP io.writeC).read.length } ∧
      (pfTproxyRelay conn io).moved =
        ⟨(relayHalf conn true io.readC io.writeP).read,
          (relayHalf conn true io.readC io.writeP).wrote,
          (relayHalf conn false io.readP io.writeC).read,
          (relayHalf conn false io.readP io.writeC).wrote⟩ := by
  unfold pfTproxyRelay at h ⊢
  simp only [relayHalf_bytesTx] at h ⊢
  split at h
  · cases h
  · next hopen =>
    rw [if_neg hopen]
    simp only [Bool.or_eq_true, Bool.not_eq_true', not_or, Bool.not_eq_false] at hopen
    split at h
    · cases h
    · next hup =>
      rw [if_neg hup]
      split at h
      · cases h
      · next hdown =>
        rw [if_neg hdown]
        exact ⟨hopen.1.1, by simpa using hup, by simpa using hdown, rfl, rfl⟩

/-- On open descriptors a failed call leaves the connection closed. -/
theorem pfTproxyRelay_ok_of_active {conn : Connection} {io : RelayIo} (hc : 0 ≤ conn.clientFd)
    (hp : 0 ≤ conn.proxyFd) (h : (pfTproxyRelay conn io).conn.active = true) :
    (pfTproxyRelay conn io).ok = true := by
  unfold pfTproxyRelay at h ⊢
  split at h
  · next hopen =>
    simp only [Bool.or_eq_true, Bool.not_eq_true', decide_eq_true_eq] at hopen
    rcases hopen with (hact | hneg) | hneg
    · exact absurd h (by simp [hact])
    · omega
    · omega
  · next hopen =>
    rw [if_neg hopen]
    simp only at h ⊢
    split at h
    · cases h
    · next hup =>
      rw [if_neg hup]
      split at h
      · cases h
      · next hdown => rw [if_neg hdown]

/-- A call leaves the connection in place or closes it, and closes it only when it fails. -/
theorem pfTproxyRelay_cases (conn : Connection) (io : RelayIo) :
    ((pfTproxyRelay conn io).conn.active = conn.active ∧
      (pfTproxyRelay conn io).conn.clientFd = conn.clientFd ∧
      (pfTproxyRelay conn io).conn.proxyFd = conn.proxyFd) ∨
    ((pfTproxyRelay conn io).conn.active = false ∧ (pfTproxyRelay conn io).ok = false) := by
  unfold pfTproxyRelay
  split
  · exact .inl ⟨rfl, rfl, rfl⟩
  · simp only
    split
    · exact .inr ⟨rfl, rfl⟩
    · split
      · exact .inr ⟨rfl, rfl⟩
      · exact .inl ⟨rfl, rfl, rfl⟩

/-! ## Slots and their count -/

theorem findFreeSlot_some {tp : ConnTable} {i : Nat} (h : findFreeSlot tp = some i) :
    ∃ c, tp.conns[i]? = some c ∧ c.active = false := by
  obtain ⟨hi, hc, -⟩ := List.findIdx?_eq_some_iff_getElem.mp h
  exact ⟨tp.conns[i], List.getElem?_eq_getElem hi, by simpa using hc⟩

theorem claimSlot_some {tp tp' : ConnTable} {cfd pfd : Int} {a : AcceptInfo} {i : Nat}
    (h : claimSlot tp cfd pfd a = some (i, tp')) :
    findFreeSlot tp = some i ∧
      tp' = { tp.set i (a.connection cfd pfd) with connCount := tp.connCount + 1 } := by
  obtain ⟨j, hj, heq⟩ := Option.map_eq_some_iff.mp h
  obtain ⟨rfl, rfl⟩ := Prod.mk.inj heq
  exact ⟨hj, rfl⟩

theorem pfTproxyCloseConn_of_inactive {tp : ConnTable} {i : Nat}
    (h : ∀ c, tp.conns[i]? = some c → c.active = false) : pfTproxyCloseConn tp i = (tp, []) := by
  unfold pfTproxyCloseConn
  split
  · rfl
  · next c hc => simp [h c hc]

/-- On an active slot with open descriptors a call keeps the descriptors, or frees the slot and
closes both. -/
theorem pfTproxyRelayAt_cases {tp : ConnTable} {i : Nat} {c : Connection} (io : RelayIo)
    (hget : tp.conns[i]? = some c) (hact : c.active = true) (hc : 0 ≤ c.clientFd)
    (hp : 0 ≤ c.proxyFd) :
    (∃ c', c'.active = true ∧ c'.clientFd = c.clientFd ∧ c'.proxyFd = c.proxyFd ∧
      pfTproxyRelayAt tp i io = (true, tp.set i c', [])) ∨
    (∃ c', c'.active = false ∧ pfTproxyRelayAt tp i io =
      (false, { tp.set i c' with connCount := tp.connCount - 1 }, [c.clientFd, c.proxyFd])) := by
  simp only [pfTproxyRelayAt, hget]
  rcases pfTproxyRelay_cases c io with ⟨hlive, hfds⟩ | ⟨hdead, hfail⟩
  · rw [hact] at hlive
    have hok := pfTproxyRelay_ok_of_active hc hp hlive
    refine .inl ⟨_, hlive, hfds.1, hfds.2, ?_⟩
    rw [if_neg (by simp [hlive]), hok]
  · refine .inr ⟨_, hdead, ?_⟩
    rw [if_pos (by simp [hact, hdead]), hfail]
    simp [Connection.openFds, hc, hp]

/-- Replacing an inactive slot by an active one adds one to the number of active slots. -/
theorem activeSlots_set_of_inactive {tp : ConnTable} {i : Nat} {c c' : Connection}
    (hi : tp.conns[i]? = some c) (hc : c.active = false) (hc' : c'.active = true) :
    (tp.set i c').activeSlots = tp.activeSlots + 1 := by
  obtain ⟨hlt, rfl⟩ := List.getElem?_eq_some_iff.mp hi
  simp only [ConnTable.activeSlots, ConnTable.set, List.countP_set hlt, hc, hc']
  simp

theorem activeSlots_set_of_active {tp : ConnTable} {i : Nat} {c c' : Connection}
    (hi : tp.conns[i]? = some c) (hc : c.active = true) (hc' : c'.active = false) :
    (tp.set i c').activeSlots + 1 = tp.activeSlots := by
  obtain ⟨hlt, rfl⟩ := List.getElem?_eq_some_iff.mp hi
  have hpos : 0 < tp.conns.countP (·.active) :=
    List.countP_pos_iff.mpr ⟨_, List.getElem_mem hlt, hc⟩
  simp only [ConnTable.activeSlots, ConnTable.set, List.countP_set hlt, hc, hc', ↓reduceIte,
    Bool.false_eq_true, Nat.add_zero]
  omega

/-- An update that keeps the flag keeps the number of active slots. -/
theorem activeSlots_set_of_eq {tp : ConnTable} {i : Nat} {c c' : Connection}
    (hi : tp.conns[i]? = some c) (hc : c'.active = c.active) :
    (tp.set i c').activeSlots = tp.activeSlots := by
  cases hact : c.active with
  | true =>
    obtain ⟨hlt, rfl⟩ := List.getElem?_eq_some_iff.mp hi
    have hpos : 0 < tp.conns.countP (·.active) :=
      List.countP_pos_iff.mpr ⟨_, List.getElem_mem hlt, hact⟩
    simp only [ConnTable.activeSlots, ConnTable.set, List.countP_set hlt, hc, hact, ↓reduceIte]
    omega
  | false =>
    obtain ⟨hlt, rfl⟩ := List.getElem?_eq_some_iff.mp hi
    simp [ConnTable.activeSlots, ConnTable.set, List.countP_set hlt, hc, hact]

theorem claimSlot_count {tp tp' : ConnTable} {cfd pfd : Int} {a : AcceptInfo} {i : Nat}
    (h : tp.connCount = tp.activeSlots) (hc : claimSlot tp cfd pfd a = some (i, tp')) :
    tp'.connCount = tp'.activeSlots := by
  obtain ⟨hi, rfl⟩ := claimSlot_some hc
  obtain ⟨c, hget, hact⟩ := findFreeSlot_some hi
  have hset := activeSlots_set_of_inactive hget hact (a.connection_active cfd pfd)
  show tp.connCount + 1 = (tp.set i (a.connection cfd pfd)).activeSlots
  omega

theorem pfTproxyCloseConn_count {tp : ConnTable} (h : tp.connCount = tp.activeSlots) (i : Nat) :
    (pfTproxyCloseConn tp i).1.connCount = (pfTproxyCloseConn tp i).1.activeSlots := by
  unfold pfTproxyCloseConn
  split
  · exact h
  · next c hc =>
    split
    · next hact =>
      have hset := activeSlots_set_of_active hc hact c.closed_active
      show tp.connCount - 1 = (tp.set i c.closed).activeSlots
      omega
    · exact h

theorem pfTproxyRelayAt_count {tp : ConnTable} (h : tp.connCount = tp.activeSlots) (i : Nat)
    (io : RelayIo) :
    (pfTproxyRelayAt tp i io).2.1.connCount = (pfTproxyRelayAt tp i io).2.1.activeSlots := by
  unfold pfTproxyRelayAt
  split
  · exact h
  · next c hc =>
    simp only
    split
    · next hclose =>
      simp only [Bool.and_eq_true, Bool.not_eq_true'] at hclose
      have hset := activeSlots_set_of_active hc hclose.1 hclose.2
      show tp.connCount - 1 = (tp.set i (pfTproxyRelay c io).conn).activeSlots
      omega
    · next hkeep =>
      have hact : (pfTproxyRelay c io).conn.active = c.active := by
        rcases pfTproxyRelay_cases c io with ⟨hact, -⟩ | ⟨hact, -⟩
        · exact hact
        · cases hca : c.active with
          | true => exact absurd (by rw [hca, hact]; rfl) hkeep
          | false => exact hact
      exact h.trans (activeSlots_set_of_eq hc hact).symm

end Proxiflare.Daemon
