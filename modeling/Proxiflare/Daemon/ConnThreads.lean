import Proxiflare.Daemon.Tproxy

/-!
# Accept threads against the main loop

The interleavings of `tproxy_accept_thread` with the relay branch of the main loop
(`daemon/src/main.c`), one label per atomic step. A descriptor number that is not
open may be handed out by any later `accept` or `socket`, and closing a descriptor
removes it from the epoll set. `owner` and `claimedBy` record which connection an
open number and a slot belong to; the code never reads them.
-/

namespace Proxiflare.Daemon

/-- Progress of an accept thread; its number is the connection's. -/
inductive AcceptPc where
  | connecting | connected | claimed | clientAdded | done
  deriving DecidableEq

structure AcceptThread where
  cfd : Int
  pfd : Option Int
  pc : AcceptPc
  info : AcceptInfo
  deriving DecidableEq

/-- What remains after a failed relay. -/
inductive Cleanup where
  | delClient | delProxy | closeConn
  deriving DecidableEq

/-- `found`: the slot and the two remembered descriptors. `cleanup` also names the connection
whose relay failed. -/
inductive MainPc where
  | idle
  | found (slot : Nat) (cfd pfd : Int)
  | cleanup (stage : Cleanup) (slot : Nat) (cfd pfd : Int) (victim : Option Nat)
  deriving DecidableEq

structure Sys where
  tp : ConnTable
  owner : Int → Option Nat
  epoll : Int → Bool
  threads : List AcceptThread
  claimedBy : Nat → Option Nat
  main : MainPc

def Sys.start : Sys := ⟨pfTproxyInit, fun _ => none, fun _ => false, [], fun _ => none, .idle⟩

/-- `openProxy` and `dropProxy` are the connector's attempts, `giveUp` every exit of the thread
that closes what it holds. `cleanup` is the next of the three steps after a failed relay. -/
inductive SysLabel where
  | accept (fd : Int) (info : AcceptInfo)
  | openProxy (t : Nat) (fd : Int)
  | dropProxy (t : Nat)
  | connected (t : Nat)
  | claim (t : Nat)
  | giveUp (t : Nat)
  | addClient (t : Nat)
  | addProxy (t : Nat)
  | find (fd : Int)
  | relay (io : RelayIo)
  | cleanup
  deriving DecidableEq

namespace Sys

variable (s : Sys)

/-- A number the kernel may hand out. -/
def free (fd : Int) : Bool := 0 ≤ fd && s.owner fd = none

def openFd (fd : Int) (t : Nat) : Sys :=
  { s with owner := fun x => if x = fd then some t else s.owner x }

def closeFds (fds : List Int) : Sys :=
  { s with
    owner := fun x => if x ∈ fds then none else s.owner x
    epoll := fun x => if x ∈ fds then false else s.epoll x }

def setThread (t : Nat) (th : AcceptThread) : Sys := { s with threads := s.threads.set t th }

/-- `EPOLL_CTL_ADD`; a closed descriptor is refused. -/
def epollAdd (fd : Int) : Sys :=
  { s with epoll := fun x => if x = fd then (s.owner fd).isSome else s.epoll x }

/-- `EPOLL_CTL_DEL`. -/
def epollDel (fd : Int) : Sys := { s with epoll := fun x => if x = fd then false else s.epoll x }

/-- The slot of an active connection that has this descriptor. -/
def slotOf (fd : Int) : Option Nat :=
  s.tp.conns.findIdx? fun c => c.active && (c.clientFd = fd || c.proxyFd = fd)

end Sys

/-- An accept thread's step, given its record. -/
def threadStep (s : Sys) (t : Nat) (th : AcceptThread) : SysLabel → Option Sys
  | .openProxy _ fd =>
    if th.pc = .connecting ∧ th.pfd = none ∧ s.free fd then
      some ((s.openFd fd t).setThread t { th with pfd := some fd })
    else none
  | .dropProxy _ =>
    match th.pfd with
    | some fd =>
      if th.pc = .connecting then some ((s.closeFds [fd]).setThread t { th with pfd := none })
      else none
    | none => none
  | .connected _ =>
    if th.pc = .connecting ∧ th.pfd.isSome then some (s.setThread t { th with pc := .connected })
    else none
  | .claim _ =>
    match th.pfd, th.pc with
    | some fd, .connected =>
      (claimSlot s.tp th.cfd fd th.info).map fun (i, tp) =>
        { s.setThread t { th with pc := .claimed } with
          tp := tp, claimedBy := fun j => if j = i then some t else s.claimedBy j }
    | _, _ => none
  | .giveUp _ =>
    if th.pc = .connecting ∨ (th.pc = .connected ∧ findFreeSlot s.tp = none) then
      some ((s.closeFds (th.cfd :: th.pfd.toList)).setThread t { th with pfd := none, pc := .done })
    else none
  | .addClient _ =>
    if th.pc = .claimed then
      some ((s.epollAdd th.cfd).setThread t { th with pc := .clientAdded })
    else none
  | .addProxy _ =>
    match th.pfd with
    | some fd =>
      if th.pc = .clientAdded then some ((s.epollAdd fd).setThread t { th with pc := .done })
      else none
    | none => none
  | _ => none

/-- A main-loop step. -/
def mainStep (s : Sys) : SysLabel → Option Sys
  | .accept fd info =>
    if s.main = .idle ∧ s.free fd then
      some { s.openFd fd s.threads.length with
        threads := s.threads ++ [⟨fd, none, .connecting, info⟩] }
    else none
  | .find fd =>
    if s.main = .idle then
      (s.slotOf fd).bind fun i => s.tp.conns[i]?.map fun c =>
        { s with main := .found i c.clientFd c.proxyFd }
    else none
  | .relay io =>
    match s.main with
    | .found i cfd pfd =>
      let (ok, tp, closed) := pfTproxyRelayAt s.tp i io
      some { s.closeFds closed with
        tp := tp
        main := if ok then .idle else .cleanup .delClient i cfd pfd (s.claimedBy i) }
    | _ => none
  | .cleanup =>
    match s.main with
    | .cleanup .delClient i cfd pfd v =>
      some { s.epollDel cfd with main := .cleanup .delProxy i cfd pfd v }
    | .cleanup .delProxy i cfd pfd v =>
      some { s.epollDel pfd with main := .cleanup .closeConn i cfd pfd v }
    | .cleanup .closeConn i _ _ _ =>
      let (tp, closed) := pfTproxyCloseConn s.tp i
      some { s.closeFds closed with tp := tp, main := .idle }
    | _ => none
  | _ => none

def sysStep (s : Sys) (l : SysLabel) : Option Sys :=
  match l with
  | .openProxy t _ | .dropProxy t | .connected t | .claim t | .giveUp t | .addClient t
  | .addProxy t => s.threads[t]?.bind fun th => threadStep s t th l
  | _ => mainStep s l

end Proxiflare.Daemon
