import Proxiflare.Daemon.Cgroups
import Proxiflare.Lib.Netlink

/-!
# The process monitor

`pf_monitor_process` of `daemon/src/monitor.c`, its callback `on_process_event` and
`pf_cgroup_remove_pid`. A read beyond what `recv` has put into the buffer gives `none`.
-/

namespace Proxiflare.Daemon.Monitor

open Lib.CString Lib.Netlink

/-! ## From the socket to the callback -/

/-- What the callback is told of a process. -/
structure Notice where
  pid : Int
  isExec : Bool
  deriving DecidableEq

/-- `pid_t`. -/
def pidT (n : Nat) : Int := (n : Int).bmod 4294967296

/-! The values of `linux/netlink.h` and `linux/cn_proc.h`. -/

def nlmsgNoop : Nat := 1

def nlmsgError : Nat := 2

def cnIdxProc : Nat := 1

def cnValProc : Nat := 1

def procEventExec : Nat := 0x2

def procEventExit : Nat := 0x80000000

variable (o : ByteOrder)

/-- The body of the loop, for a message of `nlmsg_len` bytes. -/
def processMessage (nlh : CStr) (nlmsgLen : Nat) : Option (Option Notice) := do
  let nlmsgType ← o.field 2 4 nlh
  if nlmsgType = nlmsgError || nlmsgType = nlmsgNoop then return none
  let nlmsgPid ← o.field 4 12 nlh
  if nlmsgPid ≠ 0 then return none
  if nlmsgLen - 16 < 20 then return none
  let idx ← o.field 4 16 nlh
  if idx ≠ cnIdxProc then return none
  let val ← o.field 4 20 nlh
  if val ≠ cnValProc then return none
  let len ← o.field 2 32 nlh
  if len < 40 then return none
  let what ← o.field 4 36 nlh
  if what = procEventExec || what = procEventExit then do
    let pid ← o.field 4 52 nlh
    if pidT pid ≤ 0 then return none
    return some ⟨pidT pid, what = procEventExec⟩
  else return none

/-- `NLMSG_OK` and `NLMSG_NEXT`: `n` is signed, and its conversion is not. -/
def walk : (turns : Nat) → CStr → Int → Option (List Notice)
  | 0, _, _ => none
  | turns + 1, nlh, n =>
    let left := (n % 4294967296).toNat
    if left < 16 then some []
    else do
      let nlmsgLen ← o.field 4 0 nlh
      if nlmsgLen < 16 || left < nlmsgLen then return []
      let notice ← processMessage o nlh nlmsgLen
      let aligned := (nlmsgLen + 3) % 4294967296 / 4 * 4
      let notices ← walk turns (nlh.drop aligned) (n - aligned)
      return notice.toList ++ notices

/-- One datagram; `recv` cuts it at the size of the buffer. -/
def pfMonitorProcess (data : CStr) : Option (List Notice) :=
  let buf := data.take 4096
  walk o (buf.length + 1) buf buf.length

/-! ## The callback -/

/-- Whether the process is a line of what one `read` gives of a `cgroup.procs`. -/
def listsPid (pid : Nat) (procs : CStr) : Bool :=
  ((procs.take 4095).splitOn 10).any (· = decimal pid)

/-- `listing` holds `cgroup.procs` of the rules, in the order of `readdir`. -/
def pfCgroupRemovePid (listing : List CStr) (procs : Processes) (pid : Nat) : Processes :=
  if listing.any (listsPid pid) then
    Function.update procs pid ((procs pid).map fun p => { p with rule := none })
  else procs

/-- What `pf_monitor_get_exe` reads when the callback is made; empty where it fails. -/
def pfMonitorGetExe (procs : Processes) (pid : Nat) : CStr :=
  match procs pid with
  | none => []
  | some p => p.exe.chars

/-- `on_process_event`, after `pf_monitor_get_exe`. -/
def onProcessEvent (rs : Ruleset) (listing : Processes → List CStr) (procs : Processes)
    (notice : Notice) : Processes :=
  if notice.isExec then
    match onProcessExec rs (pfMonitorGetExe procs notice.pid.toNat) with
    | none => procs
    | some ruleId => pfCgroupAssignPid procs ruleId notice.pid.toNat
  else pfCgroupRemovePid (listing procs) procs notice.pid.toNat

/-! ## The monitor among the processes -/

/-- `execed`: the process has called `exec` since the monitor was opened. `queue` is the socket's. -/
structure Watched where
  procs : Processes
  execed : Nat → Bool
  queue : List Message

inductive WatchedEvent where
  | fork (parent child : Nat)
  | exec (pid : Nat) (exe : CBuf pfPathMax) (report : Message)
  | exit (pid : Nat) (report : Message)
  | traffic (m : Message)
  | wake

def Watched.notified (rs : Ruleset) (listing : Processes → List CStr) (s : Watched)
    (rest : List Message) (notices : List Notice) : Watched :=
  { s with procs := notices.foldl (onProcessEvent rs listing) s.procs, queue := rest }

/-- The kernel sends each message as a datagram of its own; the daemon takes one at a time. -/
def Watched.step (rs : Ruleset) (listing : Processes → List CStr) (s : Watched) :
    WatchedEvent → Option Watched
  | .fork parent child =>
    if (s.procs parent).isSome && (s.procs child).isNone then
      some { s with procs := Function.update s.procs child (s.procs parent),
                    execed := Function.update s.execed child false }
    else none
  | .exec pid exe report => (s.procs pid).map fun p =>
      { procs := Function.update s.procs pid (some { p with exe := exe }),
        execed := Function.update s.execed pid true, queue := s.queue ++ [report] }
  | .exit pid report => if (s.procs pid).isSome then
      some { s with procs := Function.update s.procs pid none, queue := s.queue ++ [report] }
    else none
  | .traffic m => some { s with queue := s.queue ++ [m] }
  | .wake =>
    match s.queue with
    | [] => none
    | m :: rest => (pfMonitorProcess o (datagram o [m])).map (s.notified rs listing rest)

end Proxiflare.Daemon.Monitor
