import Proxiflare.Lib.Runs
import Proxiflare.Daemon.Requests

/-!
# Rule cgroups and the process monitor

The effect of the calls of `daemon/src/cgroup.c` on the running processes, and
`on_process_event` of `main.c`. A process lies in one cgroup: that of a rule, or one
outside all of them. Writes to `cgroup.procs` are taken to succeed.
-/

namespace Proxiflare.Daemon

open Lib.CString

/-- `exe` is what `readlink` gives, empty where it fails; `rule` is the rule cgroup it is in. -/
structure Process where
  exe : CBuf pfPathMax
  rule : Option Int
  deriving DecidableEq

abbrev Processes := Nat → Option Process

/-- `rule_path` refuses other ids. -/
def rulePathOk (ruleId : Int) : Bool := 0 < ruleId

def pfCgroupAssignPid (procs : Processes) (ruleId : Int) (pid : Nat) : Processes :=
  if rulePathOk ruleId then
    Function.update procs pid ((procs pid).map fun p => { p with rule := some ruleId })
  else procs

/-- `rmdir` refuses a cgroup with processes in it, so they are moved to the base first. -/
def pfCgroupRemoveRule (procs : Processes) (ruleId : Int) : Processes :=
  if rulePathOk ruleId then
    fun pid => (procs pid).map fun p => if p.rule = some ruleId then { p with rule := none } else p
  else procs

/-- Full path, then basename against basename. -/
def runningMatch (appPattern exe : CStr) : Bool :=
  pfMatchApp appPattern exe || afterLastSlash exe = afterLastSlash appPattern

def pfCgroupAssignRunningPids (procs : Processes) (ruleId : Int) (appPattern : CBuf pfPathMax) :
    Processes :=
  if appPattern.nonempty && rulePathOk ruleId then
    fun pid => (procs pid).map fun p =>
      if p.exe.nonempty && runningMatch appPattern.chars p.exe.chars then
        { p with rule := some ruleId }
      else p
  else procs

def applyCgroup (procs : Processes) : KernelOp → Processes
  | .cgroupRemoveRule id => pfCgroupRemoveRule procs id
  | .cgroupAssignRunningPids id appPath => pfCgroupAssignRunningPids procs id appPath
  | .cgroupCreateRule _ | .nftAddCgroupMark _ | .nftRemoveCgroupMark _ => procs

/-! ## The process monitor -/

/-- The rule an exec event settles on. -/
def execRule (rs : Ruleset) (exePath : CStr) : Option Rule :=
  let rule := pfRulesMatchAppAny rs exePath
  let rule := if rule.all (·.action = .direct) then
      pfRulesMatchAppAny rs (afterLastSlash exePath)
    else rule
  rule.filter fun r => r.action ≠ .direct && r.appPath.nonempty

/-- The rule id of the `pf_cgroup_assign_pid` call, if one is made. -/
def onProcessExec (rs : Ruleset) (exePath : CStr) : Option Int :=
  (execRule rs exePath).map fun r => (r.id : Int)

/-! ## The daemon among the processes -/

structure World where
  state : State
  procs : Processes

inductive WorldEvent where
  | ruleAdd (params : Option Json)
  | ruleEdit (params : Option Json)
  | ruleDelete (params : Option Json)
  | fork (parent child : Nat)
  | exec (pid : Nat) (exe : CBuf pfPathMax)
  | exit (pid : Nat)

def World.request (w : World) (o : Outcome) : World := ⟨o.state, o.ops.foldl applyCgroup w.procs⟩

/-- A child starts in its parent's cgroup; the daemon is told of exec and exit only. -/
def World.step (w : World) : WorldEvent → Option World
  | .ruleAdd params => some (w.request (ruleAdd w.state params))
  | .ruleEdit params => some (w.request (ruleEdit w.state params))
  | .ruleDelete params => some (w.request (ruleDelete w.state params))
  | .fork parent child =>
    if (w.procs parent).isSome && (w.procs child).isNone then
      some { w with procs := Function.update w.procs child (w.procs parent) }
    else none
  | .exec pid exe =>
    (w.procs pid).map fun p =>
      let procs := Function.update w.procs pid (some { p with exe := exe })
      { w with procs := ((onProcessExec w.state.ruleset exe.chars).map
          (pfCgroupAssignPid procs · pid)).getD procs }
  | .exit pid => if (w.procs pid).isSome then
      some { w with procs := Function.update w.procs pid none }
    else none

/-- After start-up; no process is in a rule cgroup yet. -/
def World.start (db : Db) (exes : Nat → Option (CBuf pfPathMax)) : World :=
  ⟨(startUp db).1, fun pid => (exes pid).map fun exe => ⟨exe, none⟩⟩

/-! ## Where an executable is covered -/

/-- The application pattern matches the full path or its last component. -/
def appMatches (r : Rule) (exePath : CStr) : Bool :=
  pfMatchApp r.appPath.chars exePath || pfMatchApp r.appPath.chars (afterLastSlash exePath)

end Proxiflare.Daemon
