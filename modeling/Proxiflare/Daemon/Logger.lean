import Proxiflare.Daemon.Captures
import Proxiflare.Daemon.Libc
import Proxiflare.Lib.Files

/-!
# The log on disk

`logger.c`, with the directory the log files are in. A call on a file may fail; the return codes
of `remove` and `rename` are not looked at. The text of a time stamp is the C library's.
-/

namespace Proxiflare.Daemon

open Lib Lib.CString

/-- `pf_log_entry_t`, less the rule. -/
structure PfLogEntry where
  ts : Int
  proxyId : UInt32
  uid : UInt32
  appPath : CBuf pfPathMax
  domain : CBuf (pfDomainMax + 1)
  dstIp : CBuf 48
  dstPort : UInt16
  action : Action
  success : Int
  latencyMs : UInt32
  bytesSent : UInt64
  bytesRecv : UInt64

/-- `pf_logger_t`. `logFile` says that the file is open; `current_size` stays below `2^64`, as a
file does. -/
structure PfLogger where
  diskEnabled : Bool
  logPath : CBuf pfPathMax
  logFile : Bool
  maxSize : Nat
  maxFiles : Int32
  currentSize : Nat

abbrev LogFiles := Files CStr CStr

/-- The logger and the files. -/
structure LogDisk where
  log : PfLogger
  files : LogFiles

/-- Which of the calls fail. A failing write may leave the beginning of its text. -/
structure DiskFaults where
  remove : Bool
  rename : Nat → Bool
  fopen : Bool
  fseek : Bool
  fprintf : Option Nat

def DiskFaults.none : DiskFaults := ⟨false, fun _ => false, false, false, .none⟩

variable (w : DiskFaults)

/-! ## Enabling -/

/-- `pf_logger_init`. -/
def pfLoggerInit (path : CStr) : PfLogger where
  diskEnabled := false
  logPath := .snprintf path
  logFile := false
  maxSize := 100 * 1024 * 1024
  maxFiles := 5
  currentSize := 0

/-- `fopen(log->log_path, "a")`. -/
def openLog (s : LogDisk) : Option LogDisk :=
  if w.fopen then none
  else some
    { s with log.logFile := true, files := s.files.create s.log.logPath.chars [] }

/-- Whether it returns `PF_OK`. The size of the file is measured, if that can be done. -/
def pfLoggerDiskEnable (s : LogDisk) : Bool × LogDisk :=
  if s.log.diskEnabled && s.log.logFile then (true, s)
  else match openLog w s with
    | none => (false, { s with log.logFile := false })
    | some s =>
      let size := if w.fseek then 0 else ((s.files s.log.logPath.chars).getD []).length
      (true, { s with log.currentSize := size, log.diskEnabled := true })

/-! ## Rotation -/

/-- `%02d` of a natural number. -/
def pad2 (n : Nat) : CStr := if n < 10 then 48 :: decimal n else decimal n

/-- `old_name` and `new_name`. -/
def oldName (log : PfLogger) (i : Nat) : CBuf (pfPathMax + 16) :=
  if i = 1 then .snprintf log.logPath.chars
  else .snprintf (log.logPath.chars ++ lit "." ++ pad2 (i - 1))

def newName (log : PfLogger) (i : Nat) : CBuf (pfPathMax + 16) :=
  .snprintf (log.logPath.chars ++ lit "." ++ pad2 i)

/-- `for (int i = log->max_files; i >= 1; i--)`, from `i` on. -/
def rotateNames (log : PfLogger) : Nat → LogFiles → LogFiles
  | 0, files => files
  | i + 1, files =>
    let last : Bool := ((i + 1 : Nat) : Int) = log.maxFiles.toInt
    let files := if last && !w.remove then files.remove (newName log (i + 1)).chars else files
    let files := if w.rename (i + 1) then files
      else files.rename (oldName log (i + 1)).chars (newName log (i + 1)).chars
    rotateNames log i files

/-- Whether it returns `PF_OK`. -/
def pfLoggerRotate (s : LogDisk) : Bool × LogDisk :=
  let s : LogDisk := { s with
    log.logFile := false
    files := rotateNames w s.log s.log.maxFiles.toInt.toNat s.files }
  match openLog w s with
  | none => (false, { s with log.diskEnabled := false })
  | some s => (true, { s with log.currentSize := 0 })

/-! ## Logging -/

/-- `app_basename`. -/
def appBasename (appPath : CStr) : CStr :=
  if appPath = [] then lit "unknown" else afterLastSlash appPath

/-- The line of an entry; the bytes in its middle are an arrow. -/
def logLine (localTime : Int → CBuf 32) (entry : PfLogEntry) : CStr :=
  lit "[" ++ (localTime entry.ts).chars ++ lit "] [" ++ appBasename entry.appPath.chars ++ lit ":"
    ++ decimal entry.uid.toNat ++ lit "] " ++ entry.domain.chars ++ [32, 226, 134, 146, 32]
    ++ entry.dstIp.chars ++ lit ":" ++ decimal entry.dstPort.toNat ++ lit " ("
    ++ pfActionStr entry.action ++ lit ") " ++ decimal entry.bytesSent.toNat ++ lit "/"
    ++ decimal entry.bytesRecv.toNat ++ lit " " ++ decimal entry.latencyMs.toNat ++ lit "ms\n"

def logJson {ν : Type} (d : Doubles ν) (entry : PfLogEntry) : Cjson ν :=
  .obj [(lit "ts", .num (d.ofInt entry.ts)), (lit "app", .str (appBasename entry.appPath.chars)),
    (lit "uid", .num (d.ofInt entry.uid.toNat)), (lit "domain", .str entry.domain.chars),
    (lit "dst_ip", .str entry.dstIp.chars), (lit "dst_port", .num (d.ofInt entry.dstPort.toNat)),
    (lit "proxy_id", .num (d.ofInt entry.proxyId.toNat)),
    (lit "action", .str (pfActionStr entry.action)),
    (lit "bytes_tx", .num (d.ofInt entry.bytesSent.toNat)),
    (lit "bytes_rx", .num (d.ofInt entry.bytesRecv.toNat)),
    (lit "latency_ms", .num (d.ofInt entry.latencyMs.toNat)),
    (lit "success", .num (d.ofInt entry.success))]

/-- `fprintf`: what it returns, and the file. -/
def appendLine (line : CStr) (s : LogDisk) : Int × LogDisk :=
  let path := s.log.logPath.chars
  let before := (s.files path).getD []
  match w.fprintf with
  | none => (line.length, { s with files := Function.update s.files path (some (before ++ line)) })
  | some n =>
    (-1, { s with files := Function.update s.files path (some (before ++ line.take n)) })

/-- The line is written, and a file that has become too large is rotated. -/
def writeEntry (line : CStr) (s : LogDisk) : LogDisk :=
  if s.log.diskEnabled && s.log.logFile then
    match appendLine w line s with
    | (written, s) =>
      if 0 < written then
        let s : LogDisk := { s with log.currentSize := s.log.currentSize + written.toNat }
        if s.log.currentSize ≥ s.log.maxSize then (pfLoggerRotate w s).2 else s
      else s
  else s

def pfLoggerLog {ν : Type} (d : Doubles ν) (localTime : Int → CBuf 32) (entry : PfLogEntry)
    (s : LogDisk) : Cjson ν × LogDisk :=
  (logJson d entry, writeEntry w (logLine localTime entry) s)

end Proxiflare.Daemon
