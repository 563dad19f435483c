import Proxiflare.Daemon.Logger

/-!
# What rotation keeps

Every run of log lines and rotations in which no call fails: the numbered files hold the segments
rotated last, newest first, and the live file holds the lines since.
-/

namespace Proxiflare.Guarantees.LogRotation

open Lib Lib.CString
open Proxiflare.Daemon

/-! ## Names -/

/-- The live file is number 0. -/
def logName (log : PfLogger) (i : Nat) : CStr :=
  if i = 0 then log.logPath.chars else log.logPath.chars ++ lit "." ++ pad2 i

theorem isDigit_of_mem_pad2 {n : Nat} {c : UInt8} (h : c ∈ pad2 n) : isDigit c = true := by
  rw [pad2] at h
  split at h
  · rcases List.mem_cons.mp h with rfl | h
    · rfl
    · exact isDigit_of_mem_decimal h
  · exact isDigit_of_mem_decimal h

theorem strtol_pad2 {n : Nat} (hn : n < 2 ^ 63) : strtol (pad2 n) = n := by
  have hdigits : (pad2 n).takeWhile isDigit = pad2 n :=
    List.takeWhile_eq_self_iff.mpr fun _ => isDigit_of_mem_pad2
  rw [pad2] at hdigits ⊢
  split
  · next h =>
    rw [if_pos h] at hdigits
    exact strtol_of_zeros (z := 1) hn hdigits
  · next h =>
    rw [if_neg h] at hdigits
    exact strtol_of_decimal hn hdigits

theorem pad2_length_le {n : Nat} (hn : n < 2 ^ 31) : (pad2 n).length ≤ 10 := by
  rw [pad2]
  split
  · next h =>
    have hlen := decimal_length_le (k := 1) (by decide) h
    rw [List.length_cons]
    omega
  · exact decimal_length_le (by decide) (by omega)

theorem logName_inj {log : PfLogger} {i j : Nat} (hi : i < 2 ^ 31) (hj : j < 2 ^ 31)
    (h : logName log i = logName log j) : i = j := by
  have hlonger : ∀ n, log.logPath.chars ≠ log.logPath.chars ++ lit "." ++ pad2 n := by
    intro n hn
    have hlen := congrArg List.length hn
    rw [List.length_append, List.length_append, show (lit ".").length = 1 from rfl] at hlen
    omega
  rw [logName, logName] at h
  split at h
  · next hzero =>
    split at h
    · next hzero' => rw [hzero, hzero']
    · exact absurd h (hlonger j)
  · split at h
    · exact absurd h.symm (hlonger i)
    · have hpad := List.append_cancel_left h
      have hvalue := congrArg strtol hpad
      rw [strtol_pad2 (by omega), strtol_pad2 (by omega)] at hvalue
      exact Int.ofNat_inj.mp hvalue

/-- The buffers are large enough for every number an `int` has. -/
theorem newName_chars (log : PfLogger) {i : Nat} (hpos : i ≠ 0) (hi : i < 2 ^ 31) :
    (newName log i).chars = logName log i := by
  have hfits := log.logPath.fits
  have hpad := pad2_length_le hi
  rw [newName, logName, if_neg hpos]
  refine CBuf.snprintf_of_fits ?_ ?_
  · rw [List.length_append, List.length_append, show (lit ".").length = 1 from rfl]
    omega
  · rw [List.mem_append, List.mem_append, not_or, not_or]
    exact ⟨⟨log.logPath.noNul, by decide⟩, fun h => absurd (isDigit_of_mem_pad2 h) (by decide)⟩

theorem oldName_chars (log : PfLogger) {i : Nat} (hi : i + 1 < 2 ^ 31) :
    (oldName log (i + 1)).chars = logName log i := by
  by_cases hzero : i = 0
  · rw [oldName, hzero, if_pos rfl, logName, if_pos rfl]
    refine CBuf.snprintf_of_fits ?_ log.logPath.noNul
    have hfits := log.logPath.fits
    omega
  · rw [oldName, if_neg (by omega)]
    exact newName_chars log hzero (by omega)

/-! ## One rotation -/

/-- Below the highest number nothing is removed. -/
theorem rotateNames_eq_shift (log : PfLogger) {i : Nat} (hi : (i : Int) < log.maxFiles.toInt)
    (files : LogFiles) : rotateNames .none log i files = files.shift (logName log) i := by
  have hmax := log.maxFiles.toInt_lt
  induction i generalizing files with
  | zero => rfl
  | succ i ih =>
    have hlast : decide (((i + 1 : Nat) : Int) = log.maxFiles.toInt) = false :=
      decide_eq_false (by omega)
    rw [rotateNames, hlast, newName_chars log (Nat.succ_ne_zero i) (by omega),
      oldName_chars log (by omega), ih (by omega)]
    rfl

theorem rotateNames_eq (log : PfLogger) (hpos : 1 ≤ log.maxFiles.toInt) (files : LogFiles) :
    rotateNames .none log log.maxFiles.toInt.toNat files =
      (files.remove (logName log log.maxFiles.toInt.toNat)).shift (logName log)
        log.maxFiles.toInt.toNat := by
  have hmax := log.maxFiles.toInt_lt
  obtain ⟨m, hm⟩ : ∃ m, log.maxFiles.toInt.toNat = m + 1 := ⟨log.maxFiles.toInt.toNat - 1, by omega⟩
  have hlast : decide (((m + 1 : Nat) : Int) = log.maxFiles.toInt) = true :=
    decide_eq_true (by omega)
  rw [hm, rotateNames, hlast, newName_chars log (Nat.succ_ne_zero m) (by omega),
    oldName_chars log (by omega), rotateNames_eq_shift log (by omega)]
  rfl

/-! ## Runs -/

inductive LogCall where
  | log (entry : PfLogEntry)
  | rotate

/-- What was written: the segment that is being written, and the rotated ones, newest first. -/
structure History where
  live : CStr
  segments : List CStr
  deriving DecidableEq

def History.start : History := ⟨[], []⟩

def History.rotate (h : History) : History := ⟨[], h.live :: h.segments⟩

/-- A line, and a rotation where the segment has become too large. -/
def History.write (maxSize : Nat) (h : History) (line : CStr) : History :=
  let h : History := { h with live := h.live ++ line }
  if h.live.length ≥ maxSize then h.rotate else h

variable {ν : Type} (d : Doubles ν) (localTime : Int → CBuf 32)

def History.call (maxSize : Nat) (h : History) : LogCall → History
  | .log entry => h.write maxSize (logLine localTime entry)
  | .rotate => h.rotate

/-- No call fails. -/
def step (s : LogDisk) : LogCall → LogDisk
  | .log entry => (pfLoggerLog .none d localTime entry s).2
  | .rotate => (pfLoggerRotate .none s).2

/-- The directory, beside the files it had, holds the history. -/
structure Holds (log : PfLogger) (before : LogFiles) (s : LogDisk) (h : History) : Prop where
  enabled : s.log.diskEnabled = true
  opened : s.log.logFile = true
  path : s.log.logPath = log.logPath
  maxSize : s.log.maxSize = log.maxSize
  maxFiles : s.log.maxFiles = log.maxFiles
  live : s.files (logName log 0) = some h.live
  size : s.log.currentSize = h.live.length
  rotated : ∀ i < log.maxFiles.toInt.toNat, s.files (logName log (i + 1)) = h.segments[i]?
  others : ∀ x, (∀ i ≤ log.maxFiles.toInt.toNat, x ≠ logName log i) → s.files x = before x

variable {d localTime} {log : PfLogger} {before : LogFiles} {s : LogDisk} {h : History}

theorem logName_of_path {log' : PfLogger} (hpath : log'.logPath = log.logPath) :
    logName log' = logName log := by
  funext i
  rw [logName, logName, hpath]

theorem Holds.rotate (hs : Holds log before s h) (hpos : 1 ≤ log.maxFiles.toInt) :
    Holds log before (pfLoggerRotate .none s).2 h.rotate := by
  have hmax := log.maxFiles.toInt_lt
  have hnames : logName { s.log with logFile := false } = logName log := logName_of_path hs.path
  have hfiles : (pfLoggerRotate .none s).2.files =
      ((s.files.remove (logName log log.maxFiles.toInt.toNat)).shift (logName log)
        log.maxFiles.toInt.toNat).create (logName log 0) [] := by
    have hrotated := rotateNames_eq s.log (by rwa [hs.maxFiles]) s.files
    rw [hs.maxFiles, logName_of_path hs.path] at hrotated
    have hpath : s.log.logPath.chars = logName log 0 := congrArg CBuf.chars hs.path
    show (rotateNames .none s.log s.log.maxFiles.toInt.toNat s.files).create
      s.log.logPath.chars [] = _
    rw [hs.maxFiles, hrotated, hpath]
  have hne : ∀ i ≤ log.maxFiles.toInt.toNat, ∀ j ≤ log.maxFiles.toInt.toNat,
      logName log i = logName log j → i = j :=
    fun i hi j hj => logName_inj (by omega) (by omega)
  have hremoved : s.files.remove (logName log log.maxFiles.toInt.toNat)
      (logName log log.maxFiles.toInt.toNat) = none := Files.remove_self
  obtain ⟨hfirst, hmoved⟩ := Files.shift_names hne hremoved
  have hkept : ∀ i < log.maxFiles.toInt.toNat,
      s.files.remove (logName log log.maxFiles.toInt.toNat) (logName log i) =
        s.files (logName log i) := by
    intro i hi
    refine Files.remove_of_ne fun heq => ?_
    have hsame := hne i hi.le _ le_rfl heq
    omega
  refine ⟨hs.enabled, rfl, hs.path, hs.maxSize, hs.maxFiles, ?_, rfl, fun i hi => ?_,
    fun x hx => ?_⟩
  · rw [hfiles, Files.create_self, hfirst]
    rfl
  · have hnotLive : logName log (i + 1) ≠ logName log 0 := by
      intro heq
      have hsame := hne (i + 1) hi 0 (Nat.zero_le _) heq
      omega
    rw [hfiles, Files.create_of_ne hnotLive, hmoved i hi, hkept i hi]
    cases i with
    | zero => exact hs.live
    | succ i => exact hs.rotated i (by omega)
  · rw [hfiles, Files.create_of_ne (hx 0 (Nat.zero_le _)), Files.shift_of_ne hx,
      Files.remove_of_ne (hx _ le_rfl)]
    exact hs.others x hx

/-- The disk with one more line in the live file. -/
def appended (s : LogDisk) (line : CStr) : LogDisk where
  log := { s.log with currentSize := s.log.currentSize + line.length }
  files := Function.update s.files s.log.logPath.chars
    (some ((s.files s.log.logPath.chars).getD [] ++ line))

theorem writeEntry_eq (hs : Holds log before s h) {line : CStr} (hline : line ≠ []) :
    writeEntry .none line s = if (appended s line).log.currentSize ≥ s.log.maxSize then
      (pfLoggerRotate .none (appended s line)).2 else appended s line := by
  have hwritten : 0 < (line.length : Int) := by
    have hlen := List.length_pos_iff.mpr hline
    omega
  rw [writeEntry, hs.enabled, hs.opened, Bool.and_self, if_pos rfl]
  exact if_pos hwritten

theorem Holds.append (hs : Holds log before s h) (line : CStr) :
    Holds log before (appended s line) { h with live := h.live ++ line } := by
  have hpath : s.log.logPath.chars = logName log 0 := congrArg CBuf.chars hs.path
  have hmax := log.maxFiles.toInt_lt
  refine ⟨hs.enabled, hs.opened, hs.path, hs.maxSize, hs.maxFiles, ?_, ?_, fun i hi => ?_,
    fun x hx => ?_⟩
  · show Function.update s.files s.log.logPath.chars _ (logName log 0) = _
    rw [hpath, Function.update_self, hs.live]
    rfl
  · show s.log.currentSize + line.length = (h.live ++ line).length
    rw [hs.size, List.length_append]
  · have hnotLive : logName log (i + 1) ≠ logName log 0 := by
      intro heq
      have hsame := logName_inj (by omega) (by omega) heq
      omega
    show Function.update s.files s.log.logPath.chars _ (logName log (i + 1)) = _
    rw [hpath, Function.update_of_ne hnotLive]
    exact hs.rotated i hi
  · show Function.update s.files s.log.logPath.chars _ x = _
    rw [hpath, Function.update_of_ne (hx 0 (Nat.zero_le _))]
    exact hs.others x hx

theorem Holds.write (hs : Holds log before s h) (hpos : 1 ≤ log.maxFiles.toInt) {line : CStr}
    (hline : line ≠ []) :
    Holds log before (writeEntry .none line s) (h.write log.maxSize line) := by
  have happend := hs.append line
  rw [writeEntry_eq hs hline, happend.size, hs.maxSize, History.write]
  by_cases hlarge : (h.live ++ line).length ≥ log.maxSize
  · rw [if_pos hlarge, if_pos hlarge]
    exact happend.rotate hpos
  · rw [if_neg hlarge, if_neg hlarge]
    exact happend

theorem logLine_ne_nil (localTime : Int → CBuf 32) (entry : PfLogEntry) :
    logLine localTime entry ≠ [] := by
  have hend : lit "ms\n" ≠ [] := by decide
  have hmore : ∀ text : CStr, text ++ lit "ms\n" ≠ [] :=
    fun text => List.append_ne_nil_of_right_ne_nil text hend
  exact hmore _

theorem Holds.step (d : Doubles ν) (localTime : Int → CBuf 32) (hs : Holds log before s h)
    (hpos : 1 ≤ log.maxFiles.toInt) (c : LogCall) :
    Holds log before (LogRotation.step d localTime s c) (h.call localTime log.maxSize c) := by
  cases c with
  | log entry => exact hs.write hpos (logLine_ne_nil localTime entry)
  | rotate => exact hs.rotate hpos

theorem Holds.run (d : Doubles ν) (localTime : Int → CBuf 32) (hs : Holds log before s h)
    (hpos : 1 ≤ log.maxFiles.toInt) (calls : List LogCall) :
    Holds log before (calls.foldl (LogRotation.step d localTime) s)
      (calls.foldl (History.call localTime log.maxSize) h) := by
  induction calls generalizing s h with
  | nil => exact hs
  | cons c calls ih => exact ih (hs.step d localTime hpos c)

/-- Enabling the log where there are no log files. -/
theorem Holds.enable (hclosed : log.diskEnabled = false)
    (hfree : ∀ i ≤ log.maxFiles.toInt.toNat, before (logName log i) = none) :
    Holds log before (pfLoggerDiskEnable .none ⟨log, before⟩).2 .start := by
  have hmax := log.maxFiles.toInt_lt
  have hlive : before log.logPath.chars = none := hfree 0 (Nat.zero_le _)
  have henable : (pfLoggerDiskEnable .none ⟨log, before⟩).2 =
      ⟨{ log with logFile := true, diskEnabled := true, currentSize := 0 },
        before.create log.logPath.chars []⟩ := by
    have hsize : ((before.create log.logPath.chars [] log.logPath.chars).getD []).length = 0 := by
      rw [Files.create_self, hlive]
      rfl
    rw [pfLoggerDiskEnable, hclosed]
    simp only [Bool.false_and, Bool.false_eq_true, if_false, openLog, DiskFaults.none, hsize]
  rw [henable]
  refine ⟨rfl, rfl, rfl, rfl, rfl, ?_, rfl, fun i hi => ?_, fun x hx => ?_⟩
  · show before.create log.logPath.chars [] log.logPath.chars = _
    rw [Files.create_self, hlive]
    rfl
  · have hnotLive : logName log (i + 1) ≠ log.logPath.chars := by
      intro heq
      have hsame := logName_inj (j := 0) (by omega) (by decide) heq
      omega
    show before.create log.logPath.chars [] (logName log (i + 1)) = _
    rw [Files.create_of_ne hnotLive]
    exact hfree (i + 1) hi
  · exact Files.create_of_ne (hx 0 (Nat.zero_le _)) []

/-! ## The history -/

def linesOf (localTime : Int → CBuf 32) : LogCall → CStr
  | .log entry => logLine localTime entry
  | .rotate => []

def History.written (h : History) : CStr := h.segments.reverse.flatten ++ h.live

theorem History.written_rotate (h : History) : h.rotate.written = h.written := by
  rw [written, written, rotate, List.reverse_cons, List.flatten_append, List.append_nil,
    List.flatten_singleton]

theorem History.written_call (localTime : Int → CBuf 32) (maxSize : Nat) (h : History)
    (c : LogCall) : (h.call localTime maxSize c).written = h.written ++ linesOf localTime c := by
  cases c with
  | rotate => rw [call, written_rotate, linesOf, List.append_nil]
  | log entry =>
    rw [call, write, linesOf]
    split
    · rw [written_rotate, written, written, List.append_assoc]
    · rw [written, written, List.append_assoc]

/-- The segments, one after the other, are all lines in order. -/
theorem History.written_run (localTime : Int → CBuf 32) (maxSize : Nat) (calls : List LogCall)
    (h : History) : (calls.foldl (History.call localTime maxSize) h).written =
      h.written ++ calls.flatMap (linesOf localTime) := by
  induction calls generalizing h with
  | nil => exact (List.append_nil _).symm
  | cons c calls ih =>
    rw [List.foldl_cons, ih, written_call, List.flatMap_cons, List.append_assoc]

/-- After any run the live file holds the lines since the last rotation, the files behind it hold
the segments rotated last, newest first, and the history they are read off is all that was logged. -/
theorem rotation_keeps_newest (d : Doubles ν) (localTime : Int → CBuf 32) (log : PfLogger)
    (before : LogFiles) (hclosed : log.diskEnabled = false) (hpos : 1 ≤ log.maxFiles.toInt)
    (hfree : ∀ i ≤ log.maxFiles.toInt.toNat, before (logName log i) = none)
    (calls : List LogCall) :
    let s := calls.foldl (step d localTime) (pfLoggerDiskEnable .none ⟨log, before⟩).2
    let h := calls.foldl (History.call localTime log.maxSize) .start
    h.segments.reverse.flatten ++ h.live = calls.flatMap (linesOf localTime) ∧
      (∀ i < log.maxFiles.toInt.toNat, s.files (logName log (i + 1)) = h.segments[i]?) ∧
      s.files (logName log 0) = some h.live ∧ s.log.currentSize = h.live.length := by
  intro s h
  have hholds : Holds log before s h := (Holds.enable hclosed hfree).run d localTime hpos calls
  exact ⟨History.written_run localTime log.maxSize calls .start, hholds.rotated, hholds.live,
    hholds.size⟩

def twoFiles : PfLogger := { pfLoggerInit (lit "/var/log/p") with maxSize := 1000, maxFiles := 2 }

def visit : PfLogEntry where
  ts := 0
  proxyId := 1
  uid := 1000
  appPath := .snprintf (lit "/usr/bin/curl")
  domain := .snprintf (lit "example.com")
  dstIp := .snprintf (lit "192.0.2.1")
  dstPort := 443
  action := .proxy
  success := 1
  latencyMs := 12
  bytesSent := 100
  bytesRecv := 200

def countDoubles : Doubles Int := ⟨id, id, fun a b => a < b, fun a b => a = b, fun n => decimal n.toNat⟩

/-- Three rotations with room for two files: the first segment is gone. -/
theorem rotation_keeps_two :
    let s := [.log visit, .rotate, .rotate, .log visit, .log visit, .rotate].foldl
      (step countDoubles fun _ => .empty) (pfLoggerDiskEnable .none ⟨twoFiles, fun _ => none⟩).2
    let line := logLine (fun _ => .empty) visit
    s.files (logName twoFiles 0) = some [] ∧ s.files (logName twoFiles 1) = some (line ++ line) ∧
      s.files (logName twoFiles 2) = some [] := by
  obtain ⟨-, hfiles, hlive, -⟩ := rotation_keeps_newest countDoubles (fun _ => .empty) twoFiles
    (fun _ => none) rfl (by decide) (fun _ _ => rfl)
    [.log visit, .rotate, .rotate, .log visit, .log visit, .rotate]
  exact ⟨hlive.trans (by decide +kernel), (hfiles 0 (by decide)).trans (by decide +kernel),
    (hfiles 1 (by decide)).trans (by decide +kernel)⟩

end Proxiflare.Guarantees.LogRotation
