import Custody.Numeric.Nearest
import Custody.World

/-! The files of the trail: their names, their order, and the removal of old ones. -/
namespace Custody.Audit
open Act

def filePrefix : Text := "audit_"

def fileSuffix : Text := ".log"

def isLogName (name : Text) : Bool := filePrefix.isPrefixOf name && fileSuffix.isSuffixOf name

/-- The name for an instant, and the further names for when it is taken. -/
def logName (now : Moment) : (n : Nat) → Text
  | 0 => filePrefix ++ now.stamp ++ fileSuffix
  | n + 1 => filePrefix ++ now.stamp ++ "_" ++ Text.ofNat (n + 1) ++ fileSuffix

/-- The first name from the `n`-th on under which there is nothing. -/
def freePath (d : Disk) (dir : Path) (now : Moment) : (tries n : Nat) → Except Failure Path
  | 0, n => .ok (dir.child (logName now n))
  | tries + 1, n => do
    let p := dir.child (logName now n)
    if ← d.pathExists p then freePath d dir now tries (n + 1) else return p

/-- One more name than there are places on the disk has to be tried at most. -/
def nextPath (d : Disk) (dir : Path) (now : Moment) : Except Failure Path :=
  freePath d dir now (d.nodes.length + 1) 0

def onlyFiles (d : Disk) : List Path → Except Failure (List Path)
  | [] => return []
  | p :: rest => do
    if ← d.isFile p then return p :: (← onlyFiles d rest) else onlyFiles d rest

/-- The files of the trail in a directory, in the order of their names. -/
def list (d : Disk) (dir : Path) : Except Failure (List Path) := do
  if ← d.isDirectory dir then
    let l ← d.locate dir
    let names := ((d.names l).filter isLogName).mergeSort Text.le
    onlyFiles d (names.map dir.child)
  else return []

/-- The files of the trail. A directory that cannot be read has none. -/
def logFiles : Act (List Path) := do
  let w ← get
  let dir := w.trail.config.dir
  orElse (require (list w.site.disk dir)) Failure.isSystem fun _ => do
    report .warning .audit "audit_dir_unreadable" [Value.field "dir" (.text dir.text)]
    return []

def maxDays : Int := 999999999

/-- The instant before which files are old. -/
def cutoff? (now : Moment) (days : Int) : Except Failure Moment :=
  if maxDays < days then .error .overflow
  else match Moment.ofMicros? ((now.micros : Int) - days * microsPerDay) with
    | some m => .ok m
    | none => .error .overflow

/-- An instant as a double that counts seconds since 1970. -/
def seconds (m : Moment) : Rat := Nearest.round (mkRat m.sinceEpoch microsPerSecond)

/-- The time of a file as a double that counts seconds since 1970: the whole seconds plus the double of
a billionth times the billionths. -/
def fileSeconds (micros : Int) : Rat :=
  let whole := micros / microsPerSecond
  let billionths := micros % microsPerSecond * 1000
  Nearest.round (whole + Nearest.round (Nearest.round (mkRat 1 1000000000) * billionths))

/-- Removes one file, unless the machine refuses. -/
def removeFile (p : Path) : Act Unit := do
  match (← get).site.refusals.removals.lookup p.name with
  | some e => throw (.system e)
  | none => onDisk (Disk.remove p)

/-- Removes a file if it is older than the cutoff, and tells whether it did. -/
def removeIfOld (cutoff : Moment) (p : Path) : Act Bool := do
  match ← require ((← get).site.disk.stat p) with
  | .file f =>
    if seconds cutoff ≤ fileSeconds f.modified then return false
    removeFile p
    return true
  | .directory _ => return false

/-- Removes the old ones among some files, the current one excepted. A file that is gone is no trouble,
and one that cannot be removed is reported. -/
def sweep (cutoff : Moment) : List Path → Act (List Path)
  | [] => return []
  | p :: rest => do
    if (← get).trail.current.any (·.path = p) then sweep cutoff rest
    else
      let removed ← orElse (removeIfOld cutoff p) Failure.isSystem fun e => do
        if e ≠ .system .notFound then
          report .warning .audit "audit_log_delete_failed" [Value.field "file" (.text p.name)]
        return false
      if removed then
        report .info .audit "audit_log_deleted" [Value.field "file" (.text p.name)]
        return p :: (← sweep cutoff rest)
      else sweep cutoff rest

/-- Removes the files that are older than the retention time, counted back from an instant. The result is
the files removed. -/
def cleanupFrom (now : Moment) : Act (List Path) := do
  let cutoff ← require (cutoff? now (← get).trail.config.retentionDays)
  sweep cutoff (← logFiles)

/-- Removes old files. Without an instant to count back from it is the one on the clock. -/
def cleanup : (now : Option Timestamp) → Act (List Path)
  | some t => do cleanupFrom (← require t.toUtc)
  | none => do cleanupFrom (← Act.now)

end Custody.Audit
