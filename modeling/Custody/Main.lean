import Custody.Cli.Run
import Std.Time.DateTime.Timestamp

/-! The program on a machine: it copies its surroundings from there, runs, and removes the files that the
run removed. -/
namespace Custody.Cli

/-- Everything on the input. -/
partial def readInput (input : IO.FS.Stream) (read : String) : IO String := do
  let line ← input.getLine
  if line.isEmpty then return read else readInput input (read ++ line)

/-- The disk after an operation, whether it failed or not. -/
def afterwards {α : Type} (op : DiskAct α) (d : Disk) : Disk :=
  match op d with
  | .ok _ d => d
  | .error _ d => d

def copyIn (content : Bool) (p : Path) (d : Disk) : IO Disk := do
  try
    let place ← IO.FS.realPath p.text.toString
    let m ← place.metadata
    match m.type with
    | .dir => return afterwards (Disk.makeDirectories Disk.usualMode p) d
    | _ =>
      let bytes ← if content then (·.toList) <$> IO.FS.readBinFile place else pure []
      let micros := m.modified.sec * 1000000 + m.modified.nsec.toNat / 1000
      return afterwards (Disk.write p bytes (some micros) none) d
  catch _ => return d

/-- Copies the names and times of the files in a directory to the disk. -/
def copyListing (p : Path) (d : Disk) : IO Disk := do
  try
    let place ← IO.FS.realPath p.text.toString
    (← place.readDir).foldlM (fun d e => copyIn false (p.child e.fileName) d) d
  catch _ => return d

/-- The variables of the process. Those that are no text are left out. -/
def environmentOfProcess : IO (List (Text × Text)) := do
  try
    let bytes ← IO.FS.readBinFile "/proc/self/environ"
    let entries := Text.splitOn ('\x00' : CodePoint) ((Utf8.decode? bytes.toList).getD [])
    return entries.filterMap fun e => match splitEquals e with
      | (name, some v) => some (name, v)
      | (_, none) => none
  catch _ => return []

/-- The machine as it is now, with an empty disk. -/
def surroundings : IO Site := do
  let now ← Std.Time.Timestamp.now
  let micros := now.toNanosecondsSinceUnixEpoch.toInt / 1000
  let cwd := Path.ofText (← IO.currentDir).toString
  let disk : Disk := {
    nodes := [([], .directory Disk.usualMode)]
    cwd := cwd.parts
    nextSerial := 0
    time := micros
    nodup := by simp
    precedes := by simp [Node.Precedes] }
  return {
    disk := afterwards (Disk.makeDirectories Disk.usualMode cwd) disk
    environment := ⟨true, ← environmentOfProcess⟩
    clock := { now := (Moment.ofMicros? (micros + Moment.epochDay * microsPerDay)).getD default }
    uptime := 0.0
    entropy := ⟨(← IO.getRandomBytes 16).toList, (← IO.getRandomBytes 12).toList⟩
    records := []
    sent := []
    refusals := {} }

/-- The machine with what a request will read: the settings, the file of secrets, and the audit files. -/
def surroundingsFor (r : Request) : IO Site := do
  let site ← surroundings
  let site := { site with disk := ← copyIn true (settingsFile site.disk r) site.disk }
  match settings site r with
  | .error _ => return site
  | .ok s =>
    let disk ← match s.secrets.secretsFile with
      | some p => copyIn true p site.disk
      | none => pure site.disk
    let disk ← copyIn false s.audit.dir disk
    return { site with disk := ← copyListing s.audit.dir disk }

/-- Removes the files that a run has removed. The result has those that the machine keeps. -/
def removeGone (before after : Disk) : IO (List (Text × SystemError)) :=
  before.nodes.foldlM (fun kept (l, n) => do
    if n.isDirectory || (after.node? l).isSome then return kept
    try
      IO.FS.removeFile (Disk.locationText l).toString
      return kept
    catch _ => return (l.getLastD [], .permission) :: kept) []

/-- Shows how a run ended. A failure that nothing caught has the status one. -/
def Ending.print (e : Ending) : IO UInt32 := do
  IO.print e.out.toString
  IO.eprint e.err.toString
  match e.status with
  | .ok n => return n.toUInt32
  | .error f =>
    IO.eprintln (f.kind.label ++ ": " ++ (f.message?.getD []).toString)
    return 1

end Custody.Cli

open Custody Custody.Cli in
def main (args : List String) : IO UInt32 := do
  match Request.read (args.map Text.ofString) with
  | .error h => (h.ending (← surroundings)).print
  | .ok r =>
    let input ← if r.readsInput then readInput (← IO.getStdin) "" else pure ""
    let site ← surroundingsFor r
    let e := r.run input site
    let kept ← removeGone site.disk e.site.disk
    if kept = [] then e.print
    else (r.run input { site with refusals := { removals := kept } }).print
