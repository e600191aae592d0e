import Custody.Audit.Files

/-! The writing of entries: which file they go to, when the next file begins, and what is lost. -/
namespace Custody.Audit
open Act

def fileMode : Nat := 0o600

def note (d : Deed) : Act Unit := modifyTrail fun t => { t with journal := d :: t.journal }

def closeStream : Act Unit := do
  match (← get).trail.stream with
  | none => return ()
  | some s =>
    modifyTrail fun t => { t with stream := none }
    if s.closed then report .warning .audit "audit_close_flush_failed" []

def openFile (p : Path) : Act Nat := do
  match (← get).site.refusals.openings with
  | [] => onDisk (Disk.openAppend fileMode p)
  | refusal :: rest =>
    modifySite fun s => { s with refusals := { s.refusals with openings := rest } }
    match refusal with
    | some e => throw (.system e)
    | none => onDisk (Disk.openAppend fileMode p)

/-- Ends the current file and begins the next. -/
def rotate : Act Unit := do
  closeStream
  let opened ← now
  let w ← get
  let p ← require (nextPath w.site.disk w.trail.config.dir opened)
  let serial ← openFile p
  let size := (((← get).site.disk.fileOf? serial).map (·.content.length)).getD 0
  modifyTrail fun t => { t with stream := some ⟨serial, false⟩, current := some ⟨p, size⟩ }
  note (.opened p serial)
  report .info .audit "audit_log_rotated" [Value.field "file" (.text p.name)]

/-- Whether a line of some bytes needs a new file: there is none, it is full, or it holds something and
the line does not fit. -/
def needsRotation (incoming : Nat) : Act Bool := do
  let t := (← get).trail
  match t.stream, t.current with
  | some _, some file =>
    let limit ← require t.config.maxBytes
    return limit ≤ file.size || (0 < file.size && limit < file.size + incoming)
  | _, _ => return true

def appendLine (line : Text) (bytes : Bytes) : Act Unit := do
  match (← get).trail.stream with
  | none => throw (.system .other)
  | some s =>
    if s.closed then throw .badValue
    modifySite fun site => { site with disk := site.disk.append s.serial bytes }
    modifyTrail fun t =>
      { t with current := t.current.map fun f => { f with size := f.size + bytes.length } }
    note (.wrote s.serial line)

/-- Writes a line to the current file, or to the next one. -/
def writeLine (line : Text) : Act Unit := do
  match Utf8.encode? (line ++ "\n") with
  | none => throw .surrogate
  | some bytes =>
    if ← needsRotation bytes.length then rotate
    appendLine line bytes

/-- The names of an entry's event and action, as they are reported. -/
def wordsOf (e : Entry) : List (Text × Value) :=
  [Value.field "event" (.text (label e.event)), Value.field "action" (.text (label e.action))]

def discard (e : Entry) (message : String) : Act Unit := do
  modifyTrail fun t => { t with dropped := t.dropped + 1 }
  note (.discarded e)
  report .warning .audit message (wordsOf e)

/-- Failures that cost an entry and go no further. -/
def isLoss (f : Failure) : Bool := f.isSystem || f.isValue || f = .badType

/-- Writes an entry, or reports that it is lost. -/
def writeEntry (e : Entry) : Act Unit := do
  if (← get).trail.phase = .stopped then discard e "audit_entry_after_shutdown"
  else orElse (do writeLine (← require e.json)) isLoss fun _ => discard e "audit_write_failed"

/-- Takes a number of entries off the queue and writes them. -/
def drain : (n : Nat) → Act Unit
  | 0 => return ()
  | n + 1 => do
    match (← get).trail.queue with
    | [] => return ()
    | e :: rest =>
      modifyTrail fun t => { t with queue := rest }
      writeEntry e
      drain n

def flush : Act Unit := do
  drain (← get).trail.queue.length
  if (← get).trail.stream.any (·.closed) then report .warning .audit "audit_flush_failed" []

end Custody.Audit
