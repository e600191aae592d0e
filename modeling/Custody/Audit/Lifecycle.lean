import Custody.Audit.Writing

/-! The life of a trail: it is opened, takes entries, and is closed for good. -/
namespace Custody.Audit
open Act

def directoryMode : Nat := 0o700

/-- The word that a value names, in any case. -/
def wordOf {α : Type} [Vocabulary α] (v : Value) : Except Failure α := do
  match word? (← v.display).upper with
  | some w => .ok w
  | none => .error .badValue

/-- What a caller has to say about something that happened. -/
structure Report where
  event : Value
  action : Value
  details : Value
  result : Value
  user : Value := .null
  resource : Value := .null
  metadata : Value := .null
deriving Inhabited

def Report.entry (now : Moment) (r : Report) : Except Failure Entry := do
  let event ← wordOf r.event
  let action ← wordOf r.action
  let result ← wordOf r.result
  let metadata ← if r.metadata.truthy then Entry.metadataOf r.metadata else .ok []
  return ⟨⟨now.micros, some 0⟩, event, action, result, r.details, r.user, r.resource, metadata⟩

def enqueue (r : Report) : Act Unit := do
  let e ← require (r.entry (← now))
  modifyTrail fun t => { t with queue := t.queue ++ [e] }
  note (.queued e)

def named {α : Type} [Vocabulary α] (w : α) : Value := .text (label w)

def ownReport (action : Action) (details : String) : Report where
  event := named Event.system
  action := named action
  details := .text details
  result := named Outcome.success

/-- Makes the directory of the trail and closes it to others. -/
def prepareDirectory : Act Unit := do
  let dir := (← get).trail.config.dir
  onDisk (Disk.makeDirectories directoryMode dir)
  onDisk (Disk.setMode directoryMode dir)

def Timer.start (now : Float) (c : Config.AuditSettings) : Timer where
  tasks := [.start now Duty.flush.label c.flushInterval none .flush,
    .start now Duty.cleanup.label c.cleanupInterval (some c.cleanupDelay) .cleanup]
  stuck := false

/-- Begins the service of a trail whose first file is open. -/
def serve : Act Unit := do
  let w ← get
  modifyTrail fun t => { t with timer := some (.start w.site.uptime t.config), phase := .running }
  let place ← require (w.site.disk.locate w.trail.config.dir)
  let limit ← require w.trail.config.maxBytes
  report .info .audit "audit_initialized"
    [Value.field "dir" (.text (Disk.locationText place)), Value.field "max_size_bytes" (.int limit),
      Value.field "retention_days" (.int w.trail.config.retentionDays)]
  enqueue (ownReport .setUp "Audit trail started")

/-- Undoes the opening of a trail whose directory or first file cannot be made. -/
def giveUp : Act Unit := do
  modifyTrail fun t => { t with phase := .fresh }
  let dir := (← get).trail.config.dir
  report .error .audit "audit_initialize_failed" [Value.field "dir" (.text dir.text)]
  throw (.auditStorage dir.text)

/-- Opens a trail that has never been opened. -/
def start : Act Unit := do
  if (← get).trail.phase ≠ .fresh then return ()
  modifyTrail fun t => { t with phase := .opening }
  orElse (do prepareDirectory; rotate) Failure.isSystem fun _ => giveUp
  serve

/-- The span, in billionths of a second, that is too long to be waited for. -/
def waitLimit : Float := 9223372036854775808.0

/-- Whether an end can be waited for a number of seconds. -/
def waitFor (seconds : Float) : Except Failure Unit :=
  if seconds.isNaN then .error .badValue
  else if waitLimit ≤ seconds * 1000000000.0 then .error .overflow
  else .ok ()

/-- Stops the timer and waits for its end. One that is stuck is reported and left behind. -/
def stopTimer : Act Unit := do
  let t := (← get).trail
  modifyTrail fun t => { t with timer := none }
  match t.timer with
  | none => return ()
  | some timer =>
    if timer.stuck then
      report .warning .audit "audit_scheduler_stop_timeout"
        [Value.field "timeout_s" (.float t.config.shutdownTimeout)]
    else if t.waits then require (waitFor t.config.shutdownTimeout)

/-- Writes what is in the queue, ends the timer and closes the trail for good. -/
def retire : Act Unit := do
  flush
  stopTimer
  flush
  closeStream
  modifyTrail fun t => { t with phase := .stopped }
  report .info .audit "audit_shutdown_complete" []

/-- Closes a trail, unless it is being closed or closed already. -/
def stop : Act Unit := do
  match (← get).trail.phase with
  | .closing | .stopped => return ()
  | .fresh => modifyTrail fun t => { t with phase := .stopped }
  | .opening | .running =>
    enqueue (ownReport .shutdown "Audit trail shutting down")
    modifyTrail fun t => { t with phase := .closing }
    retire

/-- Failures of a report that is wrong in itself. -/
def isMalformed (f : Failure) : Bool := f.isValue || f = .badType || f = .noMember

/-- Tells of a report that was turned away. Without a text for its event and its action that fails. -/
def tellRejected (r : Report) : Act Unit := do
  let event ← require r.event.display
  let action ← require r.action.display
  report .warning .audit "audit_entry_invalid"
    [Value.field "event" (.text event), Value.field "action" (.text action)]

/-- Puts a report into the queue of a running trail; any other takes nothing. A report that makes no entry
is counted, and told of. -/
def accept (r : Report) : Act Unit := do
  if (← get).trail.phase ≠ .running then return ()
  orElse (enqueue r) isMalformed fun _ => do
    modifyTrail fun t => { t with dropped := t.dropped + 1 }
    note .rejected
    tellRejected r

/-- Takes a report. A trail that has never been opened is opened first. -/
def log (r : Report) : Act Unit := do
  let phase := (← get).trail.phase
  if phase = .fresh ∨ phase = .opening then start
  accept r

end Custody.Audit
