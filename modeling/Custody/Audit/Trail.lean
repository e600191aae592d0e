import Custody.Audit.Entry
import Custody.Config.Settings
import Custody.Schedule.Task

/-! The state of an audit trail: its phase, the entries that wait, and the file that is being written. -/
namespace Custody.Audit

/-- The phases of a trail, in the order in which it goes through them. -/
inductive Phase where
  | fresh
  | opening
  | running
  | closing
  | stopped
deriving DecidableEq, Repr, Inhabited

def Phase.label : Phase → String
  | fresh => "uninitialized"
  | opening => "initializing"
  | running => "running"
  | closing => "shutting_down"
  | stopped => "stopped"

/-- An open file. Nothing can be written to it once it is closed. -/
structure Stream where
  serial : Nat
  closed : Bool
deriving DecidableEq, Repr, Inhabited

/-- The file that the trail has opened last, and the number of bytes in it. -/
structure LogFile where
  path : Path
  size : Nat
deriving DecidableEq, Repr, Inhabited

/-- What the trail does from time to time. -/
inductive Duty where
  | flush
  | cleanup
deriving DecidableEq, Repr, Inhabited

def Duty.label : Duty → Text
  | flush => "flush"
  | cleanup => "cleanup"

/-- The duties of a running trail. A stuck timer does not stop in time. -/
structure Timer where
  tasks : List (Schedule.Task Float Duty)
  stuck : Bool

/-- What has happened to entries and files. -/
inductive Deed where
  | queued (e : Entry)
  | opened (path : Path) (serial : Nat)
  | wrote (serial : Nat) (line : Text)
  | discarded (e : Entry)
  | rejected

/-- An audit trail. The queue has the oldest entry first, the journal the latest deed. A trail waits for
the end of its timer unless the timer has no life of its own. -/
structure Trail where
  config : Config.AuditSettings
  waits : Bool := true
  phase : Phase := .fresh
  queue : List Entry := []
  stream : Option Stream := none
  current : Option LogFile := none
  timer : Option Timer := none
  dropped : Nat := 0
  journal : List Deed := []

def Trail.currentName (t : Trail) : Option Text := t.current.map (·.path.name)

end Custody.Audit
