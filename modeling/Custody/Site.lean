import Custody.Calendar.Moment
import Custody.Data.Value
import Custody.Storage.Disk
import Custody.Vault

/-! The surroundings of the library: the disk, the environment, the clock, random bytes, and the
records that it reports. -/
namespace Custody

inductive Level where
  | info
  | warning
  | error
deriving DecidableEq, Repr, Inhabited

namespace Level

def label : Level → String
  | info => "INFO"
  | warning => "WARNING"
  | error => "ERROR"

/-- The weight of a level; a threshold lets records of its own weight and above pass. -/
def weight : Level → Int
  | info => 20
  | warning => 30
  | error => 40

end Level

/-- The part of the library that reports something. -/
inductive Reporter where
  | audit
  | secrets
  | docker
deriving DecidableEq, Repr, Inhabited

def Reporter.label : Reporter → String
  | audit => "factory.security.audit"
  | secrets => "factory.security.secrets"
  | docker => "factory.security.docker_credentials"

/-- Something worth knowing about a running system. -/
structure Record where
  level : Level
  reporter : Reporter
  message : String
  fields : List (Text × Value)
deriving Inhabited

/-- Names and values. Those of a process must have an encoding; a plain map takes any text. -/
structure Environment where
  ofProcess : Bool
  values : List (Text × Text)
deriving DecidableEq, Repr, Inhabited

namespace Environment

def isEncodable (t : Text) : Bool := t.all fun c => !c.isSurrogate || Disk.isEscapedByte c

def get? (e : Environment) (name : Text) : Except Failure (Option Text) :=
  if e.ofProcess && !isEncodable name then .error .surrogate
  else .ok (e.values.lookup name)

def set (name value : Text) (e : Environment) : Except Failure Environment :=
  let bad (t : Text) : Bool := t.any fun c : CodePoint => c.val = 0
  if e.ofProcess && !(isEncodable name && isEncodable value) then .error .surrogate
  else if e.ofProcess && (bad name || bad value || name.contains ('=' : CodePoint)) then .error .badValue
  else if e.ofProcess && name.isEmpty then .error (.system .other)
  else .ok { e with values := Value.insertField name value e.values }

def unset (name : Text) (e : Environment) : Environment :=
  { e with values := e.values.filter fun (k, _) => k ≠ name }

end Environment

/-- What the machine refuses: the removal of files with certain names, and the next attempts to open a
file, one by one. -/
structure Refusals where
  removals : List (Text × SystemError) := []
  openings : List (Option SystemError) := []
deriving DecidableEq, Repr, Inhabited

/-- A clock: what it shows when it is read next, and at the readings after that. The last one stands. -/
structure Clock where
  now : Moment
  later : List Moment := []
deriving DecidableEq, Repr, Inhabited

namespace Clock

/-- A clock that stands still. -/
instance : Coe Moment Clock := ⟨fun m => { now := m }⟩

def next (c : Clock) : Clock :=
  match c.later with
  | [] => c
  | m :: rest => ⟨m, rest⟩

end Clock

/-- The surroundings. Records and the commands sent to the remote host are kept with the latest first;
`uptime` counts seconds. -/
structure Site where
  disk : Disk
  environment : Environment
  clock : Clock
  uptime : Float
  entropy : Vault.Entropy
  records : List Record
  sent : List Text
  refusals : Refusals

end Custody
