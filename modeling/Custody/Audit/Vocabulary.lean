import Custody.Data.Value
import Custody.Text.Case

/-! The words of an audit entry: what happened, what was done, and how it ended. -/
namespace Custody.Audit

inductive Event where
  | authentication
  | authorization
  | configuration
  | privilegedOperation
  | encryption
  | connection
  | fileAccess
  | commandExecution
  | system
deriving DecidableEq, Repr, Inhabited

inductive Action where
  | login
  | logout
  | access
  | create
  | read
  | modify
  | delete
  | execute
  | encrypt
  | decrypt
  | connect
  | disconnect
  | reboot
  | start
  | stop
  | setUp
  | shutdown
deriving DecidableEq, Repr, Inhabited

inductive Outcome where
  | success
  | failure
  | denied
  | error
deriving DecidableEq, Repr, Inhabited

/-- A finite list of words, each with its name. -/
class Vocabulary (α : Type) where
  all : List α
  label : α → String

export Vocabulary (label)

instance : Vocabulary Event where
  all := [.authentication, .authorization, .configuration, .privilegedOperation, .encryption, .connection,
    .fileAccess, .commandExecution, .system]
  label
    | .authentication => "AUTHENTICATION"
    | .authorization => "AUTHORIZATION"
    | .configuration => "CONFIGURATION"
    | .privilegedOperation => "PRIVILEGED_OPERATION"
    | .encryption => "ENCRYPTION"
    | .connection => "CONNECTION"
    | .fileAccess => "FILE_ACCESS"
    | .commandExecution => "COMMAND_EXECUTION"
    | .system => "SYSTEM"

instance : Vocabulary Action where
  all := [.login, .logout, .access, .create, .read, .modify, .delete, .execute, .encrypt, .decrypt, .connect,
    .disconnect, .reboot, .start, .stop, .setUp, .shutdown]
  label
    | .login => "LOGIN"
    | .logout => "LOGOUT"
    | .access => "ACCESS"
    | .create => "CREATE"
    | .read => "READ"
    | .modify => "MODIFY"
    | .delete => "DELETE"
    | .execute => "EXECUTE"
    | .encrypt => "ENCRYPT"
    | .decrypt => "DECRYPT"
    | .connect => "CONNECT"
    | .disconnect => "DISCONNECT"
    | .reboot => "REBOOT"
    | .start => "START"
    | .stop => "STOP"
    | .setUp => "INITIALIZE"
    | .shutdown => "SHUTDOWN"

instance : Vocabulary Outcome where
  all := [.success, .failure, .denied, .error]
  label
    | .success => "SUCCESS"
    | .failure => "FAILURE"
    | .denied => "DENIED"
    | .error => "ERROR"

def word? {α : Type} [Vocabulary α] (name : Text) : Option α :=
  (Vocabulary.all (α := α)).find? fun w => Text.ofString (label w) = name

def Outcome.of (success : Bool) : Outcome := if success then .success else .failure

end Custody.Audit
