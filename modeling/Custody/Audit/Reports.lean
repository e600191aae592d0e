import Custody.Audit.Lifecycle
import Custody.Redaction.Rules

/-! Reports of the common kinds. -/
namespace Custody.Audit

/-- What a report is about, with the text that its details tell it by. -/
structure Subject where
  value : Value
  name : Text
  shown : value.display = .ok name

namespace Subject

def ofText (t : Text) : Subject := ⟨.text t, t, rfl⟩

/-- Any value that has a text can be reported on. -/
def of (v : Value) : Except Failure Subject :=
  match h : v.display with
  | .ok name => .ok ⟨v, name, h⟩
  | .error f => .error f

end Subject

namespace Report

def outcome (success : Value) : Value := named (Outcome.of success.truthy)

def authentication (user success details : Value) : Report where
  event := named Event.authentication
  action := named Action.login
  details := details
  result := outcome success
  user := user

def authorization (user resource allowed details : Value) : Report where
  event := named Event.authorization
  action := named Action.access
  details := details
  result := named (if allowed.truthy then Outcome.success else Outcome.denied)
  user := user
  resource := resource

def configurationChange (user resource details : Value) : Report where
  event := named Event.configuration
  action := named Action.modify
  details := details
  result := named Outcome.success
  user := user
  resource := resource

def privilegedOperation (action details user success : Value) : Report where
  event := named Event.privilegedOperation
  action := action
  details := details
  result := outcome success
  user := user

def encryption (action : Value) (resource : Subject) (success : Value) : Report where
  event := named Event.encryption
  action := action
  details := .text ("Encryption operation on " ++ resource.name)
  result := outcome success
  resource := resource.value

def connection (action : Value) (remote : Subject) (user success : Value) : Report where
  event := named Event.connection
  action := action
  details := .text ("Connection to " ++ remote.name)
  result := outcome success
  user := user
  resource := remote.value

def fileAccess (action : Value) (path : Subject) (user success : Value) : Report where
  event := named Event.fileAccess
  action := action
  details := .text ("File access: " ++ path.name)
  result := outcome success
  user := user
  resource := path.value

/-- A command is recorded without the secrets in it. -/
def commandExecution (command : Text) (user remote success : Value) : Report :=
  let safe := Redaction.redact command
  { event := named Event.commandExecution
    action := named Action.execute
    details := .text ("Command: " ++ safe)
    result := outcome success
    user := user
    resource := remote
    metadata := .record [Value.field "command" (.text safe)] }

end Report

end Custody.Audit
