import Custody.Audit.Vocabulary
import Custody.Calendar.Timestamp
import Custody.Data.Json.Writer

/-! One record of the audit trail and the line that is written for it. -/
namespace Custody.Audit

/-- An immutable audit record. Details, user and resource are written as they come. -/
structure Entry where
  time : Timestamp
  event : Event
  action : Action
  result : Outcome
  details : Value
  user : Value := .null
  resource : Value := .null
  metadata : List (Text × Text) := []
deriving Inhabited

namespace Entry

/-- Metadata as texts. Only a record can be metadata. -/
def metadataOf : Value → Except Failure (List (Text × Text))
  | .record fields => fields.mapM fun (k, v) => return (k, ← v.display)
  | _ => .error .noMember

/-- A field that is left out when it is null. -/
def present (name : Text) : Value → List (Text × Value)
  | .null => []
  | v => [(name, v)]

def fields (e : Entry) : Except Failure (List (Text × Value)) := do
  let m ← e.time.toUtc
  return [Value.field "timestamp" (.text m.isoMillis), Value.field "event" (.text (label e.event)),
      Value.field "action" (.text (label e.action)), Value.field "result" (.text (label e.result)),
      Value.field "details" e.details]
    ++ present "user" e.user ++ present "resource" e.resource
    ++ (if e.metadata = [] then []
      else [Value.field "metadata" (.record (e.metadata.map fun (k, v) => (k, .text v)))])

/-- The entry as one line of JSON, without a line feed. -/
def json (e : Entry) : Except Failure Text := do Json.write (.record (← e.fields))

end Entry

end Custody.Audit
