import Custody.Data.Value
import Custody.Redaction.Rules

/-! Values made fit for a log: sensitive fields are masked whole, and texts are redacted. Values of any depth are gone
through: no limit to the depth of recursion is modelled. -/
namespace Custody.Redaction

def sensitiveNames : List Text :=
  ["password", "passwd", "passphrase", "secret", "token", "api_key", "apikey", "master_key",
    "private_key", "auth", "authorization"]

/-- A name in small letters, with low lines for hyphens. -/
def normalizeName (name : Text) : Text :=
  name.lower.map fun c : CodePoint => if c = '-' then '_' else c

/-- Whether the name of a field says that its value is secret. -/
def isSensitive (name : Text) : Bool :=
  let key := normalizeName name
  sensitiveNames.contains key || (Text.ofString "_password").isSuffixOf key
    || (Text.ofString "_secret").isSuffixOf key

mutual

/-- Masks what stands under sensitive names and redacts every other text, at any depth. -/
def sanitize : Value → Value
  | .text t => .text (redact t)
  | .list items => .list (sanitizeItems items)
  | .record fields => .record (sanitizeFields fields)
  | v => v

def sanitizeItems : List Value → List Value
  | [] => []
  | v :: rest => sanitize v :: sanitizeItems rest

def sanitizeFields : List (Text × Value) → List (Text × Value)
  | [] => []
  | (k, v) :: rest => (k, if isSensitive k then .text mark else sanitize v) :: sanitizeFields rest

end

end Custody.Redaction
