import Custody.Data.Value
import Custody.Properties.Entry
import Custody.Text.Utf8

/-! Properties texts: entries in order of their first occurrence, each with its last value. -/
namespace Custody

abbrev Properties := List (Text × Text)

namespace Properties

def ofLines (before : Properties) : List Text → Except Failure Properties
  | [] => .ok before
  | line :: rest => do
    let (k, v) ← entry line
    ofLines (Value.insertField k v before) rest

def parse (t : Text) : Except Failure Properties := ofLines [] (logicalLines t)

def normalizeBreaks : Text → Text
  | [] => []
  | c :: rest =>
    if c = '\r' then
      match rest with
      | [] => ['\n']
      | d :: rest' => if d = '\n' then ('\n' : CodePoint) :: normalizeBreaks rest'
        else ('\n' : CodePoint) :: normalizeBreaks (d :: rest')
    else c :: normalizeBreaks rest

/-- The text of a file: strict UTF-8, with line feeds for all line breaks. -/
def decodeFile (b : Bytes) : Except Failure Text :=
  match Utf8.decode? b with
  | some t => .ok (normalizeBreaks t)
  | none => .error .notUtf8

def parseFile (b : Bytes) : Except Failure Properties := do parse (← decodeFile b)

end Properties

end Custody
