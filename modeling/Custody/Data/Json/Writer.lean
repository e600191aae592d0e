import Custody.Data.Value

/-! JSON on one line, in printable ASCII. Values of any depth are written: no limit to the depth of recursion is
modelled. -/
namespace Custody.Json

def escapeUnits (n : Nat) : Text :=
  if n < 0x10000 then "\\u" ++ Text.hex 4 n
  else "\\u" ++ Text.hex 4 (0xD800 + (n - 0x10000) / 0x400)
    ++ "\\u" ++ Text.hex 4 (0xDC00 + (n - 0x10000) % 0x400)

/-- Quotes, backslashes and the common controls have short escapes; printable ASCII stands as it is. -/
def escape (c : CodePoint) : Text :=
  match c.val with
  | 0x22 => "\\\""
  | 0x5C => "\\\\"
  | 0x08 => "\\b"
  | 0x09 => "\\t"
  | 0x0A => "\\n"
  | 0x0C => "\\f"
  | 0x0D => "\\r"
  | n => if 0x20 ≤ n ∧ n < 0x7F then [c] else escapeUnits n

def quote (t : Text) : Text := "\"" ++ t.flatMap escape ++ "\""

def number (x : Float) : Text :=
  if x.isNaN then "NaN"
  else if x.isInf then (if x < 0.0 then "-Infinity" else "Infinity")
  else Shortest.render x

mutual

/-- The JSON text of a value. A foreign value has none, nor has an integer of too many digits. -/
def write : Value → Except Failure Text
  | .null => .ok "null"
  | .bool b => .ok (if b then "true" else "false")
  | .int i => Value.intText i
  | .float x => .ok (number x)
  | .text t => .ok (quote t)
  | .list items => do
    let body ← writeItems items
    return "[" ++ body ++ "]"
  | .record fields => do
    let body ← writeFields fields
    return "\x7b" ++ body ++ "\x7d"
  | .foreign => .error .badType

def writeItems : List Value → Except Failure Text
  | [] => .ok []
  | [v] => write v
  | v :: w :: rest => do
    let first ← write v
    let others ← writeItems (w :: rest)
    return first ++ "," ++ others

def writeFields : List (Text × Value) → Except Failure Text
  | [] => .ok []
  | [(k, v)] => do
    let first ← write v
    return quote k ++ ":" ++ first
  | (k, v) :: f :: rest => do
    let first ← write v
    let others ← writeFields (f :: rest)
    return quote k ++ ":" ++ first ++ "," ++ others

end

end Custody.Json
