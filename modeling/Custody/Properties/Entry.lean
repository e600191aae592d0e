import Custody.Failure
import Custody.Properties.LogicalLine

/-! One entry of a properties text: a key and a value, each with its escapes resolved. -/
namespace Custody.Properties

/-- The character that an escaped letter stands for; every other character stands for itself. -/
def escapeMeaning (c : CodePoint) : CodePoint :=
  if c = 't' then '\t' else if c = 'n' then '\n' else if c = 'r' then '\r'
  else if c = 'f' then ⟨0x0C, by omega⟩ else c

def unicodeEscape? (a b c d : CodePoint) : Option CodePoint := do
  let a ← a.hexValue?
  let b ← b.hexValue?
  let c ← c.hexValue?
  let d ← d.hexValue?
  CodePoint.ofNat? (((a * 16 + b) * 16 + c) * 16 + d)

/-- Resolves escapes one at a time. A backslash at the very end is dropped. -/
def unescape : Text → Except Failure Text
  | [] => .ok []
  | c :: rest =>
    if c = '\\' then
      match rest with
      | [] => .ok []
      | e :: rest =>
        if e = 'u' then
          match rest with
          | x :: y :: z :: w :: rest => do
            let some p := unicodeEscape? x y z w | .error .malformedEscape
            return p :: (← unescape rest)
          | _ => .error .malformedEscape
        else do return escapeMeaning e :: (← unescape rest)
    else do return c :: (← unescape rest)

def isSeparator (c : CodePoint) : Bool := c = '=' || c = ':'

/-- The key of a line as it is written, up to the first separator or blank that is not escaped. -/
def splitKey : Text → Text × Text
  | [] => ([], [])
  | c :: rest =>
    if c = '\\' then
      match rest with
      | [] => ([c], [])
      | e :: rest =>
        let (key, after) := splitKey rest
        (c :: e :: key, after)
    else if isSeparator c || isBlank c then ([], c :: rest)
    else
      let (key, after) := splitKey rest
      (c :: key, after)

/-- Drops blanks, at most one separator, and the blanks behind it. -/
def dropSeparator (t : Text) : Text :=
  match t.dropWhile isBlank with
  | [] => []
  | c :: rest => if isSeparator c then rest.dropWhile isBlank else c :: rest

def entry (line : Text) : Except Failure (Text × Text) := do
  let (key, after) := splitKey line
  let k ← unescape key
  let v ← unescape (dropSeparator after)
  return (k, v)

end Custody.Properties
