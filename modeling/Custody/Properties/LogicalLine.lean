import Custody.Text.CodePoint

/-! Lines of a properties text: natural lines end at a line break, and a logical line joins those that
a closing backslash continues. -/
namespace Custody.Properties

def isBlank (c : CodePoint) : Bool := c = ' ' || c = '\t' || c.val = 0x0C

/-- The pieces between line breaks: line feed, carriage return, or both in that order. -/
def naturalLines : Text → List Text
  | [] => [[]]
  | c :: rest =>
    if c = '\n' then [] :: naturalLines rest
    else if c = '\r' then
      match rest with
      | [] => [[], []]
      | d :: rest' => if d = '\n' then [] :: naturalLines rest' else [] :: naturalLines (d :: rest')
    else match naturalLines rest with
      | [] => [[c]]
      | line :: lines => (c :: line) :: lines

def trailingBackslashes (line : Text) : Nat := (line.reverse.takeWhile fun c => c = ('\\' : CodePoint)).length

/-- A line goes on if an odd number of backslashes ends it: the last one escapes the line break. -/
def continues (line : Text) : Bool := trailingBackslashes line % 2 = 1

/-- Blank lines and lines that start with a hash or an exclamation mark say nothing. -/
def isSilent (line : Text) : Bool :=
  match line with
  | [] => true
  | c :: _ => c = '#' || c = '!'

/-- Joins natural lines; `pending` is what the lines before have left open. A continued line is never
silent, and what the last line leaves open is a line of its own. -/
def joinLines : (pending : Option Text) → List Text → List Text
  | none, [] => []
  | some p, [] => [p]
  | pending, natural :: rest =>
    let line := natural.dropWhile isBlank
    if pending.isNone && isSilent line then joinLines none rest
    else if continues line then joinLines (some (pending.getD [] ++ line.dropLast)) rest
    else (pending.getD [] ++ line) :: joinLines none rest

def logicalLines (t : Text) : List Text := joinLines none (naturalLines t)

end Custody.Properties
