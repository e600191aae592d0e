import Custody.Failure

/-! A place in a YAML text: what is left of it, and the line and column reached. -/
namespace Custody.Yaml

/-- Reading fails on malformed text. -/
abbrev Read := Except Failure

def malformed {α : Type} : Read α := .error .document

def isBreak (c : CodePoint) : Bool :=
  c.val = 0xA || c.val = 0xD || c.val = 0x85 || c.val = 0x2028 || c.val = 0x2029

def isSpaceOrTab (c : CodePoint) : Bool := c = ' ' || c = '\t'

def isByteOrderMark (c : CodePoint) : Bool := c.val = 0xFEFF

/-- The letters, digits and hyphens of which names are made. -/
def isNameChar (c : CodePoint) : Bool := c.isAsciiAlnum || c = '-' || c = '_'

def endsLine (c : Option CodePoint) : Bool := c.all isBreak

/-- The end of the text or of a line, or a space. -/
def endsName (c : Option CodePoint) : Bool := c.all fun c => isBreak c || c = ' '

/-- The end of the text or of a line, a space or a tab. -/
def endsWord (c : Option CodePoint) : Bool := c.all fun c => isBreak c || isSpaceOrTab c

def isAllowed (c : CodePoint) : Bool :=
  c.val = 0x9 || c.val = 0xA || c.val = 0xD || (0x20 ≤ c.val && c.val ≤ 0x7E) || c.val = 0x85
    || (0xA0 ≤ c.val && c.val ≤ 0xD7FF) || (0xE000 ≤ c.val && c.val ≤ 0xFFFD) || 0x10000 ≤ c.val

structure Cursor where
  rest : Text
  index : Nat
  line : Nat
  column : Nat
deriving Repr, Inhabited

namespace Cursor

def start (t : Text) : Cursor := ⟨t, 0, 0, 0⟩

def peek (c : Cursor) (n : Nat) : Option CodePoint := c.rest[n]?

def sees (c : Cursor) (ch : Char) : Bool := c.peek 0 = some (ch : CodePoint)

/-- One character on. A byte order mark takes no column. -/
def next (c : Cursor) : Cursor :=
  match c.rest with
  | [] => c
  | ch :: rest =>
    if isBreak ch && !(ch = '\r' && rest.head? = some ('\n' : CodePoint)) then
      ⟨rest, c.index + 1, c.line + 1, 0⟩
    else ⟨rest, c.index + 1, c.line, c.column + if isByteOrderMark ch then 0 else 1⟩

def skip (c : Cursor) : (n : Nat) → Cursor
  | 0 => c
  | n + 1 => c.next.skip n

def takeWhile (p : CodePoint → Bool) (c : Cursor) : Text × Cursor :=
  let t := c.rest.takeWhile p
  (t, c.skip t.length)

def skipSpaces (c : Cursor) : Cursor := (c.takeWhile fun ch : CodePoint => ch = ' ').2

/-- The line break at a place, written as a line feed unless it is a separator of lines or paragraphs. -/
def lineBreak (c : Cursor) : Text × Cursor :=
  match c.peek 0 with
  | none => ([], c)
  | some ch =>
    if ch = '\r' && c.peek 1 = some ('\n' : CodePoint) then ("\n", c.skip 2)
    else if ch.val = 0x2028 || ch.val = 0x2029 then ([ch], c.next)
    else if isBreak ch then ("\n", c.next)
    else ([], c)

/-- Three hyphens or three dots that stand alone. -/
def seesMarker (c : Cursor) : Bool :=
  (c.rest.take 3 = Text.ofString "---" || c.rest.take 3 = Text.ofString "...") && endsWord (c.peek 3)

/-- The rest of a line that may hold nothing but a comment. -/
def emptyLine (c : Cursor) : Read Cursor :=
  let c := c.skipSpaces
  let c := if c.sees '#' then (c.takeWhile (!isBreak ·)).2 else c
  if endsLine (c.peek 0) then .ok c.lineBreak.2 else malformed

end Cursor

end Custody.Yaml
