import Custody.Data.Yaml.Cursor
import Custody.Text.Utf8

/-! The written forms of YAML scalars: quoted, plain, and as blocks of lines. -/
namespace Custody.Yaml

/-- The characters that a single letter stands for after a backslash. -/
def escapes : List (Char × Nat) :=
  [('0', 0x00), ('a', 0x07), ('b', 0x08), ('t', 0x09), ('\t', 0x09), ('n', 0x0A), ('v', 0x0B), ('f', 0x0C),
   ('r', 0x0D), ('e', 0x1B), (' ', 0x20), ('"', 0x22), ('\\', 0x5C), ('/', 0x2F), ('N', 0x85), ('_', 0xA0),
   ('L', 0x2028), ('P', 0x2029)]

/-- How many hexadecimal digits follow a letter after a backslash. -/
def hexEscapes : List (Char × Nat) := [('x', 2), ('u', 4), ('U', 8)]

def hexNumber? (t : Text) : Option Nat := t.foldlM (fun n c => (c.hexValue?).map (16 * n + ·)) 0

/-- Breaks and blanks between the lines of a quoted scalar. No marker may stand there. -/
def quotedBreaks : (steps : Nat) → Cursor → Read (Text × Cursor)
  | 0, c => .ok ([], c)
  | n + 1, c =>
    if c.seesMarker then malformed
    else
      let c := (c.takeWhile isSpaceOrTab).2
      match c.lineBreak with
      | ([], _) => .ok ([], c)
      | (b, c) => do
        let (t, c) ← quotedBreaks n c
        return (b ++ t, c)

/-- A break and more breaks as they are read: a lone line feed becomes a space. -/
def fold (first more : Text) : Text :=
  if first = "\n" then (if more = [] then " " else more) else first ++ more

/-- What a backslash and the characters after it stand for. -/
def escaped (c : Cursor) : Read (Text × Cursor) :=
  match c.peek 0 with
  | none => malformed
  | some ch =>
    match escapes.find? (fun e => CodePoint.ofChar e.1 = ch), hexEscapes.find? (fun e => CodePoint.ofChar e.1 = ch) with
    | some (_, n), _ => .ok ((CodePoint.ofNat? n).toList, c.next)
    | none, some (_, count) =>
      let digits := c.next.rest.take count
      match hexNumber? digits with
      | none => malformed
      | some n =>
        if digits.length < count then malformed
        else match CodePoint.ofNat? n with
          | some p => .ok ([p], c.skip (count + 1))
          | none => .error (if n < 0x80000000 then .badValue else .overflow)
    | none, none =>
      if isBreak ch then quotedBreaks (c.rest.length + 1) c.lineBreak.2 else malformed

/-- The characters of a quoted scalar up to a blank, a break or the closing quote. -/
def quotedRun (double : Bool) : (steps : Nat) → Cursor → Read (Text × Cursor)
  | 0, c => .ok ([], c)
  | n + 1, c =>
    match c.peek 0 with
    | none => .ok ([], c)
    | some ch =>
      let go (t : Text) (c : Cursor) : Read (Text × Cursor) := do
        let (more, c) ← quotedRun double n c
        return (t ++ more, c)
      if isSpaceOrTab ch || isBreak ch then .ok ([], c)
      else if ch = '\'' && !double then
        if c.peek 1 = some ('\'' : CodePoint) then go "'" (c.skip 2) else .ok ([], c)
      else if ch = '"' && double then .ok ([], c)
      else if ch = '\\' && double then do
        let (t, c) ← escaped c.next
        go t c
      else go [ch] c.next

/-- The blanks and breaks within a quoted scalar. -/
def quotedSpaces (c : Cursor) : Read (Text × Cursor) :=
  let (blanks, c) := c.takeWhile isSpaceOrTab
  match c.peek 0 with
  | none => malformed
  | some ch =>
    if isBreak ch then do
      let (b, c) := c.lineBreak
      let (more, c) ← quotedBreaks (c.rest.length + 1) c
      return (fold b more, c)
    else .ok (blanks, c)

/-- A quoted scalar after its opening quote. -/
def quotedBody (double : Bool) : (steps : Nat) → Cursor → Read (Text × Cursor)
  | 0, _ => malformed
  | n + 1, c => do
    let (t, c) ← quotedRun double (c.rest.length + 1) c
    if c.sees (if double then '"' else '\'') then return (t, c.next)
    else
      let (blanks, c) ← quotedSpaces c
      let (more, c) ← quotedBody double n c
      return (t ++ blanks ++ more, c)

def quoted (double : Bool) (c : Cursor) : Read (Text × Cursor) := quotedBody double (c.rest.length + 1) c.next

/-- Characters that separate entries within brackets. -/
def isFlowMark (c : CodePoint) : Bool := c = ',' || c = '[' || c = ']' || c = '\x7b' || c = '\x7d'

/-- The characters of a plain scalar up to a blank, a break or something that ends it. -/
def plainRun (flow : Bool) : Text → Text
  | [] => []
  | ch :: rest =>
    if isSpaceOrTab ch || isBreak ch then []
    else if ch = ':' && (endsWord rest.head? || (flow && rest.head?.any isFlowMark)) then []
    else if flow && (isFlowMark ch || ch = '?') then []
    else ch :: plainRun flow rest

/-- Breaks and spaces between the lines of a plain scalar, unless a marker ends it. -/
def plainBreaks : (steps : Nat) → Cursor → Option Text × Cursor
  | 0, c => (some [], c)
  | n + 1, c =>
    if c.sees ' ' then plainBreaks n c.next
    else match c.lineBreak with
      | ([], _) => (some [], c)
      | (b, c) =>
        if c.seesMarker then (none, c)
        else
          let (t, c) := plainBreaks n c
          (t.map (b ++ ·), c)

/-- The spaces and breaks within a plain scalar, and whether there was a break. -/
def plainSpaces (c : Cursor) : Text × Cursor × Bool :=
  let (spaces, c) := c.takeWhile fun ch : CodePoint => ch = ' '
  match c.lineBreak with
  | ([], _) => (spaces, c, false)
  | (b, c) =>
    if c.seesMarker then ([], c, true)
    else
      let (more, c) := plainBreaks (c.rest.length + 1) c
      ((more.map (fold b)).getD [], c, true)

/-- A plain scalar in brackets or with an indentation, and whether its last line was ended. -/
def plainBody (flow : Bool) (indent : Int) : (steps : Nat) → (spaces : Text) → Cursor → Text × Cursor × Bool
  | 0, _, c => ([], c, false)
  | n + 1, spaces, c =>
    let run := plainRun flow c.rest
    let (after, c, ended) := plainSpaces (c.skip run.length)
    if after = [] || c.sees '#' || (!flow && (c.column : Int) < indent) || plainRun flow c.rest = [] then
      (spaces ++ run, c, ended)
    else
      let (more, c, ended) := plainBody flow indent n after c
      (spaces ++ run ++ more, c, ended)

def plain (flow : Bool) (indent : Int) (c : Cursor) : Text × Cursor × Bool :=
  plainBody flow indent (c.rest.length + 1) [] c

/-- What becomes of the breaks at the end of a block scalar. -/
inductive Chomping where
  | strip
  | clip
  | keep
deriving DecidableEq, Repr, Inhabited

/-- The signs after the mark of a block scalar, in either order: how it ends and how far it is indented. -/
def blockHeader (c : Cursor) : Read (Chomping × Option Nat × Cursor) :=
  let chomping? (c : Cursor) : Option (Chomping × Cursor) :=
    if c.sees '+' then some (.keep, c.next) else if c.sees '-' then some (.strip, c.next) else none
  let digit? (c : Cursor) : Option (Nat × Cursor) :=
    match c.peek 0 with
    | some ch => if ch.isDigit then some (ch.val - 0x30, c.next) else none
    | none => none
  let (chomping, increment, c) : Chomping × Option Nat × Cursor :=
    match chomping? c with
    | some (k, c) => (match digit? c with
      | some (n, c) => (k, some n, c)
      | none => (k, none, c))
    | none => match digit? c with
      | some (n, c) => (match chomping? c with
        | some (k, c) => (k, some n, c)
        | none => (.clip, some n, c))
      | none => (.clip, none, c)
  if increment = some 0 || !endsName (c.peek 0) then malformed else .ok (chomping, increment, c)

/-- The empty lines before a block scalar, and the deepest indentation among them and the line that
follows. -/
def blockIndentation : (steps : Nat) → (deepest : Nat) → Cursor → Text × Nat × Cursor
  | 0, deepest, c => ([], deepest, c)
  | n + 1, deepest, c =>
    if c.sees ' ' then blockIndentation n (max deepest c.next.column) c.next
    else match c.lineBreak with
      | ([], _) => ([], deepest, c)
      | (b, c) =>
        let (t, deepest, c) := blockIndentation n deepest c
        (b ++ t, deepest, c)

def indentTo (indent : Nat) : (steps : Nat) → Cursor → Cursor
  | 0, c => c
  | n + 1, c => if c.column < indent && c.sees ' ' then indentTo indent n c.next else c

/-- The empty lines before the next line of a block scalar. -/
def blockBreaks (indent : Nat) : (steps : Nat) → Cursor → Text × Cursor
  | 0, c => ([], c)
  | n + 1, c =>
    let c := indentTo indent indent c
    match c.lineBreak with
    | ([], _) => ([], c)
    | (b, c) =>
      let (t, c) := blockBreaks indent n c
      (b ++ t, c)

def blockLines (folded : Bool) (indent : Nat) : (steps : Nat) → (breaks : Text) → Cursor → Text × Text × Text × Cursor
  | 0, breaks, c => ([], [], breaks, c)
  | n + 1, breaks, c =>
    let indented := c.peek 0 |>.any isSpaceOrTab
    let (line, c) := c.takeWhile (!isBreak ·)
    let (b, c) := c.lineBreak
    let (more, c) := blockBreaks indent (c.rest.length + 1) c
    if c.column = indent && c.rest ≠ [] then
      let joint : Text :=
        if folded && b = "\n" && !indented && !(c.peek 0 |>.any isSpaceOrTab) then (if more = [] then " " else [] : Text)
        else b
      let (rest, b, last, c) := blockLines folded indent n more c
      (breaks ++ line ++ joint ++ rest, b, last, c)
    else (breaks ++ line, b, more, c)

/-- A block scalar within a block of some indentation. -/
def block (folded : Bool) (outer : Int) (c : Cursor) : Read (Text × Cursor) := do
  let (chomping, increment, c) ← blockHeader c.next
  let c ← c.emptyLine
  let least := max 1 (outer + 1).toNat
  let steps := c.rest.length + 1
  let (breaks, indent, c) : Text × Nat × Cursor := match increment with
    | none =>
      let (b, deepest, c) := blockIndentation steps 0 c
      (b, max least deepest, c)
    | some n =>
      let indent := least + n - 1
      let (b, c) := blockBreaks indent steps c
      (b, indent, c)
  let (t, b, last, c) : Text × Text × Text × Cursor :=
    if c.column = indent && c.rest ≠ [] then blockLines folded indent steps breaks c else ([], [], breaks, c)
  return (t ++ (if chomping = .strip then [] else b) ++ (if chomping = .keep then last else []), c)

end Custody.Yaml
