import Custody.Data.Yaml.Scalar
import Custody.Data.Yaml.Token

/-! From a YAML text to its tokens. A simple key is known as one only by the colon behind it, so the place
of a possible key is remembered until then. -/
namespace Custody.Yaml

/-- A place at which a simple key may have begun: the slot of its first token, and whether nothing else
can stand there. -/
structure PossibleKey where
  slot : Nat
  required : Bool
  index : Nat
  line : Nat
  column : Nat
deriving Repr, Inhabited

/-- The state of the lexer. Each slot holds one token and what was put before it later. -/
structure Lexer where
  pos : Cursor
  flow : Nat := 0
  indent : Int := -1
  outer : List Int := []
  keyAllowed : Bool := true
  keys : List (Nat × PossibleKey) := []
  slots : Array (List Token) := #[]

namespace Lexer

def push (t : Token) (l : Lexer) : Lexer := { l with slots := l.slots.push [t] }

def putBefore (slot : Nat) (t : Token) (l : Lexer) : Lexer :=
  { l with slots := l.slots.modify slot (t :: ·) }

def move (c : Cursor) (l : Lexer) : Lexer := { l with pos := c }

/-- Moves over one character that is a token of its own. -/
def single (t : Token) (l : Lexer) : Lexer := (l.move l.pos.next).push t

def allow (b : Bool) (l : Lexer) : Lexer := { l with keyAllowed := b }

/-- Forgets the possible key of the current level, which must not have been required. -/
def dropKey (l : Lexer) : Read Lexer :=
  match l.keys.lookup l.flow with
  | some k => if k.required then malformed else .ok { l with keys := l.keys.filter (·.1 ≠ l.flow) }
  | none => .ok l

def maxKeyLength : Nat := 1024

/-- Forgets the possible keys that are on another line or too long by now. -/
def dropStaleKeys (l : Lexer) : Read Lexer :=
  let stale (k : PossibleKey) : Bool := k.line ≠ l.pos.line || maxKeyLength < l.pos.index - k.index
  if l.keys.any fun (_, k) => stale k && k.required then malformed
  else .ok { l with keys := l.keys.filter fun (_, k) => !stale k }

/-- Remembers that the next token may begin a simple key. -/
def saveKey (l : Lexer) : Read Lexer :=
  if l.keyAllowed then do
    let l ← l.dropKey
    let required := l.flow = 0 && l.indent = l.pos.column
    return { l with keys := (l.flow, ⟨l.slots.size, required, l.pos.index, l.pos.line, l.pos.column⟩) :: l.keys }
  else .ok l

/-- Ends the blocks that are indented more than a column. -/
def unwindTo (column : Int) : List Int → Lexer → Lexer
  | [], l => { l with outer := [] }
  | i :: rest, l =>
    if column < l.indent then unwindTo column rest { l.push .blockEnd with indent := i, outer := rest }
    else { l with outer := i :: rest }

/-- Within brackets indentation does not matter. -/
def unwind (column : Int) (l : Lexer) : Lexer := if l.flow = 0 then unwindTo column l.outer l else l

/-- Whether a column begins a deeper block. -/
def deeper (column : Nat) (l : Lexer) : Bool := l.indent < column

def indentAt (column : Nat) (l : Lexer) : Lexer := { l with outer := l.indent :: l.outer, indent := column }

/-- Spaces, comments and line breaks before the next token. -/
def toToken : (steps : Nat) → Lexer → Lexer
  | 0, l => l
  | n + 1, l =>
    let c := l.pos.skipSpaces
    let c := if c.sees '#' then (c.takeWhile (!isBreak ·)).2 else c
    match c.lineBreak with
    | ([], _) => l.move c
    | (_, c) => toToken n ((l.move c).allow (l.keyAllowed || l.flow = 0))

def number (c : Cursor) : Read (Nat × Cursor) :=
  let (ds, c) := c.takeWhile CodePoint.isDigit
  if ds = [] then malformed else .ok (ds.foldl (fun n d => 10 * n + (d.val - 0x30)) 0, c)

/-- A handle: an exclamation mark, or a name between two of them. -/
def tagHandle (c : Cursor) : Read (Text × Cursor) :=
  if !c.sees '!' then malformed
  else if c.peek 1 = some (' ' : CodePoint) then .ok ("!", c.next)
  else
    let (name, c) := c.next.takeWhile isNameChar
    if c.sees '!' then .ok ("!" ++ name ++ "!", c.next) else malformed

def isUriChar (c : CodePoint) : Bool :=
  isNameChar c || (Text.ofString "-;/?:@&=+$,_.!~*'()[]").contains c

/-- The bytes that are written with percent signs at a place. -/
def percentBytes : Text → Read (Bytes × Nat)
  | p :: a :: b :: rest =>
    if p = '%' then
      match a.hexValue?, b.hexValue? with
      | some x, some y => do
        let (more, n) ← percentBytes rest
        return (UInt8.ofNat (16 * x + y) :: more, n + 3)
      | _, _ => malformed
    else .ok ([], 0)
  | p :: _ => if p = '%' then malformed else .ok ([], 0)
  | [] => .ok ([], 0)

def tagUriParts : (steps : Nat) → Cursor → Read (Text × Cursor)
  | 0, c => .ok ([], c)
  | n + 1, c =>
    let (t, c) := c.takeWhile isUriChar
    if c.sees '%' then do
      let (bytes, k) ← percentBytes c.rest
      match Utf8.decode? bytes with
      | none => malformed
      | some u =>
        let (more, c) ← tagUriParts n (c.skip k)
        return (t ++ u ++ more, c)
    else .ok (t, c)

def tagUri (c : Cursor) : Read (Text × Cursor) := do
  let (t, d) ← tagUriParts (c.rest.length + 1) c
  if d.index = c.index then malformed else return (t, d)

/-- What a directive says, after its name. -/
def directiveBody (name : Text) (c : Cursor) : Read (Directive × Cursor) := do
  if name = "YAML" then
    let (major, c) ← number c.skipSpaces
    if !c.sees '.' then malformed
    else
      let (minor, c) ← number c.next
      if endsName (c.peek 0) then return (.version major minor, c) else malformed
  else if name = "TAG" then
    let (handle, c) ← tagHandle c.skipSpaces
    if !c.sees ' ' then malformed
    else
      let (lead, c) ← tagUri c.skipSpaces
      if endsName (c.peek 0) then return (.tag handle lead, c) else malformed
  else return (.other name, (c.takeWhile (!isBreak ·)).2)

def directive (c : Cursor) : Read (Token × Cursor) := do
  let (name, c) := c.next.takeWhile isNameChar
  if name = [] || !endsName (c.peek 0) then malformed
  else
    let (d, c) ← directiveBody name c
    return (.directive d, ← c.emptyLine)

/-- The name after an asterisk or an ampersand. -/
def reference (c : Cursor) : Read (Text × Cursor) :=
  let (name, c) := c.next.takeWhile isNameChar
  let ends := endsWord (c.peek 0) || (c.peek 0).any fun ch => (Text.ofString "?:,]\x7d%@`").contains ch
  if name = [] || !ends then malformed else .ok (name, c)

/-- A tag: in angle brackets, alone, or with a handle. -/
def tag (c : Cursor) : Read (Token × Cursor) := do
  let (t, c) ←
    if c.peek 1 = some ('<' : CodePoint) then do
      let (u, c) ← tagUri (c.skip 2)
      if c.sees '>' then pure (Token.tag none u, c.next) else malformed
    else if endsWord (c.peek 1) then pure (Token.tag none "!", c.next)
    else
      let word := c.next.rest.takeWhile fun ch => !(endsName (some ch))
      let (handle, c) ← if word.contains ('!' : CodePoint) then tagHandle c else .ok ("!", c.next)
      let (u, c) ← tagUri c
      pure (Token.tag (some handle) u, c)
  if endsName (c.peek 0) then return (t, c) else malformed

/-- A token that may begin a simple key and after which none may begin. -/
def keyed (read : Cursor → Read (Token × Cursor)) (l : Lexer) : Read Lexer := do
  let l ← l.saveKey
  let (t, c) ← read l.pos
  return ((l.allow false).move c).push t

def plainToken (l : Lexer) : Read Lexer := do
  let l ← l.saveKey
  let (t, c, ended) := plain (0 < l.flow) (l.indent + 1) l.pos
  return ((l.allow ended).move c).push (.scalar true t)

def blockToken (folded : Bool) (l : Lexer) : Read Lexer := do
  let l ← (l.allow true).dropKey
  let (t, c) ← block folded l.indent l.pos
  return (l.move c).push (.scalar false t)

def openBracket (t : Token) (l : Lexer) : Read Lexer := do
  let l ← l.saveKey
  return (({ l with flow := l.flow + 1 }).allow true).single t

/-- There has to be an open bracket. -/
def closeBracket (t : Token) (l : Lexer) : Read Lexer := do
  let l ← l.dropKey
  if l.flow = 0 then malformed else return (({ l with flow := l.flow - 1 }).allow false).single t

/-- An entry of a block or a complex key begins a deeper block of its kind, where one may stand. -/
def beginBlock (start : Token) (l : Lexer) : Read Lexer :=
  if 0 < l.flow then .ok l
  else if !l.keyAllowed then malformed
  else if l.deeper l.pos.column then .ok ((l.indentAt l.pos.column).push start)
  else .ok l

def entryToken (l : Lexer) : Read Lexer := do
  let l ← l.beginBlock .blockSequenceStart
  let l ← (l.allow true).dropKey
  return l.single .blockEntry

def keyToken (l : Lexer) : Read Lexer := do
  let l ← l.beginBlock .blockMappingStart
  let l ← (l.allow (l.flow = 0)).dropKey
  return l.single .key

/-- A colon makes a key of the possible key before it, or ends a complex key. -/
def valueToken (l : Lexer) : Read Lexer :=
  match l.keys.lookup l.flow with
  | some k =>
    let l := ({ l with keys := l.keys.filter (·.1 ≠ l.flow) }).putBefore k.slot .key
    let l := if l.flow = 0 && l.deeper k.column then (l.indentAt k.column).putBefore k.slot .blockMappingStart else l
    .ok ((l.allow false).single .value)
  | none => do
    let l ← l.beginBlock .blockMappingStart
    let l ← (l.allow (l.flow = 0)).dropKey
    return l.single .value

/-- A mark or a directive ends all blocks. -/
def outermost (l : Lexer) : Read Lexer := do
  let l ← (l.unwind (-1)).dropKey
  return l.allow false

/-- Whether a plain scalar can begin at a place. -/
def beginsPlain (l : Lexer) (ch : CodePoint) : Bool :=
  let c := l.pos
  !(endsWord (some ch) || (Text.ofString "-?:,[]\x7b\x7d#&*!|>'\"%@`").contains ch)
    || (!endsWord (c.peek 1) && (ch = '-' || (l.flow = 0 && (ch = '?' || ch = ':'))))

def tokenAt (l : Lexer) (ch : CodePoint) : Read Lexer :=
  let c := l.pos
  let alone := endsWord (c.peek 1)
  if c.column = 0 && ch = '%' then do
    let l ← l.outermost
    let (t, c) ← directive l.pos
    return (l.move c).push t
  else if c.column = 0 && c.seesMarker then do
    let l ← l.outermost
    return (l.move (c.skip 3)).push (if ch = '-' then .documentStart else .documentEnd)
  else if ch = '[' then l.openBracket .flowSequenceStart
  else if ch = '\x7b' then l.openBracket .flowMappingStart
  else if ch = ']' then l.closeBracket .flowSequenceEnd
  else if ch = '\x7d' then l.closeBracket .flowMappingEnd
  else if ch = ',' then do return (← (l.allow true).dropKey).single .flowEntry
  else if ch = '-' && alone then l.entryToken
  else if ch = '?' && (0 < l.flow || alone) then l.keyToken
  else if ch = ':' && (0 < l.flow || alone) then l.valueToken
  else if ch = '*' then l.keyed fun c => do
    let (n, c) ← reference c
    return (.alias n, c)
  else if ch = '&' then l.keyed fun c => do
    let (n, c) ← reference c
    return (.anchor n, c)
  else if ch = '!' then l.keyed tag
  else if ch = '|' && l.flow = 0 then l.blockToken false
  else if ch = '>' && l.flow = 0 then l.blockToken true
  else if ch = '\'' || ch = '"' then l.keyed fun c => do
    let (t, c) ← quoted (ch = '"') c
    return (.scalar false t, c)
  else if l.beginsPlain ch then l.plainToken
  else malformed

def run : (steps : Nat) → Lexer → Read Lexer
  | 0, _ => malformed
  | n + 1, l => do
    let l ← (l.toToken (l.pos.rest.length + 1)).dropStaleKeys
    let l := l.unwind l.pos.column
    match l.pos.peek 0 with
    | none => return (← l.outermost).push .streamEnd
    | some ch => run n (← l.tokenAt ch)

end Lexer

/-- The tokens of a text. Each token takes a character at least. -/
def tokens (t : Text) : Read (List Token) := do
  if !t.all isAllowed then malformed
  else
    let c := Cursor.start t
    let c := if c.peek 0 |>.any isByteOrderMark then c.next else c
    let l ← Lexer.run (t.length + 1) { pos := c }
    return l.slots.toList.flatten

end Custody.Yaml
