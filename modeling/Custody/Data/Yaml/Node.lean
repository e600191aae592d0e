import Custody.Data.Yaml.Implicit
import Custody.Data.Yaml.Lexer

/-! From the tokens of a YAML text to the nodes of its one document. -/
namespace Custody.Yaml

/-- What a node is marked as. -/
inductive Kind where
  | scalar (type : ScalarType)
  | sequence
  | mapping
  | set
  | pairs
  | binary
  | unknown
deriving DecidableEq, Repr, Inhabited

/-- A node of a document. A cycle is a reference of a node to itself. -/
inductive Node where
  | scalar (kind : Kind) (t : Text)
  | sequence (kind : Kind) (items : List Node)
  | mapping (kind : Kind) (entries : List (Node × Node))
  | cycle
deriving Inhabited

def tagSpace : Text := "tag:yaml.org,2002:"

def tagKinds : List (String × Kind) :=
  [("null", .scalar .null), ("bool", .scalar .bool), ("int", .scalar .int), ("float", .scalar .float),
   ("timestamp", .scalar .timestamp), ("str", .scalar .text), ("merge", .scalar .merge),
   ("value", .scalar .default), ("seq", .sequence), ("map", .mapping), ("set", .set), ("omap", .pairs),
   ("pairs", .pairs), ("binary", .binary)]

def kindOfTag (tag : Text) : Kind :=
  match tagKinds.find? fun (name, _) => tagSpace ++ Text.ofString name = tag with
  | some (_, k) => k
  | none => .unknown

/-- The state of the reader: the tokens left, the nodes that have names, and the handles of tags. An open
node has a name but no content yet. -/
structure Reader where
  tokens : List Token
  names : List (Text × Option Node) := []
  handles : List (Text × Text) := []

abbrev ReaderM := StateT Reader Read

namespace Reader

def standardHandles : List (Text × Text) := [("!", "!"), ("!!", tagSpace)]

def fail {α : Type} : ReaderM α := fun _ => malformed

def peek : ReaderM Token := do return (← get).tokens.headD .streamEnd

def next : ReaderM Unit := modify fun r => { r with tokens := r.tokens.tail }

/-- Takes the next token if it is a given one. -/
def accept (t : Token) : ReaderM Bool := do
  if (← peek) = t then
    next
    return true
  return false

def expect (t : Token) : ReaderM Unit := do
  if !(← accept t) then fail

def sees (ts : List Token) : ReaderM Bool := do return ts.contains (← peek)

def nothing : Node := .scalar (.scalar .null) []

/-- The anchor and the tag before a node, in either order. -/
def properties : ReaderM (Option Text × Option (Option Text × Text)) := do
  match ← peek with
  | .anchor a =>
    next
    match ← peek with
    | .tag h s =>
      next
      return (some a, some (h, s))
    | _ => return (some a, none)
  | .tag h s =>
    next
    match ← peek with
    | .anchor a =>
      next
      return (some a, some (h, s))
    | _ => return (none, some (h, s))
  | _ => return (none, none)

/-- The text of a tag with its handle replaced. -/
def tagText : Option (Option Text × Text) → ReaderM (Option Text)
  | none => return none
  | some (none, suffix) => return some suffix
  | some (some handle, suffix) => do
    match (← get).handles.lookup handle with
    | some lead => return some (lead ++ suffix)
    | none => fail

/-- The kind of a scalar: by its tag, by its form, or text if it is quoted. -/
def scalarKind (tag : Option Text) (plain : Bool) (t : Text) : Kind :=
  match tag with
  | none => .scalar (if plain then typeOf t else .text)
  | some tag => if tag = "!" then .scalar (typeOf t) else kindOfTag tag

/-- The kind of a collection: by its tag, or the usual one. -/
def collectionKind (tag : Option Text) (usual : Kind) : Kind :=
  match tag with
  | none => usual
  | some tag => if tag = "!" then usual else kindOfTag tag

mutual

/-- A node, in a block or within brackets. A sequence that is a value of a block may stand at the
indentation of its key. -/
def node (block indentless : Bool) : (steps : Nat) → ReaderM Node
  | 0 => fail
  | n + 1 => do
    match ← peek with
    | .alias a =>
      next
      match (← get).names.lookup a with
      | some (some v) => return v
      | some none => return .cycle
      | none => fail
    | _ =>
      let (anchor, tag) ← properties
      let tag ← tagText tag
      match anchor with
      | none => content block indentless tag false n
      | some a =>
        if ((← get).names.lookup a).isSome then fail
        modify fun r => { r with names := (a, none) :: r.names }
        let v ← content block indentless tag true n
        modify fun r => { r with names := (a, some v) :: r.names }
        return v

def content (block indentless : Bool) (tag : Option Text) (anchored : Bool) : (steps : Nat) → ReaderM Node
  | 0 => fail
  | n + 1 => do
    match ← peek with
    | .blockEntry =>
      if indentless then return .sequence (collectionKind tag .sequence) (← blockItems true n)
      else missing
    | .scalar plain t =>
      next
      return .scalar (scalarKind tag plain t) t
    | .flowSequenceStart =>
      next
      return .sequence (collectionKind tag .sequence) (← flowItems true n)
    | .flowMappingStart =>
      next
      return .mapping (collectionKind tag .mapping) (← flowEntries true n)
    | .blockSequenceStart =>
      if block then
        next
        return .sequence (collectionKind tag .sequence) (← blockItems false n)
      else missing
    | .blockMappingStart =>
      if block then
        next
        return .mapping (collectionKind tag .mapping) (← blockEntries n)
      else missing
    | _ => missing
where
  /-- Where there is no content, an anchor or a tag alone stands for an empty scalar. -/
  missing : ReaderM Node :=
    if anchored || tag.isSome then return .scalar (scalarKind tag true []) [] else fail

def blockItems (indentless : Bool) : (steps : Nat) → ReaderM (List Node)
  | 0 => fail
  | n + 1 => do
    if ← accept .blockEntry then
      let ends := if indentless then [.blockEntry, .key, .value, .blockEnd] else [Token.blockEntry, .blockEnd]
      let v ← if ← sees ends then pure nothing else node true false n
      return v :: (← blockItems indentless n)
    else
      if !indentless then expect .blockEnd
      return []

def blockPart : (steps : Nat) → ReaderM Node
  | 0 => fail
  | n + 1 => do
    if ← sees [.key, .value, .blockEnd] then return nothing else node true true n

def blockEntries : (steps : Nat) → ReaderM (List (Node × Node))
  | 0 => fail
  | n + 1 => do
    if ← sees [.key, .value] then
      let k ← if ← accept .key then blockPart n else fail
      let v ← if ← accept .value then blockPart n else pure nothing
      return (k, v) :: (← blockEntries n)
    else
      expect .blockEnd
      return []

/-- A value within brackets, if there is one. -/
def flowValue (close : Token) : (steps : Nat) → ReaderM Node
  | 0 => fail
  | n + 1 => do
    if ← accept .value then
      if ← sees [.flowEntry, close] then return nothing else node false false n
    else return nothing

/-- The key after its mark within brackets, and its value. -/
def flowPair (close : Token) : (steps : Nat) → ReaderM (Node × Node)
  | 0 => fail
  | n + 1 => do
    let k ← if ← sees [.value, .flowEntry, close] then pure nothing else node false false n
    return (k, ← flowValue close n)

/-- The items of a sequence in brackets. A key makes a mapping of one entry. -/
def flowItems (first : Bool) : (steps : Nat) → ReaderM (List Node)
  | 0 => fail
  | n + 1 => do
    if ← accept .flowSequenceEnd then return []
    else
      if !first then expect .flowEntry
      if ← accept .key then
        let e ← flowPair .flowSequenceEnd n
        return .mapping .mapping [e] :: (← flowItems false n)
      else if ← accept .flowSequenceEnd then return []
      else
        let v ← node false false n
        return v :: (← flowItems false n)

/-- The entries of a mapping in braces. A key alone has no value. -/
def flowEntries (first : Bool) : (steps : Nat) → ReaderM (List (Node × Node))
  | 0 => fail
  | n + 1 => do
    if ← accept .flowMappingEnd then return []
    else
      if !first then expect .flowEntry
      if ← accept .key then
        let e ← flowPair .flowMappingEnd n
        return e :: (← flowEntries false n)
      else if ← accept .flowMappingEnd then return []
      else
        let k ← node false false n
        return (k, nothing) :: (← flowEntries false n)

end

/-- The directives before a document. There may be one version, of the first generation, and one lead
text for each handle. -/
def directives : (steps : Nat) → (versioned : Bool) → ReaderM Unit
  | 0, _ => fail
  | n + 1, versioned => do
    match ← peek with
    | .directive d =>
      next
      match d with
      | .version major _ =>
        if versioned || major ≠ 1 then fail
        directives n true
      | .tag handle lead =>
        if ((← get).handles.lookup handle).isSome then fail
        modify fun r => { r with handles := (handle, lead) :: r.handles }
        directives n versioned
      | .other _ => directives n versioned
    | _ => modify fun r => { r with handles := r.handles ++ standardHandles }

def skipEnds : (steps : Nat) → ReaderM Unit
  | 0 => return ()
  | n + 1 => do
    if ← accept .documentEnd then skipEnds n

/-- The document of a text, if it has one. There may be no second. -/
def document (steps : Nat) : ReaderM (Option Node) := do
  match ← peek with
  | .streamEnd => return none
  | .directive _ | .documentStart =>
    directives steps false
    expect .documentStart
    match ← peek with
    | .directive _ | .documentStart | .documentEnd | .streamEnd => finish nothing
    | _ => finish (← node true false steps)
  | _ =>
    modify fun r => { r with handles := standardHandles }
    finish (← node true false steps)
where
  finish (v : Node) : ReaderM (Option Node) := do
    skipEnds steps
    expect .streamEnd
    return some v

end Reader

/-- The document of a text. Each level of nodes takes few steps for a token. -/
def node? (t : Text) : Read (Option Node) := do
  let ts ← tokens t
  let (n, _) ← (Reader.document (4 * ts.length + 8)).run { tokens := ts }
  return n

end Custody.Yaml
