import Custody.Failure
import Custody.Numeric.Shortest

/-! Dynamic values, as they come from documents and from callers that log what they have. Values of any depth are
shown: no limit to the depth of recursion is modelled. -/
namespace Custody

/-- A value of a document. `foreign` is one that no document can hold. -/
inductive Value where
  | null
  | bool (b : Bool)
  | int (i : Int)
  | float (x : Float)
  | text (t : Text)
  | list (items : List Value)
  | record (fields : List (Text × Value))
  | foreign
deriving Inhabited

namespace Value

/-- Whether a value counts as true: not null, false, zero or empty. -/
def truthy : Value → Bool
  | null => false
  | bool b => b
  | int i => i ≠ 0
  | float x => !(x == 0.0)
  | text t => t ≠ []
  | list items => !items.isEmpty
  | record fields => !fields.isEmpty
  | foreign => true

/-- A double by the names of what is not finite, or by its shortest decimal. -/
def floatText (x : Float) : Text :=
  if x.isNaN then "nan"
  else if x.isInf then (if x < 0.0 then "-inf" else "inf")
  else Shortest.render x

/-- An integer of too many digits has no text. -/
def intText (i : Int) : Except Failure Text :=
  if Text.maxIntegerDigits < (Text.ofNat i.natAbs).length then .error .badValue else .ok (Text.ofInt i)

mutual

/-- A value as it is shown within another. -/
def inner : Value → Except Failure Text
  | null => .ok "None"
  | bool b => .ok (if b then "True" else "False")
  | int i => intText i
  | float x => .ok (floatText x)
  | text t => .ok t.quoted
  | list items => do
    let body ← innerItems items
    return "[" ++ body ++ "]"
  | record fields => do
    let body ← innerFields fields
    return "\x7b" ++ body ++ "\x7d"
  | foreign => .ok "<object>"

def innerItems : List Value → Except Failure Text
  | [] => .ok []
  | [v] => inner v
  | v :: w :: rest => do
    let first ← inner v
    let others ← innerItems (w :: rest)
    return first ++ ", " ++ others

def innerFields : List (Text × Value) → Except Failure Text
  | [] => .ok []
  | [(k, v)] => do
    let first ← inner v
    return k.quoted ++ ": " ++ first
  | (k, v) :: f :: rest => do
    let first ← inner v
    let others ← innerFields (f :: rest)
    return k.quoted ++ ": " ++ first ++ ", " ++ others

end

/-- A value on its own: text as it is, everything else as within another value. -/
def display : Value → Except Failure Text
  | text t => .ok t
  | v => inner v

def field (name : String) (v : Value) : Text × Value := (name, v)

def get? (name : Text) : Value → Option Value
  | record fields => fields.lookup name
  | _ => none

/-- Sets a field: a new one comes last, an old one keeps its place. -/
def insertField {α : Type} (name : Text) (v : α) : List (Text × α) → List (Text × α)
  | [] => [(name, v)]
  | (k, w) :: rest => if k = name then (k, v) :: rest else (k, w) :: insertField name v rest

/-- Fields set in order, so that a repeated name keeps its first place and its last value. -/
def recordOf {α : Type} (fields : List (Text × α)) : List (Text × α) :=
  fields.foldl (fun l f => insertField f.1 f.2 l) []

end Value

end Custody
