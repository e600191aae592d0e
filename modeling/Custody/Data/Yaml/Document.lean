import Custody.Data.Yaml.Node

/-! From the nodes of a YAML document to its values. -/
namespace Custody.Yaml

/-- A value of a document. The keys of a mapping may be of any kind. -/
inductive Tree where
  | leaf (v : Value)
  | list (items : List Tree)
  | map (entries : List (Tree × Tree))
deriving Inhabited

def Tree.isKey : Tree → Bool
  | .leaf _ => true
  | .list _ | .map _ => false

mutual

def Node.tree : Node → Read Tree
  | .scalar (.scalar type) t => do return .leaf (← scalarValue type t)
  | .scalar .binary _ => .ok (.leaf .foreign)
  | .scalar _ _ => malformed
  | .sequence .sequence items => do return .list (← trees items)
  | .sequence .pairs items => do return .list (← pairTrees items)
  | .sequence _ _ => malformed
  | .mapping .mapping entries => do
    let (merged, own) ← entryTrees entries
    return .map (merged ++ own)
  | .mapping .set entries => do
    let _ ← entryTrees entries
    return .leaf .foreign
  | .mapping _ _ => malformed
  | .cycle => .ok (.leaf .foreign)

def trees : List Node → Read (List Tree)
  | [] => .ok []
  | v :: rest => do
    let t ← v.tree
    return t :: (← trees rest)

/-- The items of a list of pairs: mappings of one entry each. -/
def pairTrees : List Node → Read (List Tree)
  | [] => .ok []
  | .mapping _ [(k, v)] :: rest => do
    let k ← k.tree
    let v ← v.tree
    return .list [k, v] :: (← pairTrees rest)
  | _ :: _ => malformed

/-- The entries of a mapping: those that are merged into it, and its own. -/
def entryTrees : List (Node × Node) → Read (List (Tree × Tree) × List (Tree × Tree))
  | [] => .ok ([], [])
  | (.scalar (.scalar .merge) _, v) :: rest => do
    let first ← mergedTrees v
    let (merged, own) ← entryTrees rest
    return (first ++ merged, own)
  | (.scalar (.scalar .default) t, v) :: rest => do
    let v ← v.tree
    let (merged, own) ← entryTrees rest
    return (merged, (.leaf (.text t), v) :: own)
  | (k, v) :: rest => do
    let k ← k.tree
    if !k.isKey then malformed
    else
      let v ← v.tree
      let (merged, own) ← entryTrees rest
      return (merged, (k, v) :: own)

/-- The entries that a mapping, or several of them, give to the one into which they are merged. -/
def mergedTrees : Node → Read (List (Tree × Tree))
  | .mapping _ entries => do
    let (merged, own) ← entryTrees entries
    return merged ++ own
  | .sequence _ items => mergedItems items
  | _ => malformed

/-- Of several mappings the first has the last word. -/
def mergedItems : List Node → Read (List (Tree × Tree))
  | [] => .ok []
  | .mapping _ entries :: rest => do
    let (merged, own) ← entryTrees entries
    return (← mergedItems rest) ++ (merged ++ own)
  | _ :: _ => malformed

end

/-- The value of a document; a text without one is null. -/
def read (t : Text) : Read Tree := do
  match ← node? t with
  | some n => n.tree
  | none => return .leaf .null

namespace Tree

def truthy : Tree → Bool
  | leaf v => v.truthy
  | list items => !items.isEmpty
  | map entries => !entries.isEmpty

mutual

/-- The same value without the keys that are no texts. -/
def value : Tree → Value
  | leaf v => v
  | list items => .list (values items)
  | map entries => .record (Value.recordOf (fields entries))

def values : List Tree → List Value
  | [] => []
  | t :: rest => t.value :: values rest

def fields : List (Tree × Tree) → List (Text × Value)
  | [] => []
  | (leaf (.text k), v) :: rest => (k, v.value) :: fields rest
  | _ :: rest => fields rest

end

def hasTextKeys (entries : List (Tree × Tree)) : Bool :=
  entries.all fun (k, _) => match k with
    | leaf (.text _) => true
    | _ => false

/-- The entries with texts for keys, each set in its turn. -/
def textEntries (entries : List (Tree × Tree)) : List (Text × Tree) :=
  Value.recordOf (entries.filterMap fun (k, v) => match k with
    | leaf (.text k) => some (k, v)
    | _ => none)

end Tree

end Custody.Yaml
