import Custody.Text.CodePoint

/-! Paths in normal form: repeated slashes, single dots and closing slashes are gone, double dots stay. -/
namespace Custody

/-- Where a path starts. Exactly two leading slashes are a root of their own. -/
inductive Path.Root where
  | relative
  | root
  | doubleRoot
deriving DecidableEq, Repr, Inhabited

/-- A path: its root and its components. -/
structure Path where
  root : Path.Root
  parts : List Text
deriving DecidableEq, Repr, Inhabited

namespace Path

/-- How a text begins: the number of its leading slashes decides. -/
def rootOf : Text → Root
  | a :: b :: c :: _ =>
    if a = '/' then (if b = '/' ∧ c ≠ '/' then .doubleRoot else .root) else .relative
  | [a, b] => if a = '/' then (if b = '/' then .doubleRoot else .root) else .relative
  | [a] => if a = '/' then .root else .relative
  | [] => .relative

def ofText (t : Text) : Path where
  root := rootOf t
  parts := (t.splitOn '/').filter fun p => p ≠ [] ∧ p ≠ ('.' : CodePoint) :: []

def rootText : Root → Text
  | .relative => []
  | .root => "/"
  | .doubleRoot => "//"

/-- A dot stands for the path without components. -/
def text (p : Path) : Text :=
  let t := rootText p.root ++ Text.join "/" p.parts
  if t = [] then "." else t

def child (p : Path) (name : Text) : Path := { p with parts := p.parts ++ [name] }

def parent (p : Path) : Path := { p with parts := p.parts.dropLast }

/-- The last component, empty for a root. -/
def name (p : Path) : Text := p.parts.getLastD []

/-- A path read from a place: an absolute one ignores the place. -/
def under (place p : Path) : Path :=
  if p.root = .relative then { place with parts := place.parts ++ p.parts } else p

end Path

end Custody
