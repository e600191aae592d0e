import Custody.Text.CodePoint

/-! The tokens of a YAML text. Indentation shows in tokens that begin and end blocks. -/
namespace Custody.Yaml

inductive Directive where
  | version (major minor : Nat)
  | tag (handle lead : Text)
  | other (name : Text)
deriving DecidableEq, Repr, Inhabited

inductive Token where
  | directive (d : Directive)
  | documentStart
  | documentEnd
  | streamEnd
  | blockSequenceStart
  | blockMappingStart
  | blockEnd
  | flowSequenceStart
  | flowSequenceEnd
  | flowMappingStart
  | flowMappingEnd
  | blockEntry
  | flowEntry
  | key
  | value
  | alias (name : Text)
  | anchor (name : Text)
  | tag (handle : Option Text) (suffix : Text)
  | scalar (plain : Bool) (t : Text)
deriving DecidableEq, Repr, Inhabited

end Custody.Yaml
