import Custody.Text.CodePoint

/-! What can be wrong with one field of a configuration. -/
namespace Custody.Config

/-- Why a value does not fit its field. -/
inductive Mismatch where
  | integerFraction
  | integerText
  | integerTextTooLong
  | integerType
  | notFinite
  | numberText
  | numberType
  | pathType
  | textType
  | sectionType (section_ : String)
  | unknownField
  | rule (text : String)
deriving DecidableEq, Repr, Inhabited

namespace Mismatch

/-- The short name of a mismatch, for programs. -/
def code : Mismatch → String
  | integerFraction => "int_from_float"
  | integerText => "int_parsing"
  | integerTextTooLong => "int_parsing_size"
  | integerType => "int_type"
  | notFinite => "finite_number"
  | numberText => "float_parsing"
  | numberType => "float_type"
  | pathType => "path_type"
  | textType => "string_type"
  | sectionType _ => "model_type"
  | unknownField => "extra_forbidden"
  | rule _ => "value_error"

def message : Mismatch → String
  | integerFraction => "Input should be a valid integer, got a number with a fractional part"
  | integerText => "Input should be a valid integer, unable to parse string as an integer"
  | integerTextTooLong => "Unable to parse input string as an integer, exceeded maximum size"
  | integerType => "Input should be a valid integer"
  | notFinite => "Input should be a finite number"
  | numberText => "Input should be a valid number, unable to parse string as a number"
  | numberType => "Input should be a valid number"
  | pathType => "Input is not a valid path for <class 'pathlib.Path'>"
  | textType => "Input should be a valid string"
  | sectionType name => "Input should be a valid dictionary or instance of " ++ name
  | unknownField => "Extra inputs are not permitted"
  | rule text => "Value error, " ++ text

end Mismatch

/-- A mismatch and the names that lead to its field. -/
structure Problem where
  location : List Text
  mismatch : Mismatch
deriving DecidableEq, Repr, Inhabited

end Custody.Config
