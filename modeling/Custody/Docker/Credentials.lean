import Custody.Text.CodePoint

/-! Credentials of a container registry and the check that comes before their use. -/
namespace Custody.Docker

def defaultRegistry : Text := "https://index.docker.io/v1/"

structure Credentials where
  username : Text
  password : Text
  registry : Text := defaultRegistry
deriving DecidableEq, Repr, Inhabited

/-- The verdict on a user name and a password. -/
inductive Verdict where
  | valid
  | shortPassword
  | noPassword
  | badUsername
deriving DecidableEq, Repr, Inhabited

namespace Verdict

def status : Verdict → String
  | valid => "valid"
  | shortPassword => "warning"
  | noPassword | badUsername => "invalid"

def minPasswordLength : Nat := 8

def reason : Verdict → Text
  | valid => []
  | shortPassword => "Password is short (< " ++ Text.ofNat minPasswordLength ++ " characters)"
  | noPassword => "Password cannot be empty"
  | badUsername => "Invalid username"

/-- A short password is no reason to refuse. -/
def ok : Verdict → Bool
  | valid | shortPassword => true
  | noPassword | badUsername => false

end Verdict

def isNameChar (c : CodePoint) : Bool :=
  c.isAsciiAlnum || c = '.' || c = '_' || c = '@' || c = '-'

def maxUsernameLength : Nat := 255

/-- A user name starts with a letter or a digit and is not too long. One line feed behind it is let
pass. -/
def isUsername (t : Text) : Bool :=
  let name := Text.dropFinalLineFeed t
  match name with
  | [] => false
  | c :: rest => c.isAsciiAlnum && rest.all isNameChar && name.length ≤ maxUsernameLength

/-- The name of a credential helper: letters, digits and hyphens. One line feed behind it is let pass. -/
def isHelperName (t : Text) : Bool :=
  let name := Text.dropFinalLineFeed t
  !name.isEmpty && name.all fun c => c.isAsciiAlnum || c = '-'

def check (username password : Text) : Verdict :=
  if !isUsername username then .badUsername
  else if password = [] then .noPassword
  else if password.length < Verdict.minPasswordLength then .shortPassword
  else .valid

end Custody.Docker
