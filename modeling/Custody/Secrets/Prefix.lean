import Custody.Text.CodePoint

/-! Configuration values that hold an encrypted payload are told apart by a prefix. -/
namespace Custody.Secrets

def encryptedPrefix : Text := "encrypted:"

/-- Whether a value is there, is not empty, and starts with the lead text. -/
def isEncrypted (lead : Text) (value : Option Text) : Bool :=
  match value with
  | none => false
  | some v => v ≠ [] && lead.isPrefixOf v

end Custody.Secrets
