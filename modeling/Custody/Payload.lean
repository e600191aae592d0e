import Custody.Codec.Base64
import Custody.Failure

/-! An encrypted secret at rest: three base64 fields between colons, in their canonical form. -/
namespace Custody

/-- Salt of the key derivation, nonce of the cipher, and the ciphertext with its tag. -/
structure Payload where
  salt : Bytes
  nonce : Bytes
  ciphertext : Bytes
deriving DecidableEq, Repr, Inhabited

namespace Payload

def saltLength : Nat := 16

def nonceLength : Nat := 12

/-- The tag is the least that a ciphertext holds. -/
def tagLength : Nat := 16

def serialize (p : Payload) : Text :=
  Base64.encode p.salt ++ (':' : CodePoint) :: Base64.encode p.nonce
    ++ (':' : CodePoint) :: Base64.encode p.ciphertext

/-- The bytes of a field, which must be written as `Base64.encode` writes them. -/
def field (name : PayloadField) (t : Text) : Except PayloadError Bytes :=
  match Base64.decode? t with
  | none => .error (.notBase64 name)
  | some b => if Base64.encode b = t then .ok b else .error (.notCanonical name)

def parse (t : Text) : Except PayloadError Payload :=
  if t = [] then .error .empty
  else match t.splitOn ':' with
    | [s, n, c] => do
      let salt ← field .salt s
      let nonce ← field .nonce n
      let ciphertext ← field .ciphertext c
      if salt.length ≠ saltLength then .error (.saltLength salt.length)
      else if nonce.length ≠ nonceLength then .error (.nonceLength nonce.length)
      else if ciphertext.length < tagLength then .error (.ciphertextLength ciphertext.length)
      else .ok { salt, nonce, ciphertext }
    | fields => .error (.fieldCount fields.length)

end Payload

end Custody
