import Custody.Cipher.Gcm
import Custody.Cipher.KeyDerivation
import Custody.Payload
import Custody.Text.Utf8

/-! Authenticated encryption of texts under a pass phrase. -/
namespace Custody.Vault

/-- The random bytes of one encryption. -/
structure Entropy where
  salt : Bytes
  nonce : Bytes
deriving DecidableEq, Repr, Inhabited

/-- A pass phrase that may encrypt: not empty and not short. -/
def checkPassphrase (p : Text) : Except Failure Unit :=
  if p = [] then .error .emptyPassphrase
  else if p.length < Failure.minPassphraseLength then .error .shortPassphrase
  else .ok ()

/-- The payload of a text; neither the text nor the pass phrase may hold a surrogate. -/
def encrypt (e : Entropy) (plain passphrase : Text) : Except Failure Text :=
  if plain = [] then .error .emptyPlaintext
  else do
    checkPassphrase passphrase
    match Utf8.encode? passphrase, Utf8.encode? plain with
    | some p, some m =>
      let key := KeyDerivation.derive p e.salt
      return Payload.serialize ⟨e.salt, e.nonce, Gcm.sealBytes key e.nonce m⟩
    | _, _ => .error .unencodable

/-- The text of a payload. A wrong pass phrase and a changed payload are the same failure. -/
def decrypt (serialized passphrase : Text) : Except Failure Text :=
  if passphrase = [] then .error .emptyPassphrase
  else match Payload.parse serialized with
    | .error e => .error (.payload e)
    | .ok p =>
      match Utf8.encode? passphrase with
      | none => .error .surrogate
      | some k =>
        match Gcm.openBytes? (KeyDerivation.derive k p.salt) p.nonce p.ciphertext with
        | none => .error .rejected
        | some m =>
          match Utf8.decode? m with
          | some t => .ok t
          | none => .error (.payload (.notText m.length))

end Custody.Vault
