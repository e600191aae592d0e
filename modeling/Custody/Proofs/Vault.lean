import Custody.Vault
import Custody.Proofs.Cipher.Gcm
import Custody.Proofs.Payload
import Custody.Proofs.Text.Utf8

/-! What has been encrypted under a pass phrase is decrypted under it. -/
namespace Custody.Vault

/-- The random bytes of an encryption have the sizes that a payload asks for. -/
structure Entropy.WellSized (e : Entropy) : Prop where
  salt : e.salt.length = 16
  nonce : e.nonce.length = 12

/-- A pass phrase that can be used: long enough, and without surrogates. -/
structure Usable (passphrase : Text) : Prop where
  length : 8 ≤ passphrase.length
  scalar : passphrase.isScalar = true

theorem Usable.ne_nil {p : Text} (h : Usable p) : p ≠ [] := by
  rintro rfl
  exact absurd h.length (by decide)

private theorem checkPassphrase_of_usable {p : Text} (h : Usable p) : checkPassphrase p = .ok () := by
  rw [checkPassphrase, if_neg h.ne_nil, Failure.minPassphraseLength, if_neg (Nat.not_lt.2 h.length)]

variable {e : Entropy} {plain passphrase : Text}

/-- A text without surrogates can be encrypted, and the payload can be decrypted to the text. -/
theorem decrypt_encrypt (he : e.WellSized) (hp : Usable passphrase) (hne : plain ≠ [])
    (hplain : plain.isScalar = true) :
    ∃ payload, encrypt e plain passphrase = .ok payload ∧ decrypt payload passphrase = .ok plain := by
  let key := KeyDerivation.derive (passphrase.flatMap Utf8.encodePoint) e.salt
  let p : Payload := ⟨e.salt, e.nonce, Gcm.sealBytes key e.nonce (plain.flatMap Utf8.encodePoint)⟩
  have hkey : key.length = 32 := KeyDerivation.length_derive _ _
  have hp' : p.WellSized := by
    refine ⟨he.salt, he.nonce, ?_⟩
    change 16 ≤ (Gcm.sealBytes key e.nonce (plain.flatMap Utf8.encodePoint)).length
    rw [Gcm.length_sealBytes hkey he.nonce]
    exact Nat.le_add_left _ _
  refine ⟨p.serialize, ?_, ?_⟩
  · rw [encrypt, if_neg hne, checkPassphrase_of_usable hp, Utf8.encode?_of_isScalar hp.scalar,
      Utf8.encode?_of_isScalar hplain]
    rfl
  · rw [decrypt, if_neg hp.ne_nil, Payload.parse_serialize hp']
    dsimp only
    rw [Utf8.encode?_of_isScalar hp.scalar]
    dsimp only
    rw [Gcm.openBytes?_sealBytes hkey he.nonce]
    dsimp only
    rw [Utf8.decode?_encode hplain]

/-- A decryption fails over its payload or the pass phrase, or because the pass phrase has no encoding. -/
theorem decrypt_eq_error {payload : Text} {f : Failure} (h : decrypt payload passphrase = .error f) :
    f = .surrogate ∨ f.isSecurity = true := by
  unfold decrypt at h
  split at h
  · cases h
    exact Or.inr rfl
  split at h
  · cases h
    exact Or.inr rfl
  split at h
  · cases h
    exact Or.inl rfl
  split at h
  · cases h
    exact Or.inr rfl
  split at h
  · cases h
  · cases h
    exact Or.inr rfl

/-- A decryption never fails for want of a secret. -/
theorem decrypt_ne_missing (payload : Text) (names : List Text) :
    decrypt payload passphrase ≠ .error (.missingSecrets names) := by
  intro h
  unfold decrypt at h
  split at h
  · cases h
  split at h
  · cases h
  split at h
  · cases h
  split at h
  · cases h
  split at h <;> cases h

theorem encrypt_ne_nil {payload : Text} (h : encrypt e plain passphrase = .ok payload) : payload ≠ [] := by
  unfold encrypt at h
  split at h
  · cases h
  obtain ⟨_, -, h⟩ := Failure.bind_eq_ok.1 h
  split at h
  · cases h
    exact Payload.serialize_ne_nil _
  · cases h

/-- A payload is longer than the text in it. -/
theorem length_lt_of_decrypt {payload : Text} (h : decrypt payload passphrase = .ok plain) :
    plain.length < payload.length := by
  unfold decrypt at h
  split at h
  · cases h
  split at h
  · cases h
  next p hp =>
  split at h
  · cases h
  split at h
  · cases h
  next m hm =>
  split at h
  · next t ht =>
    cases h
    rw [(Payload.eq_serialize_of_parse hp).1]
    calc plain.length ≤ m.length := Utf8.length_le_of_decode? ht
      _ ≤ p.ciphertext.length := Gcm.length_le_of_openBytes? hm
      _ < p.serialize.length := p.length_ciphertext_lt
  · cases h

end Custody.Vault
