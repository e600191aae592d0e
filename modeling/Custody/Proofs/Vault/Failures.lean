import Custody.Proofs.Vault

/-! The failures of encryption and decryption: of which kinds they are, and what brings each of them about. -/
namespace Custody.Vault

def failure? {α : Type} : Except Failure α → Option Failure.Kind
  | .ok _ => none
  | .error f => some f.kind

def HasSurrogate (t : Text) : Prop := ∃ c ∈ t, c.isSurrogate = true

theorem isScalar_eq_true {t : Text} : t.isScalar = true ↔ ¬HasSurrogate t := by
  simp [Text.isScalar, HasSurrogate]

theorem encode?_of_hasSurrogate {t : Text} (h : HasSurrogate t) : Utf8.encode? t = none :=
  if_neg fun hscalar => isScalar_eq_true.1 hscalar h

section Encryption
variable {plain passphrase : Text}

theorem encrypt_of_refused (e : Entropy) (h : plain = [] ∨ passphrase.length < 8) :
    failure? (encrypt e plain passphrase) = some .cryptoInput := by
  rw [encrypt, checkPassphrase]
  by_cases hplain : plain = []
  · rw [if_pos hplain]
    rfl
  have hshort : passphrase.length < Failure.minPassphraseLength := h.resolve_left hplain
  rw [if_neg hplain, if_pos hshort]
  by_cases hempty : passphrase = []
  · rw [if_pos hempty]
    rfl
  · rw [if_neg hempty]
    rfl

theorem encrypt_of_accepted (e : Entropy) (h : ¬(plain = [] ∨ passphrase.length < 8)) :
    encrypt e plain passphrase = match Utf8.encode? passphrase, Utf8.encode? plain with
      | some p, some m =>
        .ok (Payload.serialize ⟨e.salt, e.nonce, Gcm.sealBytes (KeyDerivation.derive p e.salt) e.nonce m⟩)
      | _, _ => .error .unencodable := by
  obtain ⟨hplain, hlong⟩ := not_or.1 h
  have hne : passphrase ≠ [] := by
    rintro rfl
    exact hlong (by decide)
  have hcheck : checkPassphrase passphrase = .ok () := by
    rw [checkPassphrase, if_neg hne, Failure.minPassphraseLength, if_neg hlong]
  rw [encrypt, if_neg hplain, hcheck]
  rfl

theorem encrypt_of_hasSurrogate (e : Entropy) (h : ¬(plain = [] ∨ passphrase.length < 8))
    (hs : HasSurrogate plain ∨ HasSurrogate passphrase) :
    failure? (encrypt e plain passphrase) = some .encryption := by
  rw [encrypt_of_accepted e h]
  rcases hs with hs | hs
  · rw [encode?_of_hasSurrogate hs]
    cases Utf8.encode? passphrase <;> rfl
  · rw [encode?_of_hasSurrogate hs]
    rfl

theorem encrypt_returns (e : Entropy) (h : ¬(plain = [] ∨ passphrase.length < 8))
    (hs : ¬(HasSurrogate plain ∨ HasSurrogate passphrase)) : failure? (encrypt e plain passphrase) = none := by
  obtain ⟨hplain, hpassphrase⟩ := not_or.1 hs
  rw [encrypt_of_accepted e h, Utf8.encode?_of_isScalar (isScalar_eq_true.2 hplain),
    Utf8.encode?_of_isScalar (isScalar_eq_true.2 hpassphrase)]
  rfl

end Encryption

section Decryption
variable {t passphrase : Text} {q : Payload}

/-- The bytes that the cipher finds in a payload, unless it rejects it. -/
def opened? (passphrase : Text) (q : Payload) : Option Bytes :=
  Gcm.openBytes? (KeyDerivation.derive (passphrase.flatMap Utf8.encodePoint) q.salt) q.nonce q.ciphertext

def Holds (t : Text) (q : Payload) : Prop := q.WellSized ∧ t = q.serialize

def Encodes (m : Bytes) (u : Text) : Prop := u.isScalar = true ∧ m = u.flatMap Utf8.encodePoint

theorem Holds.eq {q' : Payload} (h : Holds t q) (h' : Holds t q') : q' = q := by
  have hparse := Payload.parse_serialize h.1
  rw [← h.2, h'.2, Payload.parse_serialize h'.1] at hparse
  exact Except.ok.inj hparse

theorem Holds.exists_iff {P : Payload → Prop} (h : Holds t q) : (∃ q', Holds t q' ∧ P q') ↔ P q :=
  ⟨fun ⟨_, h', hP⟩ => h.eq h' ▸ hP, fun hP => ⟨q, h, hP⟩⟩

theorem encodes_iff {m : Bytes} {u : Text} : Encodes m u ↔ Utf8.decode? m = some u := Utf8.decode?_eq_some.symm

/-- The ends of a decryption under a pass phrase without surrogates. -/
inductive Decrypted (t passphrase : Text) : Except Failure Text → Prop where
  | refused (empty : passphrase = []) : Decrypted t passphrase (.error .emptyPassphrase)
  | malformed (e : PayloadError) (ne : passphrase ≠ []) (none : ∀ q, ¬Holds t q) :
      Decrypted t passphrase (.error (.payload e))
  | rejected (q : Payload) (ne : passphrase ≠ []) (holds : Holds t q) (shut : opened? passphrase q = none) :
      Decrypted t passphrase (.error .rejected)
  | garbled (q : Payload) (m : Bytes) (ne : passphrase ≠ []) (holds : Holds t q) (opened : opened? passphrase q = some m)
      (none : ∀ u, ¬Encodes m u) : Decrypted t passphrase (.error (.payload (.notText m.length)))
  | returned (q : Payload) (m : Bytes) (u : Text) (ne : passphrase ≠ []) (holds : Holds t q)
      (opened : opened? passphrase q = some m) (encodes : Encodes m u) : Decrypted t passphrase (.ok u)

private theorem decrypt_ends (hs : ¬HasSurrogate passphrase) (t : Text) :
    Decrypted t passphrase (decrypt t passphrase) := by
  by_cases hne : passphrase = []
  · rw [decrypt, if_pos hne]
    exact .refused hne
  rw [decrypt, if_neg hne]
  cases hparse : Payload.parse t with
  | error e =>
    refine .malformed e hne fun q holds => ?_
    rw [holds.2, Payload.parse_serialize holds.1] at hparse
    cases hparse
  | ok q =>
    obtain ⟨ht, hsized⟩ := Payload.eq_serialize_of_parse hparse
    have hcipher : Gcm.openBytes? (KeyDerivation.derive (passphrase.flatMap Utf8.encodePoint) q.salt) q.nonce
        q.ciphertext = opened? passphrase q := rfl
    dsimp only
    rw [Utf8.encode?_of_isScalar (isScalar_eq_true.2 hs)]
    dsimp only
    rw [hcipher]
    cases hopened : opened? passphrase q with
    | none => exact .rejected q hne ⟨hsized, ht⟩ hopened
    | some m =>
      dsimp only
      cases hdecode : Utf8.decode? m with
      | some u => exact .returned q m u hne ⟨hsized, ht⟩ hopened (encodes_iff.2 hdecode)
      | none =>
        refine .garbled q m hne ⟨hsized, ht⟩ hopened fun u hu => ?_
        rw [encodes_iff.1 hu] at hdecode
        cases hdecode

end Decryption

/-- An encryption fails over its input if there is nothing to encrypt or the pass phrase is short, else over the
encoding if there is a surrogate, and else it returns. A decryption under a pass phrase without surrogates fails over its
input if that is empty, else over the format if there is no payload, or no text in it, else over the authentication if
the cipher rejects the payload, always with the same message, and else it returns the text. -/
theorem failures_are_classified :
    (∀ (e : Entropy) (plain passphrase : Text),
      (failure? (encrypt e plain passphrase) = some .cryptoInput ↔ plain = [] ∨ passphrase.length < 8) ∧
      (failure? (encrypt e plain passphrase) = some .encryption ↔
        ¬(plain = [] ∨ passphrase.length < 8) ∧ (HasSurrogate plain ∨ HasSurrogate passphrase)) ∧
      (failure? (encrypt e plain passphrase) = none ↔
        ¬(plain = [] ∨ passphrase.length < 8) ∧ ¬(HasSurrogate plain ∨ HasSurrogate passphrase))) ∧
    ∀ t passphrase : Text, ¬HasSurrogate passphrase →
      (failure? (decrypt t passphrase) = some .cryptoInput ↔ passphrase = []) ∧
      (failure? (decrypt t passphrase) = some .payloadFormat ↔ passphrase ≠ [] ∧
        ((¬∃ q, Holds t q) ∨ ∃ q, Holds t q ∧ ∃ m, opened? passphrase q = some m ∧ ¬∃ u, Encodes m u)) ∧
      (failure? (decrypt t passphrase) = some .authentication ↔
        passphrase ≠ [] ∧ ∃ q, Holds t q ∧ opened? passphrase q = none) ∧
      (∀ u, decrypt t passphrase = .ok u ↔
        passphrase ≠ [] ∧ ∃ q, Holds t q ∧ ∃ m, opened? passphrase q = some m ∧ Encodes m u) ∧
      failure? (decrypt t passphrase) ∈ [none, some .cryptoInput, some .payloadFormat, some .authentication] ∧
      ∀ f, decrypt t passphrase = .error f → f.kind = .authentication → f.message? = some
        "Authentication failed. Data may have been tampered with or wrong master key provided." := by
  constructor
  · intro e plain passphrase
    by_cases hrefused : plain = [] ∨ passphrase.length < 8
    · simp [encrypt_of_refused e hrefused, hrefused]
    by_cases hs : HasSurrogate plain ∨ HasSurrogate passphrase
    · simp [encrypt_of_hasSurrogate e hrefused hs, hrefused, hs]
    · simp [encrypt_returns e hrefused hs, hrefused, hs]
  · intro t passphrase hs
    have hends := decrypt_ends hs t
    generalize decrypt t passphrase = r at hends
    cases hends with
    | refused empty => simp [failure?, Failure.kind, empty]
    | malformed e ne none => simp [failure?, Failure.kind, ne, none]
    | rejected q ne holds shut =>
      have hsome : ∃ q, Holds t q := ⟨q, holds⟩
      simp [failure?, Failure.kind, Failure.message?, ne, hsome, holds.exists_iff, shut]
    | garbled q m ne holds opened none => simp [failure?, Failure.kind, ne, holds.exists_iff, opened, none]
    | returned q m u ne holds opened encodes =>
      have hsome : ∃ q, Holds t q := ⟨q, holds⟩
      have honly (u' : Text) : Encodes m u' ↔ u = u' := by
        rw [encodes_iff, encodes_iff.1 encodes, Option.some.injEq]
      simp [failure?, Failure.kind, ne, hsome, holds.exists_iff, opened, honly]

/-- A payload with spare bits in its salt, a text that is one surrogate, and a word. -/
theorem failures_are_classified_of_spare_bits :
    let e : Entropy := ⟨List.replicate 16 0, List.replicate 12 0⟩
    let passphrase := Text.ofString "correct horse"
    let t := Text.ofString "AAECAwQFBgcICQoLDA0ODx==:AAECAwQFBgcICQoL:F3GoGxCTSuMxpRdE5CddtrYPwpFYP/pBfw=="
    let lone : Text := [⟨0xD800, by decide⟩]
    ¬HasSurrogate passphrase ∧ failure? (decrypt t passphrase) = some .payloadFormat ∧
      failure? (encrypt e lone passphrase) = some .encryption ∧ failure? (encrypt e "swordfish" passphrase) = none := by
  intro e passphrase t lone
  have hs : ¬HasSurrogate passphrase := by
    unfold HasSurrogate
    decide
  have hlone : HasSurrogate lone := ⟨_, List.mem_singleton_self _, rfl⟩
  have hword : ¬HasSurrogate "swordfish" := by
    unfold HasSurrogate
    decide
  have hnone : ¬∃ q, Holds t q := by
    rintro ⟨q, hsized, ht⟩
    have hparse : Payload.parse t = .error (.notCanonical .salt) := by decide +kernel
    rw [ht, Payload.parse_serialize hsized] at hparse
    cases hparse
  obtain ⟨hencrypt, hdecrypt⟩ := failures_are_classified
  refine ⟨hs, (hdecrypt t passphrase hs).2.1.2 ⟨by decide, Or.inl hnone⟩, ?_, ?_⟩
  · exact (hencrypt e lone passphrase).2.1.2 ⟨by decide, Or.inl hlone⟩
  · exact (hencrypt e "swordfish" passphrase).2.2.2 ⟨by decide, not_or.2 ⟨hword, hs⟩⟩

end Custody.Vault
