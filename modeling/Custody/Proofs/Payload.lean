import Custody.Payload
import Custody.Proofs.Act
import Custody.Proofs.Codec.Base64
import Custody.Proofs.Text.Splitting

/-! Payloads at rest: what is read is exactly what is written. -/
namespace Custody.Payload

/-- The sizes of the parts of a payload that can have come from an encryption. -/
structure WellSized (p : Payload) : Prop where
  salt : p.salt.length = 16
  nonce : p.nonce.length = 12
  ciphertext : 16 ≤ p.ciphertext.length

/-- A field is read just when it is written as the encoding of its bytes. -/
theorem field_eq_ok {name : PayloadField} {t : Text} {b : Bytes} : field name t = .ok b ↔ t = Base64.encode b := by
  unfold field
  constructor
  · intro h
    split at h
    · cases h
    · split at h
      · next he =>
        cases h
        exact he.symm
      · cases h
  · rintro rfl
    rw [Base64.decode?_encode]
    exact if_pos rfl

theorem splitOn_serialize (p : Payload) : p.serialize.splitOn ':' =
    [Base64.encode p.salt, Base64.encode p.nonce, Base64.encode p.ciphertext] := by
  unfold serialize
  rw [List.append_assoc, List.cons_append, Text.splitOn_append (Base64.colon_not_mem_encode _),
    Text.splitOn_append (Base64.colon_not_mem_encode _), Text.splitOn_of_not_mem (Base64.colon_not_mem_encode _)]

theorem serialize_ne_nil (p : Payload) : p.serialize ≠ [] := by
  unfold serialize
  exact List.append_ne_nil_of_left_ne_nil (List.append_ne_nil_of_right_ne_nil _ (List.cons_ne_nil _ _)) _

theorem length_ciphertext_lt (p : Payload) : p.ciphertext.length < p.serialize.length := by
  have hle := Base64.length_le_encode p.ciphertext
  simp only [serialize, List.length_append, List.length_cons]
  omega

theorem parse_serialize {p : Payload} (h : p.WellSized) : parse p.serialize = .ok p := by
  unfold parse
  rw [if_neg p.serialize_ne_nil, splitOn_serialize]
  dsimp only
  rw [field_eq_ok.2 rfl, field_eq_ok.2 rfl, field_eq_ok.2 rfl]
  change (if p.salt.length ≠ 16 then _ else if p.nonce.length ≠ 12 then _ else if p.ciphertext.length < 16 then _
    else Except.ok p) = Except.ok p
  rw [if_neg (not_not_intro h.salt), if_neg (not_not_intro h.nonce), if_neg (Nat.not_lt.2 h.ciphertext)]

/-- Whatever is read has the right sizes and is written as it was. -/
theorem eq_serialize_of_parse {t : Text} {p : Payload} (h : parse t = .ok p) : t = p.serialize ∧ p.WellSized := by
  unfold parse at h
  split at h
  · cases h
  split at h
  · next s n c hsplit =>
    obtain ⟨salt, hs, h⟩ := Failure.bind_eq_ok.1 h
    obtain ⟨nonce, hn, h⟩ := Failure.bind_eq_ok.1 h
    obtain ⟨ciphertext, hc, h⟩ := Failure.bind_eq_ok.1 h
    split at h
    · cases h
    split at h
    · cases h
    split at h
    · cases h
    next hsalt hnonce hciphertext =>
    cases h
    have ht : Text.join [':'] [s, n, c] = t := by rw [← hsplit, Text.join_splitOn]
    rw [field_eq_ok.1 hs, field_eq_ok.1 hn, field_eq_ok.1 hc] at ht
    refine ⟨?_, not_not.1 hsalt, not_not.1 hnonce, Nat.not_lt.1 hciphertext⟩
    rw [← ht, serialize]
    simp only [Text.join, List.append_assoc, List.cons_append, List.nil_append]
  · cases h

theorem parse_eq_ok {t : Text} {p : Payload} : parse t = .ok p ↔ t = p.serialize ∧ p.WellSized :=
  ⟨eq_serialize_of_parse, fun ⟨ht, h⟩ => ht ▸ parse_serialize h⟩

/-- The texts that are read as payloads are exactly those that are written for payloads of the right sizes. Each
payload has one text; every other text is refused as a malformed payload. -/
theorem parse_inverts_serialize :
    (∀ (t : Text) (p : Payload), parse t = .ok p ↔ t = p.serialize ∧ p.WellSized) ∧
    (∀ p : Payload, p.WellSized → parse p.serialize = .ok p) ∧
    (∀ t : Text, (∀ p : Payload, p.WellSized → t ≠ p.serialize) →
      ∃ e, parse t = .error e ∧ (Failure.payload e).kind = .payloadFormat) ∧
    (∀ (t u : Text) (p q : Payload), parse t = .ok p → parse u = .ok q → t ≠ u →
      ¬(p.salt = q.salt ∧ p.nonce = q.nonce ∧ p.ciphertext = q.ciphertext)) := by
  refine ⟨fun t p => parse_eq_ok, fun p => parse_serialize, fun t ht => ?_, ?_⟩
  · cases h : parse t with
    | error e => exact ⟨e, rfl, rfl⟩
    | ok p =>
      obtain ⟨hp, hsized⟩ := eq_serialize_of_parse h
      exact absurd hp (ht p hsized)
  · rintro t u p q ht hu hne ⟨hs, hn, hc⟩
    have hpq : p = q := by
      cases p
      cases q
      cases hs
      cases hn
      cases hc
      rfl
    rw [hpq] at ht
    exact hne ((eq_serialize_of_parse ht).1.trans (eq_serialize_of_parse hu).1.symm)

end Custody.Payload
