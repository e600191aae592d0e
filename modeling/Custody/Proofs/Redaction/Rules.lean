import Custody.Proofs.Redaction.Openings

/-! What every rule of redaction does with what it finds. -/
namespace Custody.Redaction

/-- The last field of a payload, or one with a colon behind it. -/
def field? (t : Text) : Option Text := run? 1 isPayloadChar t

def payload? (t : Text) : Option Text :=
  (((((literal? "encrypted:" t).bind field?).bind (literal? ":")).bind field?).bind (literal? ":")).bind field?

theorem encryptedPayload_eq :
    encryptedPayload = fun _ t => (payload? t).map fun rest => ⟨"encrypted:" ++ mark, rest⟩ := by
  funext b t
  unfold encryptedPayload payload? field?
  simp [map_eq_bind_some, Option.bind_assoc]

theorem reads_field : Reads field? := fun _ _ => suffix_run?

theorem reads_literal (lead : String) : Reads (literal? lead) := fun _ _ => suffix_literal?

theorem consumes_payload : Consumes payload? := by
  have hfirst : Consumes (literal? "encrypted:") := by
    intro t r h
    have ht : t = ("encrypted:" : Text) ++ r := Text.dropPrefix?_eq_some.1 h
    exact ⟨"encrypted:", ht, 'e', by decide, rfl⟩
  exact ((((hfirst.bind reads_field).bind (reads_literal ":")).bind reads_field).bind (reads_literal ":")).bind reads_field

theorem prefix_of_payload {t r : Text} (hr : payload? t = some r) : ("encrypted:" : Text) <+: t := by
  unfold payload? at hr
  simp only [Option.bind_eq_some_iff] at hr
  obtain ⟨_, ⟨_, ⟨_, ⟨_, ⟨_, hlit, -⟩, -⟩, -⟩, -⟩, -⟩ := hr
  exact ⟨_, (Text.dropPrefix?_eq_some.1 hlit).symm⟩

theorem isRule_encryptedPayload : IsRule encryptedPayload := by
  rw [encryptedPayload_eq]
  constructor
  · intro b t m h
    obtain ⟨r, hr, rfl⟩ := Option.map_eq_some_iff.1 h
    exact consumes_payload.exists_cons hr
  · intro b t m h
    obtain ⟨r, hr, rfl⟩ := Option.map_eq_some_iff.1 h
    exact ⟨"encrypted:", [], rfl, prefix_of_payload hr, Or.inl rfl⟩
  · intro b b' t _
    rfl

theorem keepsStart_encryptedPayload : KeepsStart encryptedPayload := by
  intro b t m h
  rw [encryptedPayload_eq] at h
  obtain ⟨r, hr, rfl⟩ := Option.map_eq_some_iff.1 h
  exact ⟨"encrypted:", mark, rfl, prefix_of_payload hr, 'e', by decide, rfl⟩

theorem isRule_pipedSecret : IsRule pipedSecret := by
  rw [pipedSecret_eq]
  exact isRule_bounded (isRule_opened consumes_printer reads_space reads_piped (Or.inr rfl))

theorem keepsStart_pipedSecret : KeepsStart pipedSecret := by
  rw [pipedSecret_eq]
  exact keepsStart_bounded (keepsStart_opened consumes_printer)

theorem isRule_passwordOption : IsRule passwordOption := by
  rw [passwordOption_eq]
  exact isRule_opened (consumes_optionName (by decide)) reads_optionWay reads_optionValue (Or.inr rfl)

theorem keepsStart_passwordOption : KeepsStart passwordOption := by
  rw [passwordOption_eq]
  exact keepsStart_opened (consumes_optionName (by decide))

theorem isRule_namedSecret : IsRule namedSecret := by
  rw [namedSecret_eq]
  exact isRule_opened consumes_namedValue (fun t r h => by cases h; exact List.suffix_refl _)
    (fun _ _ => suffix_run?) (Or.inl rfl)

theorem keepsStart_namedSecret : KeepsStart namedSecret := by
  rw [namedSecret_eq]
  exact keepsStart_opened consumes_namedValue

theorem isRule_authorization : IsRule authorization := by
  rw [authorization_eq]
  exact isRule_bounded (isRule_opened consumes_schemeName reads_space (fun _ _ => suffix_run?) (Or.inr rfl))

theorem keepsStart_authorization : KeepsStart authorization := by
  rw [authorization_eq]
  exact keepsStart_bounded (keepsStart_opened consumes_schemeName)

theorem shortOption?_eq_some {t n r : Text} : shortOption? t = some (n, r) ↔
    ∃ v, opening (optionName? "-p") space? t = some (n, v) ∧ optionValue? v = some r := by
  rw [shortOption?_eq, Option.bind_eq_some_iff]
  constructor
  · rintro ⟨⟨n', v⟩, hopen, h⟩
    obtain ⟨r', hr, heq⟩ := Option.map_eq_some_iff.1 h
    cases heq
    exact ⟨v, hopen, hr⟩
  · rintro ⟨v, hopen, hr⟩
    exact ⟨(n, v), hopen, by rw [hr]; rfl⟩

theorem consumes_loginWord : Consumes loginWord? := fun t r h =>
  consumes_word (by decide : Visible "login".toList) t r (Option.filter_eq_some_iff.1 h).1

/-- What is found behind a login is all up to the option's name, and the mark. -/
theorem openedLogin_eq_some {t : Text} {m : Found} : openedLogin t = some m ↔ ∃ after s n,
    loginWord? t = some after ∧ seek? isCommandChar shortOption? after = some (s, n, m.rest) ∧
      m.output = upTo t n ++ " " ++ mark := by
  rw [openedLogin, Option.bind_eq_some_iff]
  constructor
  · rintro ⟨after, hlogin, h⟩
    obtain ⟨⟨s, n, r⟩, hseek, rfl⟩ := Option.map_eq_some_iff.1 h
    exact ⟨after, s, n, hlogin, hseek, rfl⟩
  · rintro ⟨after, s, n, hlogin, hseek, hout⟩
    refine ⟨after, hlogin, ?_⟩
    rw [hseek, Option.map_some, ← hout]

/-- The option's name is behind the login, and the value behind the name. -/
theorem suffix_of_seek {after s n r : Text} (h : seek? isCommandChar shortOption? after = some (s, n, r)) :
    n <:+ after ∧ r <:+ n := by
  obtain ⟨hs, hoption⟩ := seek?_eq_some h
  obtain ⟨v, hopen, hvalue⟩ := shortOption?_eq_some.1 hoption
  obtain ⟨hname, hway⟩ := opening_eq_some.1 hopen
  exact ⟨(reads_optionName "-p" s n hname).trans hs,
    (reads_optionValue v r hvalue).trans (reads_space n v hway)⟩

theorem isRule_loginOption : IsRule loginOption := by
  rw [loginOption_eq]
  refine isRule_bounded ⟨fun {b t m} h => ?_, fun {b t m} h => ?_, fun _ _ => rfl⟩
  · obtain ⟨after, s, n, hlogin, hseek, -⟩ := openedLogin_eq_some.1 h
    obtain ⟨c, u, ht⟩ := consumes_loginWord.exists_cons hlogin
    obtain ⟨hn, hr⟩ := suffix_of_seek hseek
    obtain ⟨w, hrest⟩ := hr.trans hn
    exact ⟨c, u ++ w, by rw [ht, ← hrest, ← List.append_assoc, List.cons_append]⟩
  · obtain ⟨after, s, n, hlogin, hseek, hm⟩ := openedLogin_eq_some.1 h
    obtain ⟨u, rfl⟩ := (suffix_of_seek hseek).1.trans (consumes_loginWord.reads _ after hlogin)
    exact ⟨u, " ", by rw [hm, upTo_append], List.prefix_append u n, Or.inr rfl⟩

theorem keepsStart_loginOption : KeepsStart loginOption := by
  rw [loginOption_eq]
  refine keepsStart_bounded fun b t m h => ?_
  obtain ⟨after, s, n, hlogin, hseek, hm⟩ := openedLogin_eq_some.1 h
  obtain ⟨u, rfl, c, hmem, hc⟩ := consumes_loginWord t after hlogin
  obtain ⟨w, rfl⟩ := (suffix_of_seek hseek).1
  refine ⟨u ++ w, " " ++ mark, ?_, ⟨n, List.append_assoc u w n⟩, c, List.mem_append_left w hmem, hc⟩
  rw [hm, ← List.append_assoc u w n, upTo_append, List.append_assoc]

theorem reads_keyLine (line : String) : Reads (keyLine? line) := by
  intro t r h
  obtain ⟨s, hs, h⟩ := Option.bind_eq_some_iff.1 h
  obtain ⟨-, h⟩ := Option.ite_none_right_eq_some.1 h
  exact ((suffix_literal? h).trans (List.dropWhile_suffix _)).trans (suffix_literal? hs)

theorem privateKey_eq_some {b : Option CodePoint} {t : Text} {m : Found} : privateKey b t = some m ↔ ∃ body s,
    keyLine? "-----BEGIN " t = some body ∧ seek? (fun _ => true) (keyLine? "-----END ") body = some (s, m.rest) ∧
      m.output = mark := by
  unfold privateKey
  simp only [Option.bind_eq_bind, Option.bind_eq_some_iff]
  constructor
  · rintro ⟨body, hbody, ⟨s, r⟩, hseek, heq⟩
    cases heq
    exact ⟨body, s, hbody, hseek, rfl⟩
  · rintro ⟨body, s, hbody, hseek, hout⟩
    exact ⟨body, hbody, (s, m.rest), hseek, by rw [← hout]; rfl⟩

theorem isRule_privateKey : IsRule privateKey where
  reads {b t m} h := by
    obtain ⟨body, s, hbody, hseek, -⟩ := privateKey_eq_some.1 h
    obtain ⟨q, hq, hline⟩ := Option.bind_eq_some_iff.1 hbody
    obtain ⟨hs, hr⟩ := seek?_eq_some hseek
    obtain ⟨-, hline⟩ := Option.ite_none_right_eq_some.1 hline
    have ht : t = ("-----BEGIN " : Text) ++ q := Text.dropPrefix?_eq_some.1 hq
    have hrest : m.rest <:+ q := ((reads_keyLine _ s m.rest hr).trans hs).trans
      ((suffix_literal? hline).trans (List.dropWhile_suffix _))
    obtain ⟨w, hw⟩ := hrest
    exact ⟨'-', "----BEGIN " ++ w, by rw [ht, ← hw, ← List.append_assoc]; rfl⟩
  marks h := by
    obtain ⟨-, -, -, -, hout⟩ := privateKey_eq_some.1 h
    exact ⟨[], [], hout, List.nil_prefix, Or.inl rfl⟩
  blind _ _ := rfl

def beforeSchemes : List Pattern := [pipedSecret, passwordOption, loginOption, encryptedPayload, namedSecret]

def earlierRules : List Pattern :=
  [pipedSecret, passwordOption, loginOption, encryptedPayload, namedSecret, authorization]

theorem isRule_of_mem {p : Pattern} (hp : p ∈ earlierRules) : IsRule p := by
  simp only [earlierRules, List.mem_cons, List.not_mem_nil, or_false] at hp
  rcases hp with rfl | rfl | rfl | rfl | rfl | rfl
  · exact isRule_pipedSecret
  · exact isRule_passwordOption
  · exact isRule_loginOption
  · exact isRule_encryptedPayload
  · exact isRule_namedSecret
  · exact isRule_authorization

theorem keepsStart_of_mem {p : Pattern} (hp : p ∈ earlierRules) : KeepsStart p := by
  simp only [earlierRules, List.mem_cons, List.not_mem_nil, or_false] at hp
  rcases hp with rfl | rfl | rfl | rfl | rfl | rfl
  · exact keepsStart_pipedSecret
  · exact keepsStart_passwordOption
  · exact keepsStart_loginOption
  · exact keepsStart_encryptedPayload
  · exact keepsStart_namedSecret
  · exact keepsStart_authorization

end Custody.Redaction
