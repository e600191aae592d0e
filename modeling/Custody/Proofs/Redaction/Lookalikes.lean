import Custody.Proofs.Redaction.PrivateKeys

/-! Secrets of several words, bearer tokens and private keys: two of one shape cannot be told apart after redaction,
unless something in the text takes a part of them for its own value. -/
namespace Custody.Redaction

/-- The lines of a private key, in an encoding with letters, digits and a few signs, of which the last is no opening. -/
structure Body (body : Text) : Prop where
  chars : ∀ c ∈ body, isPayloadChar c = true ∨ c = '\n'
  closed : ∀ f ∈ [printerOpening, schemeOpening, namedValue?], ¬Awaits f ("\n" ++ (body ++ "\n"))

def privateKeyText (title title' body : Text) : Text :=
  keyLine "-----BEGIN " title ++ ("\n" ++ (body ++ "\n") ++ keyLine "-----END " title')

/-- Two secrets of one shape behind a text that takes nothing of them. -/
inductive Lookalike (pre post : Text) : Text → Text → Prop
  /-- Keys with the same lines around them. A text that ends in an option is no matter, since no value begins with a dash. -/
  | keys {title title' body body' : Text} (first : Title title) (last : Title title') (one : Body body) (other : Body body')
      (free : ∀ f ∈ [schemeOpening, namedValue?], ¬Awaits f pre) :
      Lookalike pre post (privateKeyText title title' body) (privateKeyText title title' body')
  /-- Tokens of one scheme. -/
  | tokens {tok tok' : Text} (one : Token post tok) (other : Token post tok') (free : Untaken pre) :
      Lookalike pre post (credential tok) (credential tok')

section Lookalikes
variable {body post pre title title' x x' : Text}

theorem Body.inside (h : Body body) : Inside ("\n" ++ (body ++ "\n")) where
  halts := ⟨fun e he => by rw [List.getLast?_append, List.getLast?_append] at he; cases he; exact Or.inr rfl,
    h.closed _ (by simp), h.closed _ (by simp)⟩
  first := rfl
  last := by
    rw [List.getLast?_append, List.getLast?_append]
    rfl
  chars c hc := by
    have hfixed : ∀ c ∈ ("\n" : Text), c ≠ '-' ∧ c ≠ '|' := by decide
    have hsigns : ∀ d ∈ ("-|" : Text), ¬(isPayloadChar d = true ∨ d = '\n') := by decide
    have hne : ∀ d ∈ ("-|" : Text), c ∈ body → c ≠ d := by
      rintro d hd hmem rfl
      exact hsigns c hd (h.chars c hmem)
    simp only [List.mem_append] at hc
    rcases hc with hc | hc | hc
    · exact hfixed c hc
    · exact ⟨hne '-' (by decide) hc, hne '|' (by decide) hc⟩
    · exact hfixed c hc
  silent := h.closed _ (by simp)

theorem privateKeyText_append (pre title title' body post : Text) :
    pre ++ (privateKeyText title title' body ++ post) =
      around pre (keyLine "-----BEGIN " title) ("\n" ++ (body ++ "\n")) (keyLine "-----END " title') post := by
  rw [privateKeyText, around, List.append_assoc, List.append_assoc]

/-- Behind an empty text or a space, and before one, two secrets of one shape are redacted alike. -/
theorem redact_lookalike (hpre : Spaced pre) (hpost : ∀ c ∈ post.head?, c = ' ') (h : Lookalike pre post x x') :
    redact (pre ++ (x ++ post)) = redact (pre ++ (x' ++ post)) := by
  have hblocks : Blocks post := fun c hc => Or.inl (hpost c hc)
  cases h with
  | keys first last one other free =>
    have hhalts : Halts pre := ⟨fun e he => Or.inl (hpre e he), free _ (by simp), free _ (by simp)⟩
    obtain ⟨z, hz⟩ := redact_hides_inside first last hpre hhalts hblocks
    rw [privateKeyText_append, privateKeyText_append]
    exact (hz _ one.inside).trans (hz _ other.inside).symm
  | tokens one other free =>
    obtain ⟨z, hz⟩ := redact_hides_credential hpre free hblocks
    exact (hz _ ⟨_, one, rfl⟩).trans (hz _ ⟨_, other, rfl⟩).symm

/-- A token in a header, and a key where the value of an option is awaited, with a scheme and a name in it. -/
theorem redact_lookalike_in_command :
    redact ("curl -H Authorization: " ++ (credential "s3cretT0ken" ++ " https://mail.example")) =
        redact ("curl -H Authorization: " ++ (credential "0therT0ken" ++ " https://mail.example")) ∧
      redact ("login -p " ++ (privateKeyText "RSA PRIVATE KEY" "RSA PRIVATE KEY" "MIIEow/Bearer\ntoken=A+==" ++ " rejected")) =
        redact ("login -p " ++ (privateKeyText "RSA PRIVATE KEY" "RSA PRIVATE KEY" "AAAA" ++ " rejected")) := by
  have htitle : Title "RSA PRIVATE KEY" := ⟨by decide, by decide, by decide⟩
  have htoken : Token " https://mail.example" "s3cretT0ken" := ⟨by decide, by decide, fun _ => by decide⟩
  have hother : Token " https://mail.example" "0therT0ken" := ⟨by decide, by decide, fun _ => by decide⟩
  constructor
  · exact redact_lookalike (by decide) (by decide) (.tokens htoken hother ⟨by decide, fun _ => by decide, by decide⟩)
  · exact redact_lookalike (by decide) (by decide)
      (.keys htitle htitle ⟨by decide, by decide⟩ ⟨by decide, by decide⟩ (by decide))

/-- A name before a token takes the name of its scheme for the value, and the name of a scheme takes the first line of
a key. -/
theorem told_apart :
    redact ("token: " ++ credential "s3cretT0ken") ≠ redact ("token: " ++ credential "0therT0ken") ∧
      redact ("Bearer " ++ privateKeyText "PRIVATE KEY" "PRIVATE KEY" "AAAA") ≠
        redact ("Bearer " ++ privateKeyText "PRIVATE KEY" "PRIVATE KEY" "BBBB") := by
  constructor <;> decide +kernel

end Lookalikes

end Custody.Redaction
