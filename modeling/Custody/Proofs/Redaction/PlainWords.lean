import Custody.Proofs.Redaction.Secrets

/-! Words of letters and digits: the rules find nothing in them, unless they are words of the rules. -/
namespace Custody.Redaction

/-- A word in small letters, with capitals for some of them. -/
def InAnyCase (word : String) (t : Text) : Prop :=
  List.Forall₂ (fun (l : Char) (c : CodePoint) => c = ↑l ∨ c = ↑l.toUpper) word.toList t

/-- Letters and digits that are no word which the rules look for. -/
structure PlainWord (t : Text) : Prop where
  nonempty : t ≠ []
  alnum : ∀ c ∈ t, c.isAsciiAlnum = true
  free : ∀ word ∈ ["echo", "printf", "login"], ¬InAnyCase word t

/-- A text that does not go on with the word before it: it is empty, or it begins with white space, a quote, a comma or
a semicolon. -/
def Closes (post : Text) : Prop :=
  ∀ c ∈ post.head?, c.isSpace = true ∨ c = '"' ∨ c = '\'' ∨ c = ',' ∨ c = ';'

section Characters
variable {c : CodePoint} {l : Char}

theorem isPayloadChar_of_alnum (h : c.isAsciiAlnum = true) : isPayloadChar c = true := by
  rw [isPayloadChar, h]
  rfl

theorem isTokenChar_of_alnum (h : c.isAsciiAlnum = true) : isTokenChar c = true := by
  rw [isTokenChar, h]
  rfl

theorem isBareChar_of_isPayloadChar (h : isPayloadChar c = true) : isBareChar c = true := by
  by_contra hc
  rw [isPayloadChar_of_not_bare (Bool.not_eq_true _ ▸ hc)] at h
  cases h

theorem isWord_of_alnum (h : c.isAsciiAlnum = true) : c.isWord = true := by
  have hlt : c.val < 0x80 := by
    simp only [CodePoint.isAsciiAlnum, CodePoint.isDigit, CodePoint.isUpper, CodePoint.isLower, Bool.or_eq_true,
      Bool.and_eq_true, decide_eq_true_eq] at h
    omega
  rw [CodePoint.isWord, if_pos hlt, h]
  rfl

theorem isCommandChar_of_alnum (h : c.isAsciiAlnum = true) : isCommandChar c = true := by
  have hne : ∀ d : CodePoint, d.isAsciiAlnum = false → c ≠ d := by
    rintro d hd rfl
    rw [h] at hd
    cases hd
  simp [isCommandChar, hne '|' rfl, hne ';' rfl, hne '&' rfl, hne '\n' rfl]

def Small (l : Char) : Prop := l.isLower = true ∧ l.toUpper.toNat + 0x20 = l.toNat ∧ 0x61 ≤ l.toNat ∧ l.toNat ≤ 0x7A

instance (l : Char) : Decidable (Small l) := inferInstanceAs (Decidable (_ ∧ _))

def SmallWord (letters : List Char) : Prop := ∀ l ∈ letters, Small l

instance (letters : List Char) : Decidable (SmallWord letters) := List.decidableBAll Small letters

/-- The words and names that are read in any case. -/
theorem small_of_mem : ∀ word ∈ ["echo", "printf", "login", "secret", "password", "passwd", "passphrase", "token"],
    SmallWord word.toList := by decide

theorem eq_ofChar_iff : c = ↑l ↔ c.val = l.toNat := by
  constructor
  · rintro rfl
    rfl
  · intro h
    cases c
    cases h
    rfl

theorem fits_iff (hl : Small l) : Fits l c ↔ c.isLetter l = true := by
  rw [Fits, if_pos hl.1]

/-- Within ASCII a letter is written as itself or as its capital. -/
theorem inAnyCase_of_fits (hl : Small l) (h : Fits l c) (hc : c.isAsciiAlnum = true) : c = ↑l ∨ c = ↑l.toUpper := by
  rw [fits_iff hl] at h
  simp only [CodePoint.isLetter, Bool.or_eq_true, Bool.and_eq_true, beq_iff_eq] at h
  simp only [CodePoint.isAsciiAlnum, CodePoint.isDigit, CodePoint.isUpper, CodePoint.isLower, Bool.or_eq_true,
    Bool.and_eq_true, decide_eq_true_eq] at hc
  have hupper := hl.2.1
  rw [eq_ofChar_iff, eq_ofChar_iff]
  omega

theorem fits_of_inAnyCase (hl : Small l) (h : c = ↑l ∨ c = ↑l.toUpper) : Fits l c := by
  rw [fits_iff hl]
  rw [eq_ofChar_iff, eq_ofChar_iff] at h
  have hupper := hl.2.1
  simp only [CodePoint.isLetter, Bool.or_eq_true, Bool.and_eq_true, beq_iff_eq]
  omega

/-- What closes a word is no letter. -/
theorem not_fits_of_closes (hl : Small l) {post : Text} (h : Closes post) (hc : c ∈ post.head?) : ¬Fits l c := by
  rw [fits_iff hl]
  obtain ⟨-, -, hle, hlt⟩ := hl
  simp only [CodePoint.isLetter, Bool.or_eq_true, Bool.and_eq_true, beq_iff_eq]
  rcases h c hc with h | h | h | h | h
  · simp only [CodePoint.isSpace, Bool.or_eq_true, Bool.and_eq_true, decide_eq_true_eq, beq_iff_eq] at h
    omega
  all_goals
    have hval := congrArg CodePoint.val h
    simp only [CodePoint.ofChar, Char.reduceToNat] at hval
    omega

end Characters

section Words
variable {word : String} {letters : List Char} {p : Text → Option Found} {b : Option CodePoint} {c : CodePoint}
  {post s t v : Text}

theorem PlainWord.exists_cons (h : PlainWord v) : ∃ c u, v = c :: u ∧ c.isAsciiAlnum = true := by
  obtain ⟨c, u, rfl⟩ := List.exists_cons_of_ne_nil h.nonempty
  exact ⟨c, u, rfl, h.alnum c List.mem_cons_self⟩

theorem PlainWord.isWord_last (h : PlainWord v) : v.getLast?.any CodePoint.isWord = true := by
  rw [List.getLast?_eq_some_getLast h.nonempty]
  exact isWord_of_alnum (h.alnum _ (List.getLast_mem h.nonempty))

private theorem inAnyCase_of_forall₂ (hl : SmallWord letters) (hc : ∀ c ∈ t, c.isAsciiAlnum = true)
    (h : List.Forall₂ Fits letters t) :
    List.Forall₂ (fun (l : Char) (c : CodePoint) => c = ↑l ∨ c = ↑l.toUpper) letters t := by
  induction h with
  | nil => exact .nil
  | cons hfirst _ ih =>
    refine .cons (inAnyCase_of_fits (hl _ List.mem_cons_self) hfirst (hc _ List.mem_cons_self)) ?_
    exact ih (fun l hm => hl l (List.mem_cons_of_mem _ hm)) fun c hm => hc c (List.mem_cons_of_mem _ hm)

/-- A word is not read beyond a text that closes it. -/
theorem word?_append_of_closes (hl : SmallWord letters) (h : Closes post) (s : Text) :
    word? letters (s ++ post) = (word? letters s).map (· ++ post) := by
  cases post with
  | nil => simp
  | cons c post => exact word?_append_of_head (fun l hm => not_fits_of_closes (hl l hm) h rfl) s post

/-- A plain word goes on behind each of the words that it begins with. -/
theorem PlainWord.word?_rest {r : Text} (h : PlainWord v) (hpost : Closes post) (hword : word ∈ ["echo", "printf", "login"])
    (hr : word? word.toList (v ++ post) = some r) : ∃ c u, r = c :: u ∧ c.isAsciiAlnum = true := by
  have hsmall : SmallWord word.toList := small_of_mem word (by
    simp only [List.mem_cons, List.not_mem_nil, or_false] at hword ⊢
    tauto)
  rw [word?_append_of_closes hsmall hpost] at hr
  obtain ⟨q, hq, rfl⟩ := Option.map_eq_some_iff.1 hr
  obtain ⟨u, hu, rfl⟩ := word?_eq_some.1 hq
  cases q with
  | nil =>
    rw [List.append_nil] at h
    exact absurd (inAnyCase_of_forall₂ hsmall h.alnum hu) (h.free word hword)
  | cons c q => exact ⟨c, q ++ post, rfl, h.alnum c (List.mem_append_right u List.mem_cons_self)⟩

/-- Within a word there is no place for a rule that begins at its boundary. -/
theorem misses_bounded (halnum : ∀ c ∈ v, c.isAsciiAlnum = true) (hfirst : p (v ++ post) = none) (b : Option CodePoint) :
    Misses (bounded p) b v post := by
  intro u s hv hs
  cases hu : u.getLast? with
  | none =>
    rw [List.getLast?_eq_none_iff.1 hu, List.nil_append] at hv
    rw [bounded, ← hv, hfirst]
    exact ite_self none
  | some d =>
    obtain ⟨c, s, rfl⟩ := List.exists_cons_of_ne_nil hs
    have hd : d.isWord = true :=
      isWord_of_alnum (halnum d (hv ▸ List.mem_append_left _ (List.mem_of_getLast? hu)))
    have hc : c.isWord = true := isWord_of_alnum (halnum c (hv ▸ List.mem_append_right _ List.mem_cons_self))
    refine if_neg ?_
    simp [isBoundary, hd, hc]

theorem PlainWord.misses_pipedSecret (h : PlainWord v) (hpost : Closes post) (b : Option CodePoint) :
    Misses pipedSecret b v post := by
  have hspace : ∀ word ∈ ["echo", "printf", "login"], (word? word.toList (v ++ post)).bind space? = none := by
    intro word hword
    rw [Option.bind_eq_none_iff]
    intro r hr
    obtain ⟨c, u, rfl, hc⟩ := h.word?_rest hpost hword hr
    exact if_neg (Bool.eq_false_iff.1 (isSpace_of_isPayloadChar (isPayloadChar_of_alnum hc)))
  rw [pipedSecret_eq]
  refine misses_bounded h.alnum ?_ b
  have hopening : opening printer? space? (v ++ post) = none := by
    have hecho := hspace "echo" (by decide)
    have hprintf := hspace "printf" (by decide)
    rw [opening, printer?_eq, hprintf]
    cases hr : word? "echo".toList (v ++ post) with
    | none => rfl
    | some r =>
      rw [hr, Option.bind_some] at hecho
      rw [Option.some_or, Option.bind_some, hecho]
      rfl
  rw [opened, hopening]
  rfl

theorem PlainWord.misses_loginOption (h : PlainWord v) (hpost : Closes post) (b : Option CodePoint) :
    Misses loginOption b v post := by
  rw [loginOption_eq]
  refine misses_bounded h.alnum ?_ b
  have hlogin : loginWord? (v ++ post) = none := by
    rw [loginWord?]
    cases hr : word? "login".toList (v ++ post) with
    | none => rfl
    | some r =>
      obtain ⟨c, u, rfl, hc⟩ := h.word?_rest hpost (by decide) hr
      have hn : CodePoint.isWord ('n' : CodePoint) = true := by decide
      rw [Option.filter_some]
      refine if_neg ?_
      simp [isBoundary, hn, isWord_of_alnum hc]
  rw [openedLogin, hlogin]
  rfl

theorem optionName?_of_not_isSpace {w : String} (hc : c.isSpace = false) : optionName? w (c :: t) = none :=
  if_neg (Bool.eq_false_iff.1 hc)

theorem misses_passwordOption (h : ∀ c ∈ v, c.isSpace = false) (b : Option CodePoint) : Misses passwordOption b v post := by
  intro u s hv hs
  obtain ⟨c, s, rfl⟩ := List.exists_cons_of_ne_nil hs
  have hc : c.isSpace = false := h c (hv ▸ List.mem_append_right _ List.mem_cons_self)
  rw [passwordOption_eq]
  dsimp only
  rw [List.cons_append, opened, opening, optionName?_of_not_isSpace hc]
  rfl

theorem misses_encryptedPayload (h : (':' : CodePoint) ∉ v) (hpost : ∀ c ∈ post.head?, c ∉ Text.ofString "encrypted:")
    (b : Option CodePoint) : Misses encryptedPayload b v post := by
  intro u s hv hs
  have hnone : literal? "encrypted:" s = none := by
    rw [Option.eq_none_iff_forall_ne_some]
    intro r hr
    have ht : s = ("encrypted:" : Text) ++ r := Text.dropPrefix?_eq_some.1 hr
    refine h (hv ▸ List.mem_append_right _ (ht ▸ List.mem_append_left _ ?_))
    decide
  have hliteral : literal? "encrypted:" (s ++ post) = none := by
    cases post with
    | nil => rw [List.append_nil, hnone]
    | cons c post => rw [literal?_append_of_head (hpost c rfl), hnone, Option.map_none]
  rw [encryptedPayload_eq]
  dsimp only
  rw [payload?, hliteral]
  rfl

theorem PlainWord.piped?_append (h : PlainWord v) (post : Text) : piped? (v ++ post) = piped? post := by
  have hnone : ∀ u, u <:+ v → u ≠ [] → registryPipe? (u ++ post) = none := by
    intro u hu hne
    rw [Option.eq_none_iff_forall_ne_some]
    intro r hr
    obtain ⟨c, w, hcw, hc⟩ := ends_of_registryPipe? hr
    obtain ⟨d, u, rfl⟩ := List.exists_cons_of_ne_nil hne
    obtain ⟨rfl, -⟩ := List.cons.inj hcw
    rw [isPayloadChar_of_alnum (h.alnum d (hu.mem List.mem_cons_self))] at hc
    cases hc
  have hall : v.all (fun c => decide (c ≠ ('\n' : CodePoint))) = true := by
    rw [List.all_eq_true]
    intro c hc
    have hne : c ≠ '\n' := by
      rintro rfl
      exact absurd (h.alnum _ hc) (by decide)
    exact decide_eq_true hne
  rw [piped?, seek?_append_of_none hnone, if_pos hall]
  rfl

theorem PlainWord.seek?_append (h : PlainWord v) (post : Text) :
    seek? isCommandChar shortOption? (v ++ post) = seek? isCommandChar shortOption? post := by
  have hnone : ∀ u, u <:+ v → u ≠ [] → shortOption? (u ++ post) = none := by
    intro u hu hne
    obtain ⟨d, u, rfl⟩ := List.exists_cons_of_ne_nil hne
    have hd := isSpace_of_isPayloadChar (isPayloadChar_of_alnum (h.alnum d (hu.mem List.mem_cons_self)))
    rw [shortOption?_eq, List.cons_append, opening, optionName?_of_not_isSpace hd]
    rfl
  have hall : v.all isCommandChar = true := by
    rw [List.all_eq_true]
    intro c hc
    exact isCommandChar_of_alnum (h.alnum c hc)
  rw [seek?_append_of_none hnone, if_pos hall]

end Words

end Custody.Redaction
