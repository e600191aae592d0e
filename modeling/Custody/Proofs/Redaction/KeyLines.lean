import Custody.Proofs.Redaction.BearerTokens
import Mathlib.Data.List.Chain

/-! The lines around a private key: no rule before the one for private keys changes them. -/
namespace Custody.Redaction

def keyLine (lead : String) (title : Text) : Text := Text.ofString lead ++ (title ++ "-----")

def keyLeads : List String := ["-----BEGIN ", "-----END "]

/-- The words, written in capitals, behind which the rules look for a value on the same line. -/
def loudWords : List String := ["ECHO", "BEARER", "BASIC"]

/-- The title of a private key, without a word that the rules look for. -/
structure Title (title : Text) : Prop where
  chars : ∀ c ∈ title, isTitleChar c = true
  key : ("PRIVATE KEY" : Text) <:+ title
  free : ∀ w ∈ loudWords, ¬Text.ofString w <:+: title

/-- What matters of such a line to the rules that do not look for it. -/
structure KeyLine (line : Text) : Prop where
  begins : ("---" : Text) <+: line
  chars : ∀ c ∈ line, isTitleChar c = true ∨ c = '-'
  last : line.getLast? = some ('-' : CodePoint)
  tight : line.IsChain fun c d : CodePoint => c = ' ' → d ≠ '-'
  free : ∀ w ∈ loudWords, ¬Text.ofString w <:+: line

section Titles
variable {title t u x y : Text} {c d : CodePoint} {lead : String} {R : CodePoint → CodePoint → Prop}

/-- What does not have the character at a border is on one side of it. -/
theorem infix_or_infix_of_not_mem (hc : c ∉ u) (h : u <:+: x ++ c :: y) : u <:+: x ∨ u <:+: y := by
  obtain ⟨v, w, h⟩ := h
  rcases List.append_eq_append_iff.1 h with ⟨z, rfl, -⟩ | ⟨z, hvu, hw⟩
  · exact Or.inl ⟨v, z, rfl⟩
  · cases z with
    | nil => exact Or.inl ⟨v, [], by simpa using hvu⟩
    | cons d z =>
      obtain ⟨rfl, rfl⟩ := List.cons.inj hw
      rcases List.append_eq_append_iff.1 hvu with ⟨q, -, hu⟩ | ⟨q, rfl, hq⟩
      · exact absurd (hu ▸ List.mem_append_right q List.mem_cons_self) hc
      · cases q with
        | nil =>
          rw [List.nil_append] at hq
          exact absurd (hq ▸ List.mem_cons_self) hc
        | cons e q =>
          obtain ⟨-, rfl⟩ := List.cons.inj hq
          exact Or.inr ⟨q, w, rfl⟩

theorem ne_dash_of_isTitleChar (h : isTitleChar c = true) : c ≠ '-' := by
  rintro rfl
  cases h

theorem Title.exists_cons (h : Title title) : ∃ c u, title = c :: u ∧ isTitleChar c = true := by
  have hne : title ≠ [] := by
    rintro rfl
    exact absurd (List.suffix_nil.1 h.key) (by decide)
  obtain ⟨c, u, rfl⟩ := List.exists_cons_of_ne_nil hne
  exact ⟨c, u, rfl, h.chars c List.mem_cons_self⟩

theorem Title.getLast? (h : Title title) : title.getLast? = some ('Y' : CodePoint) := by
  obtain ⟨u, rfl⟩ := h.key
  rw [List.getLast?_append]
  rfl

private theorem isChain_of_forall {l : Text} (h : ∀ c ∈ l, ∀ d ∈ l, R c d) : l.IsChain R := by
  induction l with
  | nil => exact .nil
  | cons c l ih =>
    refine List.isChain_cons.2 ⟨fun d hd => ?_, ih fun c hc d hd => ?_⟩
    · exact h c List.mem_cons_self d (List.mem_cons_of_mem c (List.mem_of_mem_head? hd))
    · exact h c (List.mem_cons_of_mem _ hc) d (List.mem_cons_of_mem _ hd)

/-- What holds of all neighbours in the three parts of a line, and where they meet. -/
theorem Title.isChain (h : Title title) (hlead : (Text.ofString lead).IsChain R)
    (hfirst : ∀ c ∈ (Text.ofString lead).getLast?, ∀ d, isTitleChar d = true → R c d)
    (htitle : ∀ c d, isTitleChar c = true → isTitleChar d = true → R c d) (hlast : R 'Y' '-') (hdash : R '-' '-') :
    (keyLine lead title).IsChain R := by
  have hdashes : ("-----" : Text).IsChain R := isChain_of_forall fun c hc d hd => by
    have hall : ∀ c ∈ ("-----" : Text), c = '-' := by decide
    rw [hall c hc, hall d hd]
    exact hdash
  refine hlead.append ((isChain_of_forall fun c hc d hd => htitle c d (h.chars c hc) (h.chars d hd)).append hdashes ?_) ?_
  · intro c hc d hd
    rw [h.getLast?] at hc
    cases hc
    cases hd
    exact hlast
  · intro c hc d hd
    obtain ⟨e, u, htitle, he⟩ := h.exists_cons
    rw [htitle] at hd
    cases hd
    exact hfirst c hc d he

theorem Title.toKeyLine (h : Title title) (hlead : lead ∈ keyLeads) : KeyLine (keyLine lead title) := by
  simp only [keyLeads, List.mem_cons, List.not_mem_nil, or_false] at hlead
  have hfixed : ∀ lead ∈ keyLeads, ∀ c ∈ Text.ofString lead, isTitleChar c = true ∨ c = '-' := by decide
  constructor
  · rcases hlead with rfl | rfl
    · exact ⟨"--BEGIN " ++ (title ++ "-----"), rfl⟩
    · exact ⟨"--END " ++ (title ++ "-----"), rfl⟩
  · intro c hc
    rcases List.mem_append.1 hc with hc | hc
    · exact hfixed lead (by rcases hlead with rfl | rfl <;> decide) c hc
    · rcases List.mem_append.1 hc with hc | hc
      · exact Or.inl (h.chars c hc)
      · have hall : ∀ c ∈ ("-----" : Text), c = '-' := by decide
        exact Or.inr (hall c hc)
  · rw [keyLine, List.getLast?_append, List.getLast?_append]
    rfl
  · refine h.isChain ?_ (fun c _ d hd _ => ne_dash_of_isTitleChar hd) (fun c d _ hd _ => ne_dash_of_isTitleChar hd)
      (by decide) (by decide)
    rcases hlead with rfl | rfl <;> decide
  · intro w hw hinfix
    -- A word is in the line where it is in one of the parts.
    have hsigns : ∀ w ∈ loudWords, (' ' : CodePoint) ∉ Text.ofString w ∧ ('-' : CodePoint) ∉ Text.ofString w := by decide
    have hparts : ∀ w ∈ loudWords, ∀ part ∈ (["-----BEGIN", "-----END", "----"] : List String),
        ¬Text.ofString w <:+: Text.ofString part := by decide
    have htitle : ¬Text.ofString w <:+: title ++ "-----" := fun hinfix => by
      rcases infix_or_infix_of_not_mem (hsigns w hw).2 hinfix with hinfix | hinfix
      · exact h.free w hw hinfix
      · exact hparts w hw "----" (by decide) hinfix
    rcases hlead with rfl | rfl
    · have hline : keyLine "-----BEGIN " title = "-----BEGIN" ++ (' ' : CodePoint) :: (title ++ "-----") := rfl
      rw [hline] at hinfix
      exact (infix_or_infix_of_not_mem (hsigns w hw).1 hinfix).elim (hparts w hw "-----BEGIN" (by decide)) htitle
    · have hline : keyLine "-----END " title = "-----END" ++ (' ' : CodePoint) :: (title ++ "-----") := rfl
      rw [hline] at hinfix
      exact (infix_or_infix_of_not_mem (hsigns w hw).1 hinfix).elim (hparts w hw "-----END" (by decide)) htitle

end Titles

section Capitals
variable {l : Char} {letters : List Char} {c : CodePoint} {u : Text}

/-- A letter in such a line is a capital. -/
theorem eq_toUpper_of_fits (hl : Small l) (hc : isTitleChar c = true ∨ c = '-') (h : Fits l c) : c = ↑l.toUpper := by
  rw [fits_iff hl] at h
  obtain ⟨-, hupper, hle, hlt⟩ := hl
  simp only [CodePoint.isLetter, Bool.or_eq_true, Bool.and_eq_true, beq_iff_eq] at h
  have hval : c.val < 0x61 := by
    rcases hc with hc | rfl
    · simp only [isTitleChar, CodePoint.isUpper, Bool.or_eq_true, Bool.and_eq_true, decide_eq_true_eq] at hc
      rcases hc with hc | rfl
      · omega
      · decide
    · decide
  rw [eq_ofChar_iff]
  omega

theorem eq_map_toUpper (hl : SmallWord letters) (hu : ∀ c ∈ u, isTitleChar c = true ∨ c = '-')
    (h : List.Forall₂ Fits letters u) : u = letters.map fun l => CodePoint.ofChar l.toUpper := by
  induction h with
  | nil => rfl
  | cons hfirst _ ih =>
    rw [List.map_cons, eq_toUpper_of_fits (hl _ List.mem_cons_self) (hu _ List.mem_cons_self) hfirst,
      ih (fun l hm => hl l (List.mem_cons_of_mem _ hm)) fun c hm => hu c (List.mem_cons_of_mem _ hm)]

end Capitals

namespace KeyLine
variable {line r s t : Text} {w : String} {b : Option CodePoint}

section Reading
variable (h : KeyLine line) (hs : Solid line s)
include h hs

theorem getLast?_end : s.getLast? = some ('-' : CodePoint) := (getLast?_of_suffix hs.1 hs.2).trans h.last

/-- The next character in a line that is not white space is one of the line. -/
theorem skipSpace_append (t : Text) :
    ∃ c u, skipSpace (s ++ t) = c :: u ∧ (isTitleChar c = true ∨ c = '-') ∧ c.isSpace = false := by
  have hne : skipSpace s ≠ [] := dropWhile_ne_nil_of_last (h.getLast?_end hs) rfl
  obtain ⟨c, u, hcu⟩ := List.exists_cons_of_ne_nil hne
  have hall : skipSpace (s ++ t) = skipSpace s ++ t := by
    rw [skipSpace, List.dropWhile_append, if_neg (by simpa [skipSpace] using hne)]
    rfl
  have hhead := List.head?_dropWhile_not CodePoint.isSpace s
  have hskip : s.dropWhile CodePoint.isSpace = c :: u := hcu
  rw [hskip] at hhead
  refine ⟨c, u ++ t, by rw [hall, hcu]; rfl, h.chars c (hs.1.mem ?_), hhead⟩
  exact (suffix_skipSpace s).mem (hcu ▸ List.mem_cons_self)

/-- A word in the line ends before its last dash. -/
theorem rest_of_word? (hw : Unfit w.toList '-') (hr : word? w.toList s = some r) : Solid line r := by
  refine ⟨(suffix_word? hr).trans hs.1, ?_⟩
  rintro rfl
  cases getLast?_of_word? hw (h.getLast?_end hs) hr

theorem word?_append (ht : Blocks t) (hword : w ∈ words) (hw : Unfit w.toList '-') (hr : word? w.toList (s ++ t) = some r) :
    ∃ q, r = q ++ t ∧ q <:+ s ∧ Solid line q := by
  rw [ht.word?_append hword] at hr
  obtain ⟨q, hq, rfl⟩ := Option.map_eq_some_iff.1 hr
  exact ⟨q, rfl, suffix_word? hq, h.rest_of_word? hs hw hq⟩

/-- A word that is not in the line, in capitals, is not read in it. -/
theorem word?_eq_none (ht : Blocks t) (hword : w ∈ words) (hsmall : SmallWord w.toList)
    (hfree : ¬(w.toList.map fun l => CodePoint.ofChar l.toUpper) <:+: line) : word? w.toList (s ++ t) = none := by
  rw [ht.word?_append hword, Option.map_eq_none_iff, Option.eq_none_iff_forall_ne_some]
  intro r hr
  obtain ⟨u, hu, rfl⟩ := word?_eq_some.1 hr
  have hcapitals := eq_map_toUpper hsmall (fun c hc => h.chars c (hs.1.mem (List.mem_append_left r hc))) hu
  refine hfree ?_
  rw [← hcapitals]
  exact (List.infix_append' [] u r).trans hs.1.isInfix

theorem optionName?_eq_none (hw : w = "--password" ∨ w = "-p") (t : Text) : optionName? w (s ++ t) = none := by
  obtain ⟨c, u, rfl⟩ := List.exists_cons_of_ne_nil hs.2
  by_cases hc : c.isSpace = true
  · have hspace : c = ' ' := by
      rcases h.chars c (hs.1.mem List.mem_cons_self) with hchar | rfl
      · simp only [isTitleChar, CodePoint.isUpper, Bool.or_eq_true, Bool.and_eq_true, decide_eq_true_eq] at hchar
        refine hchar.resolve_left fun hupper => ?_
        simp only [CodePoint.isSpace, Bool.or_eq_true, Bool.and_eq_true, decide_eq_true_eq, beq_iff_eq] at hc
        omega
      · cases hc
    subst hspace
    have hlast := h.getLast?_end hs
    cases u with
    | nil => cases hlast
    | cons d u =>
      have hd : d ≠ '-' := (List.isChain_cons_cons.1 (h.tight.suffix hs.1)).1 rfl
      have hfits : ¬Fits '-' d := fun hfits => hd (of_decide_eq_true hfits)
      rcases hw with rfl | rfl
      · exact word?_of_not_fits hfits
      · exact word?_of_not_fits hfits
  · exact optionName?_of_not_isSpace (Bool.not_eq_true _ ▸ hc)

theorem registryPipe?_eq_none (t : Text) : registryPipe? (s ++ t) = none := by
  obtain ⟨c, u, hcu, hchar, -⟩ := h.skipSpace_append hs t
  refine registryPipe?_of_skipSpace ?_
  rw [hcu]
  intro d hd
  cases hd
  rintro rfl
  rcases hchar with hchar | hchar <;> cases hchar

theorem shortOption?_eq_none (t : Text) : shortOption? (s ++ t) = none := by
  rw [shortOption?_eq, opening, h.optionName?_eq_none hs (Or.inr rfl)]
  rfl

theorem printer?_eq_none (ht : Blocks t) : printer? (s ++ t) = none := by
  have hecho : word? "echo".toList (s ++ t) = none :=
    h.word?_eq_none hs ht (by decide) (small_of_mem "echo" (by decide)) (h.free "ECHO" (by decide))
  rw [printer?_eq, hecho, Option.none_or, Option.bind_eq_none_iff]
  intro q hq
  obtain ⟨r, hr, hspace⟩ := Option.bind_eq_some_iff.1 hq
  obtain ⟨r, rfl, -, hsolid⟩ := h.word?_append hs ht (by decide) (by decide) hr
  -- The printed text is in quotes, which are not in the line.
  have hskip : q = skipSpace (r ++ t) := by
    obtain ⟨c, u, rfl⟩ := List.exists_cons_of_ne_nil hsolid.2
    obtain ⟨hc, hspace⟩ := Option.ite_none_right_eq_some.1 hspace
    cases hspace
    exact (List.dropWhile_cons_of_pos hc).symm
  obtain ⟨c, u, hcu, hchar, -⟩ := h.skipSpace_append hsolid t
  rw [hskip, hcu]
  refine word?_of_not_fits fun hfits => ?_
  have hquote : c = '\'' := of_decide_eq_true hfits
  subst hquote
  rcases hchar with hchar | hchar <;> cases hchar

theorem schemeName?_eq_none (ht : Blocks t) : schemeName? (s ++ t) = none := by
  have hbearer : word? "bearer".toList (s ++ t) = none :=
    h.word?_eq_none hs ht (by decide) (by decide) (h.free "BEARER" (by decide))
  have hbasic : word? "basic".toList (s ++ t) = none :=
    h.word?_eq_none hs ht (by decide) (by decide) (h.free "BASIC" (by decide))
  rw [schemeName?, hbearer, hbasic]
  rfl

theorem payload?_eq_none (t : Text) : payload? (s ++ t) = none := by
  have hliteral : literal? "encrypted:" (s ++ t) = none := by
    rw [Option.eq_none_iff_forall_ne_some]
    intro r hr
    obtain ⟨c, u, rfl⟩ := List.exists_cons_of_ne_nil hs.2
    have htext : c :: u ++ t = ("encrypted:" : Text) ++ r := Text.dropPrefix?_eq_some.1 hr
    have hc : c = 'e' := (List.cons.inj htext).1
    subst hc
    rcases h.chars 'e' (hs.1.mem List.mem_cons_self) with hchar | hchar <;> cases hchar
  rw [payload?, hliteral]
  rfl

/-- The name of a secret in the line ends before its last dash. -/
theorem rest_of_secretName? (hr : secretName? s = some r) : Solid line r := by
  have hjoined : ∀ first second : String, Unfit first.toList '-' → Unfit second.toList '-' → word? second.toList [] = none →
      ∀ r, joined? first second s = some r → Solid line r := by
    intro first second hfirst hsecond hnil r hr
    obtain ⟨q, hq, hr⟩ := Option.bind_eq_some_iff.1 hr
    have hsolid := h.rest_of_word? hs hfirst hq
    refine h.rest_of_word? ⟨(suffix_skipJoint q).trans hsolid.1, ?_⟩ hsecond hr
    intro hjoint
    rw [hjoint, hnil] at hr
    cases hr
  rw [secretName?_eq] at hr
  obtain ⟨f, hf, hr⟩ := List.exists_of_findSome?_eq_some hr
  simp only [nameReaders, List.mem_cons, List.not_mem_nil, or_false] at hf
  rcases hf with rfl | rfl | rfl | rfl | rfl | rfl | rfl
  · exact hjoined "api" "key" (by decide) (by decide) rfl r hr
  · exact h.rest_of_word? hs (w := "secret") (by decide) hr
  · exact h.rest_of_word? hs (w := "password") (by decide) hr
  · exact h.rest_of_word? hs (w := "passwd") (by decide) hr
  · exact h.rest_of_word? hs (w := "passphrase") (by decide) hr
  · exact hjoined "master" "key" (by decide) (by decide) rfl r hr
  · exact h.rest_of_word? hs (w := "token") (by decide) hr

private theorem valueSign?_eq_none (ht : Blocks t) {n : Text} (hn : secretName? (s ++ t) = some n) :
    valueSign? (skipSpace n) = none := by
  rw [ht.secretName?_append] at hn
  obtain ⟨r, hr, rfl⟩ := Option.map_eq_some_iff.1 hn
  obtain ⟨c, u, hcu, hchar, -⟩ := h.skipSpace_append (h.rest_of_secretName? hs hr) t
  rw [hcu]
  refine if_neg ?_
  rintro (rfl | rfl) <;> rcases hchar with hchar | hchar <;> cases hchar

/-- A login in the line looks for an option behind the line, and leaves what is before it as it is. -/
theorem openedLogin_append (ht : Blocks t) : openedLogin (s ++ t) = none ∨
    ∃ u n r, seek? isCommandChar shortOption? t = some (u, n, r) ∧
      openedLogin (s ++ t) = some ⟨s ++ (upTo t n ++ " " ++ mark), r⟩ := by
  cases hlogin : loginWord? (s ++ t) with
  | none =>
    left
    rw [openedLogin, hlogin]
    rfl
  | some after =>
    obtain ⟨q, rfl, -, hsolid⟩ := h.word?_append hs (w := "login") ht (by decide) (by decide)
      (Option.filter_eq_some_iff.1 hlogin).1
    have hall : q.all isCommandChar = true := by
      rw [List.all_eq_true]
      intro c hc
      have hsigns : ∀ d ∈ ("|;&\n" : Text), ¬(isTitleChar d = true ∨ d = '-') := by decide
      have hne : ∀ d ∈ ("|;&\n" : Text), c ≠ d := by
        rintro d hd rfl
        exact hsigns c hd (h.chars c (hsolid.1.mem hc))
      simp [isCommandChar, hne '|' (by decide), hne ';' (by decide), hne '&' (by decide), hne '\n' (by decide)]
    have hseek : seek? isCommandChar shortOption? (q ++ t) = seek? isCommandChar shortOption? t := by
      rw [seek?_append_of_none fun u hu hne => h.shortOption?_eq_none ⟨hu.trans hsolid.1, hne⟩ t, if_pos hall]
    rw [openedLogin_of_login hlogin, hseek]
    cases hfound : seek? isCommandChar shortOption? t with
    | none => exact Or.inl rfl
    | some m =>
      obtain ⟨u, n, r⟩ := m
      obtain ⟨v, rfl⟩ := (suffix_of_seek hfound).1
      refine Or.inr ⟨u, n, r, rfl, ?_⟩
      rw [Option.map_some, upTo_append, ← List.append_assoc s v n, upTo_append, List.append_assoc, List.append_assoc,
        List.append_assoc]

end Reading

/-- At each place of the line, a rule before the one for private keys finds nothing, or an option behind the line. -/
theorem rule_append (h : KeyLine line) (hs : Solid line s) (ht : Blocks t) {p : Pattern} (hp : p ∈ earlierRules)
    (b : Option CodePoint) : p b (s ++ t) = none ∨ ∃ u n r, seek? isCommandChar shortOption? t = some (u, n, r) ∧
      p b (s ++ t) = some ⟨s ++ (upTo t n ++ " " ++ mark), r⟩ := by
  simp only [earlierRules, List.mem_cons, List.not_mem_nil, or_false] at hp
  rcases hp with rfl | rfl | rfl | rfl | rfl | rfl
  · left
    rw [pipedSecret_eq, bounded, opened, opening, h.printer?_eq_none hs ht]
    exact ite_self none
  · left
    rw [passwordOption_eq]
    dsimp only
    rw [opened, opening, h.optionName?_eq_none hs (Or.inl rfl)]
    rfl
  · rw [loginOption_eq, bounded]
    split
    · exact h.openedLogin_append hs ht
    · exact Or.inl rfl
  · left
    rw [encryptedPayload_eq]
    dsimp only
    rw [h.payload?_eq_none hs]
    rfl
  · exact Or.inl (namedSecret_eq_none (fun n hn => h.valueSign?_eq_none hs ht hn) b)
  · left
    rw [authorization_eq, bounded, opened, opening, h.schemeName?_eq_none hs ht]
    exact ite_self none

/-- A line with no option behind it is missed. -/
theorem misses (h : KeyLine line) (ht : Blocks t) (hoption : seek? isCommandChar shortOption? t = none) {p : Pattern}
    (hp : p ∈ earlierRules) (b : Option CodePoint) : Misses p b line t := by
  intro u s hline hs
  refine (h.rule_append ⟨⟨u, hline.symm⟩, hs⟩ ht hp _).resolve_right ?_
  rintro ⟨v, n, r, hfound, -⟩
  rw [hoption] at hfound
  cases hfound

end KeyLine

/-- A text within which matches keep what they begin with is kept. -/
theorem substitute_keeps {p : Pattern} {t x : Text} (hk : KeepsStart p) (h : ∀ b s, Solid x s → p b (s ++ t) = none ∨
      ∃ o r, p b (s ++ t) = some ⟨s ++ o, r⟩ ∧ ∀ z, SameStart t (o ++ z)) (b : Option CodePoint) :
    ∃ t', SameStart t t' ∧ substitute p b 0 (x ++ t) = x ++ t' := by
  induction x generalizing b with
  | nil => exact ⟨substitute p b 0 t, hk.sameStart b t, rfl⟩
  | cons c x ih =>
    rcases h b (c :: x) ⟨List.suffix_refl _, List.cons_ne_nil c x⟩ with hnone | ⟨o, r, hsome, hstart⟩
    · obtain ⟨t', hstart, ht'⟩ := ih (fun b s hs => h b s ⟨hs.1.trans (List.suffix_cons c x), hs.2⟩) (some c)
      rw [List.cons_append] at hnone ⊢
      exact ⟨t', hstart, by rw [substitute_of_none hnone, ht', List.cons_append]⟩
    · rw [List.cons_append] at hsome ⊢
      rw [substitute, hsome]
      dsimp only
      exact ⟨_, hstart _, by rw [List.append_assoc]⟩

theorem KeyLine.keeps {line t : Text} (h : KeyLine line) (ht : Blocks t) {p : Pattern} (hp : p ∈ earlierRules)
    (hk : KeepsStart p) (b : Option CodePoint) : ∃ t', SameStart t t' ∧ substitute p b 0 (line ++ t) = line ++ t' := by
  refine substitute_keeps hk (fun b s hs => (h.rule_append hs ht hp b).imp_right ?_) b
  rintro ⟨u, n, r, hfound, hsome⟩
  obtain ⟨y, -, hstart⟩ := upTo_of_seek hfound
  refine ⟨_, r, hsome, fun z => ?_⟩
  rw [List.append_assoc, List.append_assoc]
  exact hstart _

end Custody.Redaction
