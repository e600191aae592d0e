import Custody.Audit.Reports
import Custody.Proofs.Docker.Redacted
import Custody.Proofs.Redaction.Options
import Mathlib.Data.List.Infix

/-! Passwords that a command is given as the value of an option, quoted for the shell. A password is masked whole
exactly when the rules take it for one word, and not for the name of a command that prints. -/
namespace Custody.Redaction

/-- What can be a password: it is no option, it is on one line, and it has no pipe in it. -/
structure Password (w : Text) : Prop where
  nonempty : w ≠ []
  value : w.head? ≠ some ('-' : CodePoint)
  line : ('\n' : CodePoint) ∉ w
  pipe : ('|' : CodePoint) ∉ w

def IsPrinter (name : Text) : Prop := List.Forall₂ Fits "echo".toList name ∨ List.Forall₂ Fits "printf".toList name

/-- A text whose last word is the name of a command that prints. -/
def EndsInPrinter (t : Text) : Prop :=
  ∃ u name, t = u ++ name ∧ u.getLast?.any CodePoint.isWord = false ∧ IsPrinter name

/-- A password that is one word for the rules when it is quoted, and that could not be a command. -/
structure Compact (w : Text) : Prop where
  unbroken : ∀ c ∈ w, c.isSpace = false
  quiet : ¬EndsInPrinter (Shell.quote w)

/-- What may be between an option and its value. -/
def ways : List Text := [" ", "="]

def optionWith (way value : Text) : Text := " --password" ++ (way ++ value)

def commandWith (pre way password post : Text) : Text := pre ++ (optionWith way (Shell.quote password) ++ post)

/-- Two passwords that are not told apart in any command once it has been redacted, or recorded. -/
def Indistinct (w w' : Text) : Prop := ∀ way ∈ ways, ∀ pre post : Text, (∀ c ∈ post.head?, c = ' ') →
  redact (commandWith pre way w post) = redact (commandWith pre way w' post) ∧
    ∀ user remote success, Audit.Report.commandExecution (commandWith pre way w post) user remote success =
      Audit.Report.commandExecution (commandWith pre way w' post) user remote success

section Quoting
variable {w : Text} {c : CodePoint}

theorem mem_quote (hne : w ≠ []) (h : c ∈ Shell.quote w) : c ∈ w ∨ c = '\'' ∨ c = '"' := by
  have hquotes : ∀ d ∈ Text.ofString "'\"'\"'", d = '\'' ∨ d = '"' := by decide
  rw [Shell.quote, if_neg hne] at h
  split at h
  · exact Or.inl h
  · simp only [List.mem_append, List.mem_flatMap] at h
    rcases h with (h | ⟨d, hd, hc⟩) | h
    · exact Or.inr (Or.inl (List.mem_singleton.1 h))
    · rcases Docker.quotedPoint_cases d with ⟨-, hquoted⟩ | ⟨-, hquoted⟩
      · exact Or.inr (hquotes c (hquoted ▸ hc))
      · rw [hquoted, List.mem_singleton] at hc
        exact Or.inl (hc ▸ hd)
    · exact Or.inr (Or.inl (List.mem_singleton.1 h))

theorem subset_quote (hc : c ∈ w) : c ∈ Shell.quote w := by
  have hne : w ≠ [] := List.ne_nil_of_mem hc
  rw [Shell.quote, if_neg hne]
  split
  · exact hc
  · refine List.mem_append_left _ (List.mem_append_right _ (List.mem_flatMap.2 ⟨c, hc, ?_⟩))
    rcases Docker.quotedPoint_cases c with ⟨rfl, hquoted⟩ | ⟨-, hquoted⟩
    · rw [hquoted]
      decide
    · rw [hquoted]
      exact List.mem_singleton_self c

/-- A password that needs quotes ends in one. -/
theorem getLast?_quote (hne : w ≠ []) (h : w.all Shell.isPlain = false) :
    (Shell.quote w).getLast? = some ('\'' : CodePoint) := by
  rw [Shell.quote, if_neg hne, h]
  exact List.getLast?_concat

theorem head?_quote (hne : w ≠ []) :
    (Shell.quote w).head? = w.head? ∨ (Shell.quote w).head? = some ('\'' : CodePoint) := by
  rw [Shell.quote, if_neg hne]
  split
  · exact Or.inl rfl
  · exact Or.inr rfl

end Quoting

section Printers
variable {c : CodePoint} {l : Char} {name n q s t u post : Text} {way : Text}

/-- The characters that stand for a letter are word characters, beyond ASCII too. -/
theorem isWord_of_fits (hl : Small l) (h : Fits l c) : c.isWord = true := by
  by_cases hc : c.isAsciiAlnum = true
  · exact isWord_of_alnum hc
  · rw [fits_iff hl] at h
    obtain ⟨-, hupper, hlow, hhigh⟩ := hl
    simp only [CodePoint.isLetter, Bool.or_eq_true, Bool.and_eq_true, beq_iff_eq] at h
    simp only [CodePoint.isAsciiAlnum, CodePoint.isDigit, CodePoint.isUpper, CodePoint.isLower, Bool.or_eq_true,
      Bool.and_eq_true, decide_eq_true_eq] at hc
    have hwords : ∀ v ∈ [0x130, 0x131, 0x17F, 0x212A], Text.inRanges v Text.wordRanges = true := by decide +kernel
    have hspecial : c.val ∈ [0x130, 0x131, 0x17F, 0x212A] := by
      simp only [List.mem_cons, List.not_mem_nil, or_false]
      omega
    have hbeyond : ¬c.val < 0x80 := by
      simp only [List.mem_cons, List.not_mem_nil, or_false] at hspecial
      omega
    rw [CodePoint.isWord, if_neg hbeyond]
    exact hwords c.val hspecial

private theorem isWord_of_forall₂ {letters : List Char} (hl : SmallWord letters)
    (h : List.Forall₂ Fits letters name) :
    ∀ c ∈ name, c.isWord = true := by
  intro c hc
  induction h with
  | nil => cases hc
  | cons hfirst _ ih =>
    rcases List.mem_cons.1 hc with rfl | hc
    · exact isWord_of_fits (hl _ List.mem_cons_self) hfirst
    · exact ih (fun l hl' => hl l (List.mem_cons_of_mem _ hl')) hc

theorem IsPrinter.isWord (h : IsPrinter name) : ∀ c ∈ name, c.isWord = true := by
  rcases h with h | h
  · exact isWord_of_forall₂ (small_of_mem "echo" (by decide)) h
  · exact isWord_of_forall₂ (small_of_mem "printf" (by decide)) h

theorem IsPrinter.ne_nil (h : IsPrinter name) : name ≠ [] := by
  rintro rfl
  rcases h with h | h <;> cases h

/-- A word before white space is read as a whole. -/
theorem fits_of_word? {w : String} (hw : w ∈ words) (hs : ∀ c ∈ s, c.isSpace = false) (hpost : Blocks post)
    (hread : word? w.toList (s ++ post) = some n) (hspace : space? n ≠ none) : List.Forall₂ Fits w.toList s := by
  rw [hpost.word?_append hw] at hread
  obtain ⟨r, hr, rfl⟩ := Option.map_eq_some_iff.1 hread
  obtain ⟨u, hu, rfl⟩ := word?_eq_some.1 hr
  cases r with
  | nil => rwa [List.append_nil]
  | cons c r =>
    have hc : c.isSpace = false := hs c (List.mem_append_right u List.mem_cons_self)
    exact absurd (if_neg (by rw [hc]; exact Bool.false_ne_true)) hspace

private theorem isPrinter_of_printer? (hs : ∀ c ∈ s, c.isSpace = false) (hpost : Blocks post)
    (hread : printer? (s ++ post) = some n) (hspace : space? n ≠ none) : IsPrinter s := by
  rw [printer?_eq, Option.or_eq_some_iff] at hread
  rcases hread with hecho | ⟨-, hprintf⟩
  · exact Or.inl (fits_of_word? (w := "echo") (by decide) hs hpost hecho hspace)
  · obtain ⟨r, hr, -⟩ := Option.bind_eq_some_iff.1 hprintf
    obtain ⟨m, hm, hr⟩ := Option.bind_eq_some_iff.1 hr
    exact Or.inr (fits_of_word? (w := "printf") (by decide) hs hpost hm (hr ▸ Option.some_ne_none r))

/-- No command that prints begins in the name of the option. -/
theorem printer?_option (hway : way ∈ ways) (hs : s <:+ " --password" ++ way) (hne : s ≠ []) (t : Text) :
    printer? (s ++ t) = none := by
  have hread : ∀ way ∈ ways, ∀ s ∈ (" --password" ++ way).tails, s ≠ [] →
      word? "echo".toList s = none ∧ word? "printf".toList s = none ∧
        ∃ e ∈ s.getLast?, Unfit "echo".toList e ∧ Unfit "printf".toList e := by decide
  obtain ⟨hecho, hprintf, e, he, he', he''⟩ := hread way hway s ((List.mem_tails ..).2 hs) hne
  obtain ⟨u, rfl⟩ := List.getLast?_eq_some_iff.1 he
  rw [printer?_eq, word?_append_of_last he', hecho, word?_append_of_last he'', hprintf]
  rfl

/-- What is printed behind an option with a value in one piece is printed by the end of the value. -/
theorem suffix_of_printer? (hway : way ∈ ways) (hq : ∀ c ∈ q, c.isSpace = false) (hpost : Blocks post)
    (hs : s <:+ optionWith way q) (hne : s ≠ []) (hread : printer? (s ++ post) = some n) (hspace : space? n ≠ none) :
    s <:+ q ∧ IsPrinter s := by
  rw [optionWith, ← List.append_assoc] at hs
  rcases List.suffix_or_suffix_of_suffix hs (List.suffix_append _ q) with hsq | ⟨v, rfl⟩
  · exact ⟨hsq, isPrinter_of_printer? (fun c hc => hq c (hsq.mem hc)) hpost hread hspace⟩
  · by_cases hv : v = []
    · subst hv
      exact ⟨List.suffix_refl q, isPrinter_of_printer? hq hpost hread hspace⟩
    · have hvs : v <:+ " --password" ++ way := by
        obtain ⟨x, hx⟩ := hs
        exact ⟨x, List.append_cancel_right ((List.append_assoc x v q).trans hx)⟩
      rw [List.append_assoc, printer?_option hway hvs hv] at hread
      cases hread

theorem IsPrinter.isBoundary_append (h : IsPrinter name) (b : Option CodePoint) (post : Text) :
    isBoundary b (name ++ post) = !b.any CodePoint.isWord := by
  obtain ⟨c, name, rfl⟩ := List.exists_cons_of_ne_nil h.ne_nil
  have hc : c.isWord = true := h.isWord c List.mem_cons_self
  rw [isBoundary, List.cons_append, List.head?_cons, Option.any_some, hc, Bool.bne_true]

/-- The rule for printed secrets finds nothing in an option whose value does not end in such a command. -/
theorem misses_of_quiet (hway : way ∈ ways) (hq : ∀ c ∈ q, c.isSpace = false)
    (hquiet : ¬EndsInPrinter q) (hpost : Blocks post) (b : Option CodePoint) :
    Misses pipedSecret b (optionWith way q) post := by
  intro u s hu hs
  rw [pipedSecret_eq, bounded]
  split
  · next hb =>
    by_contra hfound
    obtain ⟨m, hm⟩ := Option.ne_none_iff_exists'.1 hfound
    obtain ⟨n, v, hname, hspace, -⟩ := opened_eq_some.1 hm
    obtain ⟨⟨x, rfl⟩, hprinter⟩ :=
      suffix_of_printer? hway hq hpost ⟨u, hu.symm⟩ hs hname (hspace ▸ Option.some_ne_none v)
    refine hquiet ⟨x, s, rfl, ?_, hprinter⟩
    rw [hprinter.isBoundary_append, Bool.not_eq_true'] at hb
    have hux : u = " --password" ++ way ++ x := by
      refine List.append_cancel_right (hu.symm.trans ?_)
      rw [optionWith]
      simp only [List.append_assoc]
    cases hx : x.getLast? with
    | none => rfl
    | some e => rwa [hux, List.getLast?_append, hx] at hb
  · rfl

end Printers

section Values
variable {way q post w : Text}

def maskedOption : Text := " --password" ++ " " ++ mark

theorem optionWith_append (way q post : Text) : optionWith way q ++ post = optionWith way (q ++ post) := by
  rw [optionWith, optionWith, List.append_assoc, List.append_assoc]

/-- The option is masked together with what is taken for its value. -/
theorem passwordOption_optionWith {v r : Text} (hway : way ∈ ways) (hv : Starts v)
    (hvalue : optionValue? v = some r) (b : Option CodePoint) :
    passwordOption b (optionWith way v) = some ⟨maskedOption, r⟩ := by
  have hname : optionName? "--password" (optionWith way v) = some (way ++ v) := rfl
  have hskip : skipSpace v = v := skipSpace_append hv []
  have hoption : optionWay? (way ++ v) = some v := by
    simp only [ways, List.mem_cons, List.not_mem_nil, or_false] at hway
    rcases hway with rfl | rfl
    · exact congrArg some hskip
    · rfl
  rw [passwordOption_eq]
  refine opened_eq_some.2 ⟨way ++ v, v, hname, hoption, hvalue, ?_⟩
  rw [optionWith, upTo_append]
  rfl

/-- A value in one piece is masked whole. -/
theorem substitute_passwordOption_optionWith (hway : way ∈ ways) (hne : q ≠ [])
    (hdash : q.head? ≠ some ('-' : CodePoint)) (hq : ∀ c ∈ q, c.isSpace = false) (hpost : Blocks post)
    (b : Option CodePoint) :
    substitute passwordOption b 0 (optionWith way q ++ post) = maskedOption ++ substitute passwordOption none 0 post := by
  have hstarts : Starts (q ++ post) := by
    obtain ⟨c, q, rfl⟩ := List.exists_cons_of_ne_nil hne
    exact hq c List.mem_cons_self
  have hmatch := passwordOption_optionWith hway hstarts (optionValue?_append hne hdash hq hpost) b
  rw [← optionWith_append] at hmatch
  have hfound : passwordOption b ((' ' : CodePoint) :: (Text.ofString "--password" ++ (way ++ q)) ++ post) =
      some ⟨maskedOption, post⟩ := hmatch
  exact (substitute_of_some hfound).trans (congrArg (maskedOption ++ ·) (substitute_passwordOption _ _ post))

def laterRules : List Pattern := [loginOption, encryptedPayload, namedSecret, authorization, privateKey]

theorem redact_eq (t : Text) : redact t = laterRules.foldl (fun t p => substitute p none 0 t)
    (substitute passwordOption none 0 (substitute pipedSecret none 0 t)) := rfl

variable (hw : Password w)
include hw

theorem Password.quote_ne_nil : Shell.quote w ≠ [] := by
  obtain ⟨c, hc⟩ := List.exists_mem_of_ne_nil w hw.nonempty
  exact List.ne_nil_of_mem (subset_quote hc)

theorem Password.quote_value : (Shell.quote w).head? ≠ some ('-' : CodePoint) := by
  rcases head?_quote hw.nonempty with h | h
  · rw [h]
    exact hw.value
  · rw [h]
    decide

theorem Password.quote_unbroken (h : ∀ c ∈ w, c.isSpace = false) : ∀ c ∈ Shell.quote w, c.isSpace = false := by
  intro c hc
  rcases mem_quote hw.nonempty hc with hc | rfl | rfl
  · exact h c hc
  · rfl
  · rfl

theorem Password.not_mem_option (hway : way ∈ ways) {c : CodePoint} (hc : c ∉ w)
    (hfixed : c = '\n' ∨ c = '|') : c ∉ optionWith way (Shell.quote w) := by
  have hnone : ∀ c ∈ (['\n', '|'] : List CodePoint), ∀ way ∈ ways,
      c ∉ (" --password" ++ way : Text) ∧ c ≠ '\'' ∧ c ≠ '"' := by decide
  obtain ⟨hlead, hsingle, hdouble⟩ := hnone c (by simpa using hfixed) way hway
  rw [optionWith, ← List.append_assoc, List.mem_append]
  rintro (hmem | hmem)
  · exact hlead hmem
  · rcases mem_quote hw.nonempty hmem with hmem | rfl | rfl
    · exact hc hmem
    · exact hsingle rfl
    · exact hdouble rfl

theorem Password.quiet_option (hway : way ∈ ways) (h : Compact w) :
    Quiet (optionWith way (Shell.quote w)) where
  leads := ⟨_, rfl⟩
  closed := by
    obtain ⟨u, e, hq⟩ : ∃ u e, Shell.quote w = u ++ [e] := ⟨_, _, (List.dropLast_append_getLast hw.quote_ne_nil).symm⟩
    refine ⟨e, ?_, hw.quote_unbroken h.unbroken e (hq ▸ List.mem_append_right u List.mem_cons_self)⟩
    rw [optionWith, hq, ← List.append_assoc, ← List.append_assoc]
    exact List.getLast?_concat
  line := hw.not_mem_option hway hw.line (Or.inl rfl)
  pipe := hw.not_mem_option hway hw.pipe (Or.inr rfl)
  silent b post hpost := misses_of_quiet hway (hw.quote_unbroken h.unbroken) h.quiet hpost b

omit hw in
/-- Nothing is left of a compact password, whatever the command. -/
theorem hides_compact (hway : way ∈ ways) (pre : Text) (hpost : Blocks post) :
    Hides (fun w => Password w ∧ Compact w) fun w => redact (commandWith pre way w post) := by
  rcases hides_or_keeps_option hpost pre with ⟨z, hz⟩ | ⟨a, post', hpost', hkeeps⟩
  · refine ⟨laterRules.foldl (fun t p => substitute p none 0 t) (substitute passwordOption none 0 z),
      fun w hcompact => ?_⟩
    obtain ⟨hw, h⟩ := hcompact
    have hpiped := hz _ (hw.quiet_option hway h)
    dsimp only at hpiped ⊢
    rw [redact_eq, commandWith, hpiped]
  · refine ⟨laterRules.foldl (fun t p => substitute p none 0 t) (substitute passwordOption none 0 a ++
      (maskedOption ++ substitute passwordOption none 0 post')), fun w hcompact => ?_⟩
    obtain ⟨hw, h⟩ := hcompact
    have hquiet := hw.quiet_option hway h
    dsimp only
    rw [redact_eq, commandWith, hkeeps _ hquiet, (hquiet.leads_append post').substitute_passwordOption_append,
      substitute_passwordOption_optionWith hway hw.quote_ne_nil hw.quote_value (hw.quote_unbroken h.unbroken) hpost']

end Values

section Converse
variable {w q r s t post : Text} {p : Pattern} {b : Option CodePoint}

theorem secretName?_eq_none (h : ∀ w ∈ ["api", "secret", "password", "passwd", "passphrase", "master", "token"],
    word? w.toList t = none) : secretName? t = none := by
  have hjoined : ∀ first second : String, word? first.toList t = none → joined? first second t = none := by
    intro first second hfirst
    rw [joined?, hfirst]
    rfl
  rw [secretName?_eq, List.findSome?_eq_none_iff]
  intro f hf
  simp only [nameReaders, List.mem_cons, List.not_mem_nil, or_false] at hf
  rcases hf with rfl | rfl | rfl | rfl | rfl | rfl | rfl
  · exact hjoined _ _ (h "api" (by decide))
  · exact h "secret" (by decide)
  · exact h "password" (by decide)
  · exact h "passwd" (by decide)
  · exact h "passphrase" (by decide)
  · exact hjoined _ _ (h "master" (by decide))
  · exact h "token" (by decide)

/-- None of the later rules begins to read here. -/
structure Unread (t : Text) : Prop where
  login : loginWord? t = none
  payload : payload? t = none
  value : namedValue? t = none
  scheme : schemeName? t = none
  key : keyLine? "-----BEGIN " t = none

theorem Unread.eq_none (h : Unread t) (hp : p ∈ laterRules) (b : Option CodePoint) : p b t = none := by
  have hbounded : ∀ f : Text → Option Found, f t = none → bounded f b t = none := by
    intro f hf
    rw [bounded, hf]
    split <;> rfl
  simp only [laterRules, List.mem_cons, List.not_mem_nil, or_false] at hp
  rcases hp with rfl | rfl | rfl | rfl | rfl
  · rw [loginOption_eq]
    exact hbounded _ (by rw [openedLogin, h.login]; rfl)
  · rw [encryptedPayload_eq]
    dsimp only
    rw [h.payload]
    rfl
  · rw [namedSecret_eq]
    dsimp only
    rw [opened_eq_bind, h.value]
    rfl
  · rw [authorization_eq]
    exact hbounded _ (by rw [opened_eq_bind, h.scheme]; rfl)
  · rw [privateKey, h.key]
    rfl

/-- The later rules read nothing in the mark of an option, and nothing that begins in it. -/
theorem unread_maskedOption (hs : s <:+ maskedOption) (hne : s ≠ []) (t : Text) : Unread (s ++ t) := by
  have hread : ∀ s ∈ maskedOption.tails, s ≠ [] → (∀ w ∈ ["login", "bearer", "basic"], word? w.toList s = none) ∧
      literal? "encrypted:" s = none ∧ literal? "-----BEGIN " s = none ∧ (s = "password [REDACTED]" ∨
        ∀ w ∈ ["api", "secret", "password", "passwd", "passphrase", "master", "token"], word? w.toList s = none) := by
    decide
  obtain ⟨hwords, hpayload, hkey, hnames⟩ := hread s ((List.mem_tails ..).2 hs) hne
  have hlast : s.getLast? = some (']' : CodePoint) := (getLast?_of_suffix hs hne).trans rfl
  have hword : ∀ w : String, Unfit w.toList ']' → word? w.toList s = none → word? w.toList (s ++ t) = none := by
    intro w hunfit hnone
    obtain ⟨u, rfl⟩ := List.getLast?_eq_some_iff.1 hlast
    rw [word?_append_of_last hunfit, hnone]
    rfl
  constructor
  · rw [loginWord?, hword "login" (by decide) (hwords _ (by decide))]
    rfl
  · rw [payload?, literal?_append_of_last (by decide) hlast, hpayload]
    rfl
  · rw [namedValue?]
    rcases hnames with rfl | hnames
    · rfl
    · have hunfit : ∀ w ∈ ["api", "secret", "password", "passwd", "passphrase", "master", "token"],
          Unfit w.toList ']' := by decide
      rw [secretName?_eq_none fun w hw => hword w (hunfit w hw) (hnames w hw)]
      rfl
  · rw [schemeName?, hword "bearer" (by decide) (hwords _ (by decide)), hword "basic" (by decide) (hwords _ (by decide))]
    rfl
  · rw [keyLine?, literal?_append_of_last (by decide) hlast, hkey]
    rfl

private theorem isRule_of_mem_laterRules (hp : p ∈ laterRules) : IsRule p := by
  simp only [laterRules, List.mem_cons, List.not_mem_nil, or_false] at hp
  rcases hp with rfl | rfl | rfl | rfl | rfl
  · exact isRule_loginOption
  · exact isRule_encryptedPayload
  · exact isRule_namedSecret
  · exact isRule_authorization
  · exact isRule_privateKey

theorem IsRule.substitute_ne_nil (hp : IsRule p) (hr : r ≠ []) (b : Option CodePoint) : substitute p b 0 r ≠ [] := by
  obtain ⟨c, r, rfl⟩ := List.exists_cons_of_ne_nil hr
  cases hm : p b (c :: r) with
  | none =>
    rw [substitute_of_none hm]
    exact List.cons_ne_nil _ _
  | some m =>
    obtain ⟨u, gap, hout, -, -⟩ := hp.marks hm
    rw [substitute, hm]
    dsimp only
    rw [hout, List.append_assoc, List.append_assoc]
    exact List.append_ne_nil_of_right_ne_nil u (List.append_ne_nil_of_right_ne_nil gap (List.cons_ne_nil _ _))

/-- What is left of a value behind the mark of the option stays behind it. -/
theorem laterRules_maskedOption {ps : List Pattern} (hps : ∀ p ∈ ps, p ∈ laterRules) (hr : r ≠ []) :
    ∃ z, z ≠ [] ∧ ps.foldl (fun t p => substitute p none 0 t) (maskedOption ++ r) = maskedOption ++ z := by
  induction ps generalizing r with
  | nil => exact ⟨r, hr, rfl⟩
  | cons p ps ih =>
    have hp : p ∈ laterRules := hps p List.mem_cons_self
    have hmisses : Misses p none maskedOption r := fun u s hu hs => (unread_maskedOption ⟨u, hu.symm⟩ hs r).eq_none hp _
    have hrest := (isRule_of_mem_laterRules hp).substitute_ne_nil hr (maskedOption.getLast?.or none)
    obtain ⟨z, hz, heq⟩ := ih (fun q hq => hps q (List.mem_cons_of_mem p hq)) hrest
    refine ⟨z, hz, ?_⟩
    rw [List.foldl_cons, substitute_of_misses hmisses, heq]

private theorem pipedSecret_of_not_mem (h : ('|' : CodePoint) ∉ t) (b : Option CodePoint) :
    pipedSecret b t = none := by
  rw [pipedSecret_eq, bounded]
  split
  · by_contra hfound
    obtain ⟨m, hm⟩ := Option.ne_none_iff_exists'.1 hfound
    obtain ⟨n, v, hname, hspace, hpiped, -⟩ := opened_eq_some.1 hm
    obtain ⟨⟨s, q⟩, hseek, -⟩ := Option.map_eq_some_iff.1 hpiped
    obtain ⟨hs, hpipe⟩ := seek?_eq_some hseek
    obtain ⟨lead, m, rfl, -, ⟨_, _, _, _, rfl, -⟩, -⟩ := Docker.registryPipe?_eq_some hpipe
    refine h ((hs.trans ((reads_space n v hspace).trans (consumes_printer.reads t n hname))).mem ?_)
    simp [Text.ofString]
  · rfl

/-- A password with white space in it is more than one word for the rules. -/
theorem quote_of_space {c : CodePoint} (hc : c ∈ w) (hspace : c.isSpace = true) : ∃ q r : Text,
    Shell.quote w = ('\'' : CodePoint) :: q ∧ r ≠ [] ∧ optionValue? (('\'' : CodePoint) :: q) = some r := by
  have hplain : w.all Shell.isPlain = false := by
    rw [List.all_eq_false]
    refine ⟨c, hc, fun h => ?_⟩
    rw [Docker.isSpace_of_isPlain h] at hspace
    cases hspace
  have hquote : Shell.quote w = ('\'' : CodePoint) :: (w.flatMap Shell.quotedPoint ++ "'") := by
    rw [Shell.quote, if_neg (List.ne_nil_of_mem hc), hplain]
    rfl
  refine ⟨_, _, hquote, fun hnil => ?_, rfl⟩
  have hnone := List.dropWhile_eq_nil_iff.1 hnil c (hquote ▸ subset_quote hc)
  rw [hspace] at hnone
  cases hnone

/-- Such a password is masked up to the white space only. -/
theorem redact_of_space (hw : Password w) {c : CodePoint} (hc : c ∈ w) (hspace : c.isSpace = true) :
    ∃ z, z ≠ [] ∧ redact (commandWith [] " " w []) = maskedOption ++ z := by
  obtain ⟨q, r, hquote, hr, hvalue⟩ := quote_of_space hc hspace
  have hpiped : substitute pipedSecret none 0 (optionWith " " (Shell.quote w)) = optionWith " " (Shell.quote w) := by
    have hmisses : Misses pipedSecret none (optionWith " " (Shell.quote w)) [] := by
      intro u s hu _
      refine pipedSecret_of_not_mem ?_ _
      rw [List.append_nil]
      exact fun hmem => hw.not_mem_option (by decide) hw.pipe (Or.inr rfl) (hu ▸ List.mem_append_right u hmem)
    have hnone := substitute_of_misses hmisses
    rwa [substitute_nil, List.append_nil] at hnone
  have hmatch : passwordOption none (optionWith " " (Shell.quote w)) = some ⟨maskedOption, r⟩ := by
    rw [hquote]
    exact passwordOption_optionWith (by decide) (show Starts (('\'' : CodePoint) :: q) from rfl) hvalue none
  obtain ⟨d, u, hread⟩ : ∃ d u, optionWith " " (Shell.quote w) = d :: u ++ r := isRule_passwordOption.reads hmatch
  obtain ⟨z, hz, hlater⟩ := laterRules_maskedOption (fun p (h : p ∈ laterRules) => h)
    (isRule_passwordOption.substitute_ne_nil hr (d :: u).getLast?)
  refine ⟨z, hz, ?_⟩
  rw [redact_eq, commandWith, List.nil_append, List.append_nil, hpiped, hread, substitute_of_some (hread ▸ hmatch),
    hlater]

/-- What follows a password and goes on to a login, with the format of the printing command or without it. -/
def intoLogin (gap : Text) : Text := gap ++ " y | docker login"

theorem printer?_isPrinter {name : Text} (h : IsPrinter name) : ∃ gap ∈ (["", " '%s\\n'"] : List Text),
    printer? (name ++ intoLogin gap) = some " y | docker login" := by
  rcases h with h | h
  · refine ⟨"", by decide, ?_⟩
    rw [printer?_eq, word?_eq_some.2 ⟨name, h, rfl⟩]
    rfl
  · refine ⟨" '%s\\n'", by decide, ?_⟩
    have hecho : word? "echo".toList (name ++ intoLogin " '%s\\n'") = none := by
      obtain ⟨c, rest, hc, -, rfl⟩ := List.forall₂_cons_left_iff.1 h
      refine word?_of_not_fits fun hfits => ?_
      have hp : c.isLetter 'p' = true := (fits_iff (by decide)).1 hc
      have he : c.isLetter 'e' = true := (fits_iff (by decide)).1 hfits
      simp [CodePoint.isLetter] at hp he
      omega
    rw [printer?_eq, hecho, word?_eq_some.2 ⟨name, h, rfl⟩]
    rfl

section Printer
variable {u name gap : Text} (hlast : u.getLast?.any CodePoint.isWord = false)
include hlast

/-- No command that prints begins before the one in which the value ends. -/
theorem misses_before_printer (hq : ∀ c ∈ u ++ name, c.isSpace = false) (hpost : Blocks post) :
    Misses pipedSecret b (optionWith " " u) (name ++ post) := by
  intro x s hx hs
  rw [pipedSecret_eq, bounded]
  split
  · by_contra hfound
    obtain ⟨m, hm⟩ := Option.ne_none_iff_exists'.1 hfound
    obtain ⟨n, v, hname, hspace, -⟩ := opened_eq_some.1 hm
    rw [← List.append_assoc] at hname
    have hsuffix : s ++ name <:+ optionWith " " (u ++ name) :=
      ⟨x, by rw [← optionWith_append, hx, List.append_assoc]⟩
    obtain ⟨hsq, hwhole⟩ := suffix_of_printer? (by decide) hq hpost hsuffix
      (List.append_ne_nil_of_left_ne_nil hs name) hname (hspace ▸ Option.some_ne_none v)
    have hsu : s <:+ u := by
      obtain ⟨y, hy⟩ := hsq
      exact ⟨y, List.append_cancel_right ((List.append_assoc y s name).trans hy)⟩
    -- What is before the last command is no word, so no command goes on from there.
    have hend : s.getLast? = some (s.getLast hs) := List.getLast?_eq_some_getLast hs
    have hword : (s.getLast hs).isWord = true := hwhole.isWord _ (List.mem_append_left name (List.getLast_mem hs))
    rw [← getLast?_of_suffix hsu hs, hend, Option.any_some, hword] at hlast
    cases hlast
  · rfl

private theorem pipedSecret_printer (hprinter : IsPrinter name)
    (hread : printer? (name ++ intoLogin gap) = some " y | docker login") :
    pipedSecret ((optionWith " " u).getLast?.or b) (name ++ intoLogin gap) =
      some ⟨name ++ gap ++ " " ++ mark, " | docker login"⟩ := by
  have hboundary : isBoundary ((optionWith " " u).getLast?.or b) (name ++ intoLogin gap) = true := by
    have hbefore : ((optionWith " " u).getLast?.or b).any CodePoint.isWord = false := by
      rw [optionWith, ← List.append_assoc, List.getLast?_append]
      cases hu : u.getLast? with
      | none => rfl
      | some e => rwa [hu] at hlast
    rw [hprinter.isBoundary_append, hbefore, Bool.not_false]
  rw [pipedSecret_eq, bounded, if_pos hboundary]
  have hpiped : piped? "y | docker login" = some " | docker login" := by decide +kernel
  refine opened_eq_some.2 ⟨_, "y | docker login", hread, rfl, hpiped, ?_⟩
  have htext : name ++ intoLogin gap = name ++ gap ++ " y | docker login" := (List.append_assoc ..).symm
  rw [htext, upTo_append]

end Printer

/-- A password that ends in a command that prints has what is behind it masked as well. -/
theorem redact_of_printer (hw : Password w) (hunbroken : ∀ c ∈ w, c.isSpace = false)
    (h : EndsInPrinter (Shell.quote w)) : ∃ gap ∈ (["", " '%s\\n'"] : List Text), redact (commandWith [] " " w (intoLogin gap)) =
      laterRules.foldl (fun t p => substitute p none 0 t)
        (maskedOption ++ substitute passwordOption none 0 (gap ++ (" " ++ mark ++ " | docker login"))) := by
  obtain ⟨u, name, hquote, hlast, hprinter⟩ := h
  obtain ⟨gap, hgap, hread⟩ := printer?_isPrinter hprinter
  have hq := hw.quote_unbroken hunbroken
  have hpost : Blocks (intoLogin gap) ∧ Blocks (gap ++ (" " ++ mark ++ " | docker login")) := by
    have hblanks : ∀ gap ∈ (["", " '%s\\n'"] : List Text), (intoLogin gap).head? = some (' ' : CodePoint) ∧
        (gap ++ (" " ++ mark ++ " | docker login")).head? = some (' ' : CodePoint) := by decide
    obtain ⟨hfirst, hsecond⟩ := hblanks gap hgap
    constructor <;> intro c hc
    · rw [hfirst] at hc
      exact Or.inl (Option.some.inj hc).symm
    · rw [hsecond] at hc
      exact Or.inl (Option.some.inj hc).symm
  have hpiped : substitute pipedSecret none 0 (optionWith " " (Shell.quote w) ++ intoLogin gap) =
      optionWith " " (Shell.quote w) ++ (gap ++ (" " ++ mark ++ " | docker login")) := by
    have hmatch := pipedSecret_printer (b := none) hlast hprinter hread
    obtain ⟨d, v, hdv⟩ : ∃ d v, name ++ intoLogin gap = d :: v ++ (" | docker login" : Text) :=
      isRule_pipedSecret.reads hmatch
    have htext : optionWith " " (Shell.quote w) ++ intoLogin gap = optionWith " " u ++ (name ++ intoLogin gap) := by
      rw [hquote, ← optionWith_append, List.append_assoc]
    have hpipe : Blocks " | docker login" := fun c hc => Or.inl (by cases hc; rfl)
    have hrest : substitute pipedSecret none 0 " | docker login" = " | docker login" := by decide +kernel
    rw [htext, substitute_of_misses (misses_before_printer hlast (hquote ▸ hq) hpost.1), hdv,
      substitute_of_some (hdv ▸ hmatch), hpipe.substitute_pipedSecret, hrest, hquote, ← optionWith_append]
    simp only [List.append_assoc]
  refine ⟨gap, hgap, ?_⟩
  rw [redact_eq, commandWith, List.nil_append, hpiped, substitute_passwordOption_optionWith (by decide) hw.quote_ne_nil
    hw.quote_value hq hpost.2]

theorem IsPrinter.four_le_length {name : Text} (h : IsPrinter name) : 4 ≤ name.length := by
  rcases h with h | h
  · exact h.length_eq ▸ (by decide : 4 ≤ "echo".toList.length)
  · exact h.length_eq ▸ (by decide : 4 ≤ "printf".toList.length)

private theorem compact_of_short (h : ∀ c ∈ w, c.isSpace = false)
    (hlength : (Shell.quote w).length < 4) : Compact w where
  unbroken := h
  quiet hends := by
    obtain ⟨u, name, hquote, -, hprinter⟩ := hends
    have hfour := hprinter.four_le_length
    rw [hquote, List.length_append] at hlength
    omega

/-- A password that needs quotes ends in a quote, which is no part of a command's name. -/
theorem compact_of_quoted (h : ∀ c ∈ w, c.isSpace = false) (hplain : w.all Shell.isPlain = false) : Compact w where
  unbroken := h
  quiet hends := by
    obtain ⟨u, name, hquote, -, hprinter⟩ := hends
    have hne : w ≠ [] := by
      rintro rfl
      cases hplain
    have hlast := getLast?_quote hne hplain
    rw [hquote, List.getLast?_append, List.getLast?_eq_some_getLast hprinter.ne_nil, Option.some_or,
      Option.some.injEq] at hlast
    have hword := hprinter.isWord _ (List.getLast_mem hprinter.ne_nil)
    rw [hlast] at hword
    cases hword

end Converse

/-- A password is masked whole exactly when it is compact: then it is not told apart from any other such password, and
otherwise it is. -/
theorem indistinct_iff {w : Text} (hw : Password w) :
    (∀ w', Password w' → Compact w' → Indistinct w w') ↔ Compact w := by
  constructor
  · intro h
    have hx : Password "x" := ⟨by decide, by decide, by decide, by decide⟩
    have hsame := h "x" hx (compact_of_short (by decide) (by decide)) " " (by decide) []
    have hunbroken : ∀ c ∈ w, c.isSpace = false := by
      intro c hc
      by_contra hspace
      obtain ⟨z, hz, hredact⟩ := redact_of_space hw hc (Bool.not_eq_false _ ▸ hspace)
      have hmask : redact (commandWith [] " " "x" []) = maskedOption ++ [] := by decide +kernel
      have heq := (hsame [] fun c hc => by cases hc).1
      rw [hredact, hmask] at heq
      exact hz (List.append_cancel_left heq)
    refine ⟨hunbroken, fun hends => ?_⟩
    obtain ⟨gap, hgap, hredact⟩ := redact_of_printer hw hunbroken hends
    have hdiffer : ∀ gap ∈ (["", " '%s\\n'"] : List Text), (intoLogin gap).head? = some (' ' : CodePoint) ∧
        laterRules.foldl (fun t p => substitute p none 0 t)
          (maskedOption ++ substitute passwordOption none 0 (gap ++ (" " ++ mark ++ " | docker login"))) ≠
            redact (commandWith [] " " "x" (intoLogin gap)) := by decide +kernel
    obtain ⟨hhead, hne⟩ := hdiffer gap hgap
    have heq := (hsame (intoLogin gap) fun c hc => (Option.some.inj (hhead ▸ hc)).symm).1
    exact hne (hredact ▸ heq)
  · intro hcompact w' hw' hcompact' way hway pre post hpost
    have hblocks : Blocks post := fun c hc => Or.inl (hpost c hc)
    obtain ⟨z, hz⟩ := hides_compact hway pre hblocks
    have hredact : redact (commandWith pre way w post) = redact (commandWith pre way w' post) :=
      (hz w ⟨hw, hcompact⟩).trans (hz w' ⟨hw', hcompact'⟩).symm
    refine ⟨hredact, fun user remote success => ?_⟩
    rw [Audit.Report.commandExecution, Audit.Report.commandExecution, hredact]

/-- Passwords with signs in them, one of which ends in the name of a command. -/
theorem indistinct_of_signs : Password "it's;echo" ∧ Password "p$ss" ∧ Indistinct "it's;echo" "p$ss" := by
  have hfirst : Password "it's;echo" := ⟨by decide, by decide, by decide, by decide⟩
  have hsecond : Password "p$ss" := ⟨by decide, by decide, by decide, by decide⟩
  exact ⟨hfirst, hsecond, (indistinct_iff hfirst).2 (compact_of_quoted (by decide) (by decide)) _ hsecond
    (compact_of_quoted (by decide) (by decide))⟩

/-- A blank in a password ends the value that is masked, and a password may be taken for a command that prints. -/
theorem passwords_told_apart : (Password "a b" ∧ Password "a c" ∧
    redact (commandWith "x" " " "a b" "") ≠ redact (commandWith "x" " " "a c" "")) ∧
      Password "echo" ∧ Password "swordfish" ∧ redact (commandWith "x" " " "echo" " y | docker login") ≠
        redact (commandWith "x" " " "swordfish" " y | docker login") := by
  refine ⟨⟨⟨by decide, by decide, by decide, by decide⟩, ⟨by decide, by decide, by decide, by decide⟩, ?_⟩,
    ⟨by decide, by decide, by decide, by decide⟩, ⟨by decide, by decide, by decide, by decide⟩, ?_⟩ <;> decide +kernel

end Custody.Redaction
