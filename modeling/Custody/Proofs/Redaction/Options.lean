import Custody.Proofs.Redaction.Secrets

/-! A text before the name of an option. No word, pipe or value goes on from it into the option, but what a command
prints into a login may. -/
namespace Custody.Redaction

def Leads (t : Text) : Prop := ∃ u : Text, t = (' ' : CodePoint) :: ('-' : CodePoint) :: u

/-- What a reader reads of a text does not depend on `t` behind it. -/
def Stable (t : Text) (f : Text → Option Text) : Prop := ∀ s, f (s ++ t) = (f s).map (· ++ t)

/-- A reader takes nothing of an option, neither by itself nor as the rest of something that begins before it. -/
structure Refuses (f : Text → Option Text) (t : Text) : Prop where
  nil : f [] = none
  dash : ∀ u : Text, f (('-' : CodePoint) :: u) = none
  stable : Stable t f

section Leads
variable {s t : Text} {f g : Text → Option Text} {w : String} {b : Option CodePoint}

theorem Leads.blocks (h : Leads t) : Blocks t := by
  obtain ⟨u, rfl⟩ := h
  intro c hc
  cases hc
  exact Or.inl rfl

theorem Stable.bind (hf : Stable t f) (hg : Stable t g) : Stable t fun s => (f s).bind g := by
  intro s
  dsimp only
  rw [hf s]
  cases f s with
  | none => rfl
  | some r => exact hg r

theorem skipSpace_append_of_ne_nil (h : skipSpace s ≠ []) (t : Text) : skipSpace (s ++ t) = skipSpace s ++ t := by
  unfold skipSpace at *
  rw [List.dropWhile_append, if_neg (mt List.isEmpty_iff.1 h)]

theorem skipSpace_append_of_nil (h : skipSpace s = []) (t : Text) : skipSpace (s ++ t) = skipSpace t := by
  unfold skipSpace at *
  rw [List.dropWhile_append, if_pos (List.isEmpty_iff.2 h)]

/-- White space before an option is skipped together with the space that the option begins with. -/
theorem Refuses.behindSpace (hf : Refuses f t) (h : Leads t) : Stable t fun s => f (skipSpace s) := by
  obtain ⟨u, rfl⟩ := h
  intro s
  dsimp only
  by_cases hs : skipSpace s = []
  · have hoption : f (skipSpace ((' ' : CodePoint) :: ('-' : CodePoint) :: u)) = none := hf.dash u
    rw [skipSpace_append_of_nil hs, hoption, hs, hf.nil]
    rfl
  · rw [skipSpace_append_of_ne_nil hs]
    exact hf.stable _

theorem Refuses.bind_space (hf : Refuses f t) (h : Leads t) : Stable t fun s => (space? s).bind f := by
  intro s
  cases s with
  | nil =>
    obtain ⟨u, rfl⟩ := h
    exact hf.dash u
  | cons c s =>
    have hcons : ∀ v : Text, space? (c :: v) = if c.isSpace then some (skipSpace v) else none := fun _ => rfl
    dsimp only
    rw [List.cons_append, hcons, hcons]
    split
    · exact hf.behindSpace h s
    · rfl

theorem Leads.refuses_word (h : Leads t) (hw : w ∈ words) {l : Char} {letters : List Char}
    (hl : w.toList = l :: letters) (hdash : ¬Fits l '-') : Refuses (word? w.toList) t where
  nil := by rw [hl, word?_cons_nil]
  dash u := by rw [hl, word?_of_not_fits hdash]
  stable := h.blocks.word?_append hw

theorem Leads.refuses_pipe (h : Leads t) : Refuses (literal? "|") t where
  nil := rfl
  dash _ := rfl
  stable s := by
    obtain ⟨u, rfl⟩ := h
    exact literal?_append_of_head (by decide) s _

theorem Leads.refuses_login (h : Leads t) : Refuses loginWord? t where
  nil := rfl
  dash _ := rfl
  stable s := by
    rw [loginWord?, loginWord?, h.blocks.word?_append (w := "login") (by decide)]
    cases word? "login".toList s with
    | none => rfl
    | some r =>
      have hboundary : isBoundary (some ('n' : CodePoint)) (r ++ t) = isBoundary (some ('n' : CodePoint)) r := by
        cases r with
        | nil =>
          obtain ⟨u, rfl⟩ := h
          rfl
        | cons c r => rfl
      rw [Option.map_some, Option.filter_some, Option.filter_some, hboundary]
      split <;> rfl

theorem Leads.stable_registryPipe (h : Leads t) : Stable t registryPipe? := by
  have hpipe := h.refuses_pipe.behindSpace h
  have hdocker := (h.refuses_word (w := "docker") (by decide) rfl (by decide)).behindSpace h
  have hlogin := h.refuses_login.bind_space h
  have hall := (hpipe.bind hdocker).bind hlogin
  rw [show registryPipe? = _ from funext registryPipe?_eq]
  simpa only [map_eq_bind_some, Option.bind_assoc, Option.bind_some] using hall

theorem Leads.stable_printer (h : Leads t) : Stable t printer? := by
  have hquoted := (h.refuses_word (w := "'%s\\n'") (by decide) rfl (by decide)).bind_space h
  have hprintf := Stable.bind (h.blocks.word?_append (w := "printf") (by decide)) hquoted
  intro s
  rw [printer?_eq, printer?_eq, h.blocks.word?_append (w := "echo") (by decide), Option.bind_assoc, Option.bind_assoc]
  cases word? "echo".toList s with
  | none => exact hprintf s
  | some r => rfl

/-- A value in one piece is taken up to the border behind it. -/
theorem optionValue?_append (hne : s ≠ []) (hdash : s.head? ≠ some ('-' : CodePoint)) (hs : ∀ c ∈ s, c.isSpace = false)
    (h : Blocks t) : optionValue? (s ++ t) = some t := by
  have hopen : s.dropWhile (fun c => !c.isSpace) = [] :=
    List.dropWhile_eq_nil_iff.2 fun c hc => by rw [hs c hc, Bool.not_false]
  have hends : t.dropWhile (fun c => !c.isSpace) = t := by
    cases t with
    | nil => rfl
    | cons c t => rcases h c rfl with rfl | rfl <;> rfl
  have hlength : 1 - s.length = 0 := Nat.sub_eq_zero_of_le (List.length_pos_iff.2 hne)
  rw [optionValue?, List.head?_append_of_ne_nil s hne, if_neg hdash, run?_append_of_open hopen, hlength, run?, hends,
    if_pos (Nat.zero_le _)]

theorem Leads.stable_optionValue (h : Leads t) : Stable t optionValue? := by
  intro s
  by_cases hne : s = []
  · obtain ⟨u, rfl⟩ := h
    rw [hne]
    rfl
  · by_cases hdash : s.head? = some ('-' : CodePoint)
    · rw [optionValue?, optionValue?, List.head?_append_of_ne_nil s hne, if_pos hdash, if_pos hdash]
      rfl
    · by_cases hopen : s.dropWhile (fun c => !c.isSpace) = []
      · -- The value ends where the option begins.
        have hs : ∀ c ∈ s, c.isSpace = false := fun c hc => by simpa using List.dropWhile_eq_nil_iff.1 hopen c hc
        have hself := optionValue?_append (t := []) hne hdash hs fun c hc => by cases hc
        rw [List.append_nil] at hself
        rw [optionValue?_append hne hdash hs h.blocks, hself]
        rfl
      · rw [optionValue?, optionValue?, List.head?_append_of_ne_nil s hne, if_neg hdash, if_neg hdash,
          run?_append_of_ended hopen]

/-- The value of an option ends before the next option. -/
theorem Leads.stable_optionWay (h : Leads t) : Stable t fun n => (optionWay? n).bind optionValue? := by
  have hvalue : Refuses optionValue? t := ⟨rfl, fun _ => rfl, h.stable_optionValue⟩
  have hequals : Stable t fun n => (literal? "=" n).bind optionValue? := by
    obtain ⟨u, rfl⟩ := h
    exact Stable.bind (fun s => literal?_append_of_head (by decide) s _) hvalue.stable
  intro n
  cases n with
  | nil =>
    obtain ⟨u, rfl⟩ := h
    rfl
  | cons c n =>
    by_cases hc : c.isSpace = true
    · have hway : ∀ v : Text, optionWay? (c :: v) = space? (c :: v) := by
        intro v
        rw [optionWay?, show space? (c :: v) = some (skipSpace v) from if_pos hc, Option.some_or]
      dsimp only
      rw [List.cons_append, hway, hway]
      exact hvalue.bind_space h (c :: n)
    · have hway : ∀ v : Text, optionWay? (c :: v) = literal? "=" (c :: v) := by
        intro v
        rw [optionWay?, show space? (c :: v) = none from if_neg hc, Option.none_or]
      dsimp only
      rw [List.cons_append, hway, hway]
      exact hequals (c :: n)

theorem opened_eq_bind (name way value : Text → Option Text) (gap t : Text) : opened name way value gap t =
    (name t).bind fun n => ((way n).bind value).map fun rest => ⟨upTo t n ++ gap ++ mark, rest⟩ := by
  unfold opened opening
  simp only [map_eq_bind_some, Option.bind_assoc, Option.bind_some]

theorem opened_append {name way value : Text → Option Text} (hread : Reads name)
    (hname : name (s ++ t) = (name s).map (· ++ t)) (gap : Text) : opened name way value gap (s ++ t) =
      (name s).bind fun n => ((way (n ++ t)).bind value).map fun rest => ⟨upTo s n ++ gap ++ mark, rest⟩ := by
  rw [opened_eq_bind, hname]
  cases hn : name s with
  | none => rfl
  | some n => rw [Option.map_some, Option.bind_some, Option.bind_some, upTo_append_append (hread s n hn)]

/-- A password option before another option is masked by itself. -/
theorem Leads.unmoved_passwordOption (h : Leads t) (hs : s ≠ []) : Unmoved passwordOption b s t := by
  have hname : optionName? "--password" (s ++ t) = (optionName? "--password" s).map (· ++ t) := by
    obtain ⟨c, s, rfl⟩ := List.exists_cons_of_ne_nil hs
    rw [List.cons_append]
    unfold optionName?
    dsimp only
    split
    · exact h.blocks.word?_append (by decide) s
    · rfl
  rw [Unmoved, passwordOption_eq]
  dsimp only
  rw [opened_append (reads_optionName _) hname, opened_eq_bind]
  cases optionName? "--password" s with
  | none => rfl
  | some n =>
    have hvalue := h.stable_optionWay n
    dsimp only at hvalue
    rw [Option.bind_some, Option.bind_some, hvalue]
    cases (optionWay? n).bind optionValue? <;> rfl

/-- The rule for password options does not look at what is before its place. -/
theorem substitute_passwordOption (b b' : Option CodePoint) (t : Text) :
    substitute passwordOption b 0 t = substitute passwordOption b' 0 t := by
  cases t <;> rfl

theorem Leads.substitute_passwordOption_append (h : Leads t) (a : Text) : substitute passwordOption none 0 (a ++ t) =
    substitute passwordOption none 0 a ++ substitute passwordOption none 0 t := by
  have hsees : ∀ b s, s <:+ a → s ≠ [] → (∀ t, Leads t → Unmoved passwordOption b s t) ∨ False := fun _ _ _ hs =>
    Or.inl fun _ ht => ht.unmoved_passwordOption hs
  rcases runs_or_reaches isRule_passwordOption (fun _ _ => False) hsees none with hruns | ⟨_, _, _, -, -, hfalse, -⟩
  · exact (hruns t h).trans (congrArg (_ ++ ·) (substitute_passwordOption _ none t))
  · exact hfalse.elim

end Leads


/-- An option with its value, on one line and without pipes. -/
structure Given (x : Text) : Prop where
  leads : ∃ u : Text, x = (' ' : CodePoint) :: ('-' : CodePoint) :: u
  closed : ∃ e ∈ x.getLast?, e.isSpace = false
  line : ('\n' : CodePoint) ∉ x
  pipe : ('|' : CodePoint) ∉ x

section Given
variable {x s post : Text} {b : Option CodePoint}

theorem Given.leads_append (h : Given x) (post : Text) : Leads (x ++ post) := by
  obtain ⟨u, rfl⟩ := h.leads
  exact ⟨u ++ post, rfl⟩

/-- No pipe begins within an option. -/
theorem Given.registryPipe?_append (h : Given x) (hs : s <:+ x) (hne : s ≠ []) (post : Text) :
    registryPipe? (s ++ post) = none := by
  obtain ⟨e, he, hspace⟩ := h.closed
  have hskip : skipSpace s ≠ [] := by
    refine dropWhile_ne_nil_of_last (e := e) ?_ hspace
    rw [getLast?_of_suffix hs hne]
    exact he
  refine registryPipe?_of_skipSpace fun c hc => ?_
  rw [skipSpace_append_of_ne_nil hskip, List.head?_append_of_ne_nil _ hskip] at hc
  rintro rfl
  exact h.pipe (hs.mem ((suffix_skipSpace s).mem (List.mem_of_mem_head? hc)))

theorem Given.piped?_append (h : Given x) (hs : s <:+ x) (post : Text) : piped? (s ++ post) = piped? post := by
  have hall : s.all (fun c => decide (c ≠ ('\n' : CodePoint))) = true := by
    rw [List.all_eq_true]
    exact fun c hc => decide_eq_true fun heq => h.line (heq ▸ hs.mem hc)
  rw [piped?, seek?_append_of_none fun u hu hne => h.registryPipe?_append (hu.trans hs) hne post, if_pos hall]
  rfl

/-- What a reader makes of a text before an option and of `post` behind it: the former by itself, or the latter. -/
def BeforeOrBehind (f : Text → Option Text) (n post : Text) : Prop :=
  (∀ x, Given x → f (n ++ (x ++ post)) = (f n).map (· ++ (x ++ post))) ∨
    ∃ r, piped? post = some r ∧ ∀ x, Given x → f (n ++ (x ++ post)) = some r

theorem beforeOrBehind_piped (v post : Text) : BeforeOrBehind piped? v post := by
  have happend : ∀ x, Given x → piped? (v ++ (x ++ post)) = ((piped? v).map (· ++ (x ++ post))).or
      (if v.all (fun c => c ≠ ('\n' : CodePoint)) then piped? post else none) := by
    intro x hx
    have hbehind : piped? (x ++ post) = piped? post := hx.piped?_append (List.suffix_refl x) post
    have hstable := (hx.leads_append post).stable_registryPipe
    rw [← hbehind, piped?, piped?, piped?, seek?_append rfl fun u _ _ => hstable u]
    cases seek? (fun c => decide (c ≠ ('\n' : CodePoint))) registryPipe? v with
    | some m => rfl
    | none => split <;> rfl
  cases hv : piped? v with
  | some r => exact Or.inl fun x hx => by rw [happend x hx, hv, Option.map_some, Option.some_or]
  | none =>
    cases hpost : if v.all (fun c => c ≠ ('\n' : CodePoint)) then piped? post else none with
    | none => exact Or.inl fun x hx => by rw [happend x hx, hv, hpost]; rfl
    | some r =>
      refine Or.inr ⟨r, (Option.ite_none_right_eq_some.1 hpost).2, fun x hx => ?_⟩
      rw [happend x hx, hv, hpost]
      rfl

/-- What a command prints into a login, with the white space before it. -/
def printed? (n : Text) : Option Text := (space? n).bind piped?

theorem printed?_cons (c : CodePoint) (n : Text) :
    printed? (c :: n) = if c.isSpace then piped? (skipSpace n) else none := by
  by_cases hc : c.isSpace = true
  · rw [printed?, show space? (c :: n) = some (skipSpace n) from if_pos hc, Option.bind_some, if_pos hc]
  · rw [printed?, show space? (c :: n) = none from if_neg hc, Option.bind_none, if_neg hc]

/-- Where only white space is before an option, what is printed begins with the option. -/
theorem Given.piped?_skipSpace (h : Given x) (hs : skipSpace s = []) (post : Text) :
    piped? (skipSpace (s ++ (x ++ post))) = piped? post := by
  obtain ⟨u, hu⟩ := h.leads
  have hskip : skipSpace (x ++ post) = ('-' : CodePoint) :: u ++ post := by
    rw [hu]
    rfl
  have hsuffix : ('-' : CodePoint) :: u <:+ x := hu ▸ List.suffix_cons _ _
  rw [skipSpace_append_of_nil hs, hskip, h.piped?_append hsuffix]

theorem Given.printed?_append (h : Given x) (post : Text) : printed? (x ++ post) = piped? post := by
  obtain ⟨u, hu⟩ := h.leads
  have hskip := h.piped?_skipSpace (s := []) rfl post
  rw [hu] at hskip ⊢
  exact hskip

/-- What is printed before an option is piped from before it, or from behind it. -/
theorem beforeOrBehind_printed (n post : Text) : BeforeOrBehind printed? n post := by
  have hbehind : ∀ n, printed? n = none → (∀ x, Given x → printed? (n ++ (x ++ post)) = piped? post) →
      BeforeOrBehind printed? n post := by
    intro n hn h
    cases hpost : piped? post with
    | none => exact Or.inl fun x hx => by rw [h x hx, hn, hpost]; rfl
    | some r => exact Or.inr ⟨r, hpost, fun x hx => (h x hx).trans hpost⟩
  cases n with
  | nil => exact hbehind [] rfl fun x hx => hx.printed?_append post
  | cons c n =>
    by_cases hc : c.isSpace = true
    · by_cases hn : skipSpace n = []
      · refine hbehind (c :: n) ?_ fun x hx => ?_
        · rw [printed?_cons, if_pos hc, hn]
          rfl
        · rw [List.cons_append, printed?_cons, if_pos hc, hx.piped?_skipSpace hn]
      · have hinner : ∀ t, printed? (c :: n ++ t) = piped? (skipSpace n ++ t) := by
          intro t
          rw [List.cons_append, printed?_cons, if_pos hc, skipSpace_append_of_ne_nil hn]
        rcases beforeOrBehind_piped (skipSpace n) post with h | ⟨r, hpost, h⟩
        · exact Or.inl fun x hx => by rw [hinner, h x hx, printed?_cons, if_pos hc]
        · exact Or.inr ⟨r, hpost, fun x hx => by rw [hinner, h x hx]⟩
    · exact Or.inl fun x _ => by rw [List.cons_append, printed?_cons, printed?_cons, if_neg hc, if_neg hc]; rfl

/-- A command that prints takes all up to a pipe: whichever option is in between, the match is the same. -/
theorem unmoved_or_covers_pipedSecret (hs : s ≠ []) (b : Option CodePoint) (post : Text) :
    (∀ t, Followed Given post t → Unmoved pipedSecret b s t) ∨ Covers Given post pipedSecret b s := by
  have happend : ∀ t, Followed Given post t → pipedSecret b (s ++ t) = if isBoundary b s then
      (printer? s).bind fun n => (printed? (n ++ t)).map fun rest => ⟨upTo s n ++ " " ++ mark, rest⟩ else none := by
    rintro t ⟨x, hx, rfl⟩
    rw [pipedSecret_eq, bounded, isBoundary_append b hs,
      opened_append consumes_printer.reads ((hx.leads_append post).stable_printer s)]
    rfl
  have hself : pipedSecret b s = if isBoundary b s then
      (printer? s).bind fun n => (printed? n).map fun rest => ⟨upTo s n ++ " " ++ mark, rest⟩ else none := by
    rw [pipedSecret_eq, bounded, opened_eq_bind]
    rfl
  by_cases hb : isBoundary b s = true
  · cases hn : printer? s with
    | none =>
      refine Or.inl fun t ht => ?_
      rw [Unmoved, happend t ht, hself, hn]
      split <;> rfl
    | some n =>
      rcases beforeOrBehind_printed n post with h | ⟨r, hpost, h⟩
      · refine Or.inl ?_
        rintro t ⟨x, hx, rfl⟩
        rw [Unmoved, happend _ ⟨x, hx, rfl⟩, hself, hn, if_pos hb, if_pos hb, Option.bind_some, Option.bind_some,
          h x hx]
        cases printed? n <;> rfl
      · obtain ⟨y, hy⟩ := reads_piped post r hpost
        refine Or.inr ⟨upTo s n ++ " " ++ mark, y, r, hy.symm, fun x hx => ?_⟩
        rw [happend _ ⟨x, hx, rfl⟩, hn, if_pos hb, Option.bind_some, h x hx]
        rfl
  · refine Or.inl fun t ht => ?_
    rw [Unmoved, happend t ht, hself, if_neg hb, if_neg hb]
    rfl

theorem Blocks.pipedSecret_eq_none (h : Blocks post) (b : Option CodePoint) : pipedSecret b post = none := by
  have hprinter : printer? post = none := by
    cases post with
    | nil => rfl
    | cons c post => rcases h c rfl with rfl | rfl <;> rfl
  rw [pipedSecret_eq, bounded, opened_eq_bind, hprinter]
  split <;> rfl

/-- Behind a border it does not matter to the rule for printed secrets what is before it. -/
theorem Blocks.substitute_pipedSecret (h : Blocks post) (b : Option CodePoint) :
    substitute pipedSecret b 0 post = substitute pipedSecret none 0 post := by
  cases post with
  | nil => rfl
  | cons c post => rw [substitute_of_none (h.pipedSecret_eq_none b), substitute_of_none (h.pipedSecret_eq_none none)]

/-- An option in which the rule for printed secrets finds nothing, whatever is around it. -/
structure Quiet (x : Text) : Prop extends Given x where
  silent : ∀ b post, Blocks post → Misses pipedSecret b x post

/-- The rule for printed secrets leaves nothing of an option, or it leaves it as it is, between the same texts. -/
theorem hides_or_keeps_option (hpost : Blocks post) (a : Text) :
    (Hides Quiet fun x => substitute pipedSecret none 0 (a ++ (x ++ post))) ∨ ∃ a' post', Blocks post' ∧
      ∀ x, Quiet x → substitute pipedSecret none 0 (a ++ (x ++ post)) = a' ++ (x ++ post') := by
  rcases runs_or_reaches isRule_pipedSecret (Covers Given post pipedSecret)
    (fun b s _ hs => unmoved_or_covers_pipedSecret hs b post) (a := a) none with h | ⟨o, b, s, -, hs, hcovers, h⟩
  · refine Or.inr ⟨substitute pipedSecret none 0 a, substitute pipedSecret none 0 post,
      hpost.of_sameStart (keepsStart_pipedSecret.sameStart none post), fun x hx => ?_⟩
    rw [h _ ⟨x, hx.toGiven, rfl⟩, substitute_of_misses (hx.silent _ post hpost), hpost.substitute_pipedSecret]
  · obtain ⟨o', y, r, rfl, hcovers⟩ := hcovers
    obtain ⟨c, u, rfl⟩ := List.exists_cons_of_ne_nil hs
    refine Or.inl ⟨o ++ (o' ++ substitute pipedSecret y.getLast? 0 r), fun x hx => ?_⟩
    have htext : c :: u ++ (x ++ (y ++ r)) = c :: (u ++ x ++ y) ++ r := by simp
    have hmatch := hcovers x hx.toGiven
    dsimp only
    rw [h _ ⟨x, hx.toGiven, rfl⟩, htext, substitute_of_some (htext ▸ hmatch)]
    cases y with
    | nil =>
      have hr : Blocks r := hpost
      exact congrArg (fun z => o ++ (o' ++ z)) (hr.substitute_pipedSecret _)
    | cons d y =>
      have hlast : (c :: (u ++ x ++ d :: y)).getLast? = (d :: y).getLast? := by
        rw [← List.cons_append, List.getLast?_append, List.getLast?_cons]
        rfl
      rw [hlast]

end Given

end Custody.Redaction
