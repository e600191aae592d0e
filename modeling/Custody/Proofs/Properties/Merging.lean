import Custody.Proofs.Properties.Layout

/-! Texts one behind the other, with a line feed between them: the entries of the second are set after those of the
first, if the first leaves nothing open. -/
namespace Custody.Properties

section Seams

private theorem naturalLines_ne_nil (t : Text) : naturalLines t ≠ [] := by
  induction t using breaks_induction with
  | unbroken line hline =>
    rw [naturalLines_of_unbroken hline]
    exact List.cons_ne_nil _ _
  | broken line b rest hline hb _ =>
    rw [naturalLines_append hline b hb]
    exact List.cons_ne_nil _ _

def lastLine (t : Text) : Text := (naturalLines t).getLast (naturalLines_ne_nil t)

theorem linesBefore_concat_lastLine (t : Text) : linesBefore t ++ [lastLine t] = naturalLines t :=
  List.dropLast_append_getLast _

/-- A text that leaves nothing open: its last natural line is a comment, or an even number of backslashes ends it
without the blanks in front. -/
def Closed (t : Text) : Prop :=
  IsComment t (lastLine t) ∨ trailingBackslashes ((lastLine t).dropWhile isBlank) % 2 = 0

private theorem leftOpen_append (pending : Option Text) (before after : List Text) :
    leftOpen pending (before ++ after) = leftOpen (leftOpen pending before) after := by
  induction before generalizing pending with
  | nil => rfl
  | cons natural before ih =>
    rw [List.cons_append, leftOpen, leftOpen]
    split_ifs
    · exact ih none
    · exact ih _
    · exact ih none

private theorem leftOpen_of_closed {t : Text} (h : Closed t) : leftOpen none (naturalLines t) = none := by
  rw [← linesBefore_concat_lastLine, leftOpen_append]
  rcases h with ⟨hbefore, c, hc, hmark⟩ | hpaired
  · have hsilent : isSilent ((lastLine t).dropWhile isBlank) = true := by
      obtain ⟨rest, hline⟩ := List.head?_eq_some_iff.1 hc
      rw [hline, isSilent]
      simpa using hmark
    rw [hbefore, leftOpen, if_pos (by simpa using hsilent)]
    rfl
  · have hends : continues ((lastLine t).dropWhile isBlank) = false := by
      rw [continues, hpaired]
      rfl
    rw [leftOpen, if_neg (by simp [hends] : ¬continues ((lastLine t).dropWhile isBlank) = true)]
    split_ifs <;> rfl

/-- The logical lines of a text that leaves nothing open stay what they are before a line feed. -/
theorem logicalLines_append {a b : Text} (hcr : a.getLast? ≠ some ('\r' : CodePoint)) (h : Closed a) :
    logicalLines (a ++ LineBreak.lf.text ++ b) = logicalLines a ++ logicalLines b := by
  have hstands : LineBreak.lf.Stands a b := ⟨fun _ => hcr, fun hb => LineBreak.noConfusion hb⟩
  have hfirst : logicalLines a = finished none (naturalLines a) := by
    have hjoin := joinLines_append none (naturalLines a) []
    rwa [leftOpen_of_closed h, joinLines, List.append_nil, List.append_nil] at hjoin
  rw [hfirst, logicalLines, naturalLines_append_break hstands, joinLines_append, leftOpen_of_closed h]
  rfl

end Seams

section Entries
variable {line : Text} {lines : List Text} {f : Failure}

/-- Nothing goes wrong in a text but its escapes. -/
theorem unescape_error {t : Text} (h : unescape t = .error f) : f = .malformedEscape := by
  have hcons {c : CodePoint} {rest : Text} (ih : unescape rest = .error f → f = .malformedEscape)
      (h : (do return c :: (← unescape rest)) = .error f) : f = .malformedEscape := by
    rcases Failure.bind_eq_error.1 h with h | ⟨_, -, h⟩
    · exact ih h
    · cases h
  fun_induction unescape t with
  | case1 | case2 => cases h
  | case3 _ _ _ _ _ _ _ ih => exact hcons ih h
  | case4 | case5 =>
    cases h
    rfl
  | case6 _ _ _ ih => exact hcons ih h
  | case7 _ _ _ ih => exact hcons ih h

private theorem entry_error (h : entry line = .error f) : f = .malformedEscape := by
  rw [entry] at h
  rcases Failure.bind_eq_error.1 h with h | ⟨_, -, h⟩
  · exact unescape_error h
  rcases Failure.bind_eq_error.1 h with h | ⟨_, -, h⟩
  · exact unescape_error h
  · cases h

theorem mapM_entry_error (h : lines.mapM entry = .error f) : f = .malformedEscape := by
  induction lines with
  | nil => cases h
  | cons line rest ih =>
    rw [List.mapM_cons] at h
    rcases Failure.bind_eq_error.1 h with h | ⟨_, -, h⟩
    · exact entry_error h
    rcases Failure.bind_eq_error.1 h with h | ⟨_, -, h⟩
    · exact ih h
    · cases h

/-- The entries of lines are read before any of them has to be set. -/
theorem ofLines_eq_map (before : Properties) (lines : List Text) :
    ofLines before lines = (lines.mapM entry).map (Value.setAll before) := by
  induction lines generalizing before with
  | nil => rfl
  | cons line rest ih =>
    rw [ofLines, List.mapM_cons]
    cases entry line with
    | error f => rfl
    | ok pair =>
      change ofLines (Value.insertField pair.1 pair.2 before) rest = _
      rw [ih]
      cases rest.mapM entry <;> rfl

/-- The entries of a text, or else the reason why one of them is malformed. -/
def entries (t : Text) : Except Failure (List (Text × Text)) := (logicalLines t).mapM entry

theorem parse_eq_map (t : Text) : parse t = (entries t).map (Value.setAll []) := ofLines_eq_map [] _

theorem parse_eq_ok {t : Text} {p : Properties} :
    parse t = .ok p ↔ ∃ pairs, entries t = .ok pairs ∧ p = Value.setAll [] pairs := by
  rw [parse_eq_map]
  cases entries t with
  | error f =>
    constructor
    · intro h
      cases h
    · rintro ⟨_, h, -⟩
      cases h
  | ok pairs =>
    constructor
    · intro h
      cases h
      exact ⟨pairs, rfl, rfl⟩
    · rintro ⟨_, h, rfl⟩
      cases h
      rfl

theorem parse_eq_error {t : Text} : parse t = .error f ↔ entries t = .error f := by
  rw [parse_eq_map]
  cases entries t with
  | error e =>
    constructor
    all_goals
      intro h
      cases h
      rfl
  | ok pairs =>
    constructor
    all_goals
      intro h
      cases h

private theorem parse_error {t : Text} (h : parse t = .error f) : f = .malformedEscape :=
  mapM_entry_error (parse_eq_error.1 h)

theorem entries_append {a b : Text} (hcr : a.getLast? ≠ some ('\r' : CodePoint)) (h : Closed a) :
    entries (a ++ LineBreak.lf.text ++ b) = do return (← entries a) ++ (← entries b) := by
  rw [entries, logicalLines_append hcr h, List.mapM_append]
  rfl

end Entries

/-- What is read of two texts with a line feed between them, of which the first leaves nothing open: it is malformed if
one of them is, and else it has the names of the first and then those that only the second has, each with the value of
the second if that has one. -/
theorem joined_texts_are_merged {a b : Text} (hcr : a.getLast? ≠ some ('\r' : CodePoint)) (h : Closed a) :
    (parse (a ++ LineBreak.lf.text ++ b) = .error .malformedEscape ↔
      parse a = .error .malformedEscape ∨ parse b = .error .malformedEscape) ∧
    (∀ t f, parse t = .error f → f = .malformedEscape) ∧
    ∀ p q, parse a = .ok p → parse b = .ok q → ∃ r, parse (a ++ LineBreak.lf.text ++ b) = .ok r ∧
      r.map Prod.fst = p.map Prod.fst ++ (q.map Prod.fst).filter (· ∉ p.map Prod.fst) ∧
      ∀ k, r.lookup k = (q.lookup k).or (p.lookup k) := by
  have hboth := entries_append (b := b) hcr h
  refine ⟨?_, fun t f => parse_error, fun p q hp hq => ?_⟩
  · have hok : ∀ pairs : List (Text × Text), (.ok pairs : Except Failure _) ≠ .error .malformedEscape := by
      intro pairs h
      cases h
    rw [parse_eq_error, parse_eq_error, parse_eq_error, hboth]
    cases ha : entries a with
    | error f =>
      rw [mapM_entry_error ha]
      exact iff_of_true rfl (Or.inl rfl)
    | ok first =>
      cases entries b with
      | error f => exact (or_iff_right (hok first)).symm
      | ok second => exact iff_of_false (hok _) (not_or.2 ⟨hok first, hok second⟩)
  · obtain ⟨first, hfirst, rfl⟩ := parse_eq_ok.1 hp
    obtain ⟨second, hsecond, rfl⟩ := parse_eq_ok.1 hq
    refine ⟨Value.setAll (Value.setAll [] first) second, ?_, Value.map_fst_setAll_append _ _, fun k => ?_⟩
    · rw [parse_eq_map, hboth, hfirst, hsecond]
      exact congrArg Except.ok (List.foldl_append ..)
    · rw [Value.lookup_setAll, Value.lookup_setAll [] second, List.lookup_nil, Option.or_none]

/-- The first text ends in a comment that seems to go on, and the second begins with a line feed of its own. -/
theorem joined_texts_are_merged_of_comment :
    let a := Text.ofString "k=1\nm=2\n#\\"
    let b := Text.ofString "\nn=4\nk=3"
    a.getLast? ≠ some ('\r' : CodePoint) ∧ Closed a ∧
    ∃ r, parse (a ++ LineBreak.lf.text ++ b) = .ok r ∧
      r.map Prod.fst = [Text.ofString "k", Text.ofString "m", Text.ofString "n"] ∧
      r.lookup (Text.ofString "k") = some (Text.ofString "3") ∧
      r.lookup (Text.ofString "m") = some (Text.ofString "2") := by
  intro a b
  have hcr : a.getLast? ≠ some ('\r' : CodePoint) := by decide
  have hline : lastLine a = "#\\" := by decide +kernel
  have hclosed : Closed a := Or.inl ⟨by decide +kernel, '#', by rw [hline]; rfl, Or.inl rfl⟩
  have ha : parse a = .ok [(Text.ofString "k", Text.ofString "1"), (Text.ofString "m", Text.ofString "2")] := by
    decide +kernel
  have hb : parse b = .ok [(Text.ofString "n", Text.ofString "4"), (Text.ofString "k", Text.ofString "3")] := by
    decide +kernel
  obtain ⟨r, hr, hnames, hvalues⟩ := (joined_texts_are_merged (b := b) hcr hclosed).2.2 _ _ ha hb
  refine ⟨hcr, hclosed, r, hr, ?_, ?_, ?_⟩
  · rw [hnames]
    decide +kernel
  · rw [hvalues]
    decide +kernel
  · rw [hvalues]
    decide +kernel

end Custody.Properties
