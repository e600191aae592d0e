import Custody.Proofs.Properties.Lines
import Mathlib.Data.List.TakeWhile

/-! The layout of a properties text says nothing: neither which breaks end its lines, nor where a line is cut and
continued on the next one. -/
namespace Custody.Properties

section Breaks

private theorem normalizeBreaks_unbroken_append {line : Text} (h : Unbroken line) (t : Text) :
    normalizeBreaks (line ++ t) = line ++ normalizeBreaks t := by
  induction line with
  | nil => rfl
  | cons c line ih =>
    rw [List.cons_append, normalizeBreaks.eq_def]
    dsimp only
    rw [if_neg (h c List.mem_cons_self).2, ih fun d hd => h d (List.mem_cons_of_mem c hd)]
    rfl

private theorem normalizeBreaks_break {b : LineBreak} {t : Text}
    (h : b = .cr → t.head? ≠ some ('\n' : CodePoint)) :
    normalizeBreaks (b.text ++ t) = LineBreak.lf.text ++ normalizeBreaks t := by
  cases b with
  | lf =>
    have htext : LineBreak.lf.text ++ t = ('\n' : CodePoint) :: t := rfl
    rw [htext, normalizeBreaks.eq_def]
    rfl
  | cr =>
    have htext : LineBreak.cr.text ++ t = ('\r' : CodePoint) :: t := rfl
    rw [htext, normalizeBreaks.eq_def]
    dsimp only
    rw [if_pos rfl]
    cases t with
    | nil => rfl
    | cons d t => exact if_neg fun hd => h rfl (congrArg some hd)
  | crlf =>
    have htext : LineBreak.crlf.text ++ t = ('\r' : CodePoint) :: ('\n' : CodePoint) :: t := rfl
    rw [htext, normalizeBreaks.eq_def]
    rfl

/-- Which breaks end the lines does not show in the lines. -/
theorem naturalLines_normalizeBreaks (t : Text) : naturalLines (normalizeBreaks t) = naturalLines t := by
  induction t using breaks_induction with
  | unbroken line hline =>
    have hsame : normalizeBreaks (line ++ []) = line ++ [] := normalizeBreaks_unbroken_append hline []
    rw [List.append_nil] at hsame
    rw [hsame]
  | broken line b rest hline hb ih =>
    have hlf : LineBreak.lf = .cr → (normalizeBreaks rest).head? ≠ some ('\n' : CodePoint) :=
      fun h => LineBreak.noConfusion h
    rw [naturalLines_append hline b hb, List.append_assoc, normalizeBreaks_unbroken_append hline,
      normalizeBreaks_break hb, ← List.append_assoc, naturalLines_append hline .lf hlf, ih]

end Breaks

section Cuts

/-- The natural lines that end before the place behind a text, if a line begins there. -/
def linesBefore (before : Text) : List Text := (naturalLines before).dropLast

/-- A natural line is a comment if the lines before it leave nothing open and it begins with a hash or an
exclamation mark, blanks aside. -/
def IsComment (before line : Text) : Prop :=
  leftOpen none (linesBefore before) = none ∧
    ∃ c ∈ (line.dropWhile isBlank).head?, c = ('#' : CodePoint) ∨ c = ('!' : CodePoint)

/-- A text with one of its natural lines cut in two: the line begins behind a break or at the start of the text, it ends
before a break or at the end, and it is no comment. The left part has more than blanks in it and an even number of
backslashes at its end, and the right part does not begin with a blank. -/
structure Cut where
  before : Text
  left : Text
  right : Text
  after : Text
  begins : ∀ c ∈ before.getLast?, IsBreak c
  ends : ∀ c ∈ after.head?, IsBreak c
  unbroken : Unbroken (left ++ right)
  uncommented : ¬IsComment before (left ++ right)
  solid : ∃ c ∈ left, isBlank c = false
  paired : trailingBackslashes left % 2 = 0
  stripped : ∀ c ∈ right.head?, isBlank c = false

/-- The text as it is without the cut. -/
def Cut.text (c : Cut) : Text := c.before ++ (c.left ++ c.right) ++ c.after

/-- The text with a backslash, a break and blanks in the place of the cut. -/
def Cut.continued (c : Cut) (b : LineBreak) (blanks : Text) : Text :=
  c.before ++ (c.left ++ (('\\' : CodePoint) :: b.text ++ blanks) ++ c.right) ++ c.after

private theorem exists_append_break {before : Text} (h : ∀ c ∈ before.getLast?, IsBreak c) :
    before = [] ∨ ∃ (b : LineBreak) (t : Text), before = t ++ b.text ∧ ∀ after : Text,
      after.head? ≠ some ('\n' : CodePoint) → b.Stands t after := by
  induction before using List.reverseRecOn with
  | nil => exact Or.inl rfl
  | append_singleton t c _ =>
    right
    rcases h c (by simp) with rfl | rfl
    · by_cases hlast : t.getLast? = some ('\r' : CodePoint)
      · obtain ⟨s, rfl⟩ := List.getLast?_eq_some_iff.1 hlast
        exact ⟨.crlf, s, by rw [List.append_assoc]; rfl, fun _ _ => ⟨fun hb => LineBreak.noConfusion hb,
          fun hb => LineBreak.noConfusion hb⟩⟩
      · exact ⟨.lf, t, rfl, fun _ _ => ⟨fun _ => hlast, fun hb => LineBreak.noConfusion hb⟩⟩
    · exact ⟨.cr, t, rfl, fun _ hhead => ⟨fun hb => LineBreak.noConfusion hb, fun _ => hhead⟩⟩

/-- A text that ends in a break, or is empty, and one that does not begin with the rest of that break have their
natural lines one after the other. -/
theorem naturalLines_append_of_begins {before t : Text} (h : ∀ c ∈ before.getLast?, IsBreak c)
    (ht : t.head? ≠ some ('\n' : CodePoint)) : naturalLines (before ++ t) = linesBefore before ++ naturalLines t := by
  rcases exists_append_break h with rfl | ⟨b, s, rfl, hstands⟩
  · rfl
  · have hempty : naturalLines (s ++ b.text ++ []) = naturalLines s ++ [[]] :=
      naturalLines_append_break (hstands [] (by decide))
    rw [List.append_nil] at hempty
    rw [naturalLines_append_break (hstands t ht), linesBefore, hempty, List.dropLast_concat]

theorem naturalLines_of_head {t : Text} (h : ∀ c ∈ t.head?, IsBreak c) : ∃ lines, naturalLines t = [] :: lines := by
  induction t using breaks_induction with
  | unbroken line hline =>
    cases line with
    | nil => exact ⟨[], rfl⟩
    | cons c line => exact absurd (h c rfl) (not_or.2 (hline c List.mem_cons_self))
  | broken line b rest hline hb _ =>
    cases line with
    | nil => exact ⟨naturalLines rest, naturalLines_append hline b hb⟩
    | cons c line => exact absurd (h c rfl) (not_or.2 (hline c List.mem_cons_self))

theorem dropWhile_append_of_solid {left : Text} (h : ∃ c ∈ left, isBlank c = false) (t : Text) :
    (left ++ t).dropWhile isBlank = left.dropWhile isBlank ++ t ∧ left.dropWhile isBlank ≠ [] := by
  obtain ⟨c, hc, hblank⟩ := h
  have hne : left.dropWhile isBlank ≠ [] := by
    intro hnil
    have hall := List.dropWhile_eq_nil_iff.1 hnil c hc
    rw [hblank] at hall
    cases hall
  refine ⟨?_, hne⟩
  rw [List.dropWhile_append, if_neg (by simpa using hne)]

theorem continues_dropWhile (line : Text) : continues (line.dropWhile isBlank) = continues line := by
  have hblank : continues (line.takeWhile isBlank) = false :=
    continues_of_blank fun c hc => List.mem_takeWhile_imp hc
  rw [← continues_append hblank, List.takeWhile_append_dropWhile]

/-- A line that is cut behind paired backslashes and continued is joined to what it was. -/
theorem joinLines_cut {pending : Option Text} {left right blanks : Text} (rest : List Text)
    (solid : ∃ c ∈ left, isBlank c = false) (paired : continues left = false)
    (stripped : ∀ c ∈ right.head?, isBlank c = false) (hblanks : ∀ c ∈ blanks, isBlank c = true)
    (audible : pending.isNone = true → isSilent ((left ++ right).dropWhile isBlank) = false) :
    joinLines pending ((left ++ [('\\' : CodePoint)]) :: (blanks ++ right) :: rest) =
      joinLines pending ((left ++ right) :: rest) := by
  obtain ⟨hright, hne⟩ := dropWhile_append_of_solid solid right
  obtain ⟨hslash, -⟩ := dropWhile_append_of_solid solid [('\\' : CodePoint)]
  have hpaired : continues (left.dropWhile isBlank) = false := (continues_dropWhile left).trans paired
  have hsame : isSilent (left.dropWhile isBlank ++ [('\\' : CodePoint)]) =
      isSilent (left.dropWhile isBlank ++ right) := by
    obtain ⟨c, t, ht⟩ := List.exists_cons_of_ne_nil hne
    rw [ht]
    rfl
  have hbehind : (blanks ++ right).dropWhile isBlank = right := by
    rw [List.dropWhile_append_of_pos hblanks]
    cases right with
    | nil => rfl
    | cons c right => rw [List.dropWhile_cons, stripped c rfl]; rfl
  rw [hright] at audible
  have hfirst : joinLines pending ((left ++ [('\\' : CodePoint)]) :: (blanks ++ right) :: rest) =
      joinLines (some (pending.getD [] ++ left.dropWhile isBlank)) ((blanks ++ right) :: rest) := by
    rw [joinLines_continued (by rw [hslash, hsame]; exact audible)
      (by rw [hslash, continues_concat_slash, hpaired]; rfl), hslash, List.dropLast_concat]
  rw [hfirst]
  cases hc : continues right with
  | true =>
    have hnil : right ≠ [] := by
      rintro rfl
      cases hc
    rw [joinLines_continued (by simp) (by rw [hbehind, hc]),
      joinLines_continued (by rw [hright]; exact audible) (by rw [hright, continues_append hpaired, hc]), hbehind, hright,
      List.dropLast_append_of_ne_nil hnil, Option.getD_some, List.append_assoc]
  | false =>
    rw [joinLines_ended (by simp) (by rw [hbehind, hc]),
      joinLines_ended (by rw [hright]; exact audible) (by rw [hright, continues_append hpaired, hc]), hbehind, hright,
      Option.getD_some, List.append_assoc]

namespace Cut
variable (c : Cut)

theorem head?_left_append (t : Text) : (c.left ++ t).head? ≠ some ('\n' : CodePoint) := by
  intro hhead
  obtain ⟨d, hd, -⟩ := c.solid
  rw [List.head?_append_of_ne_nil _ (List.ne_nil_of_mem hd)] at hhead
  exact (c.unbroken _ (List.mem_append_left _ (List.mem_of_mem_head? hhead))).1 rfl

theorem naturalLines_text {lines : List Text} (h : naturalLines c.after = [] :: lines) :
    naturalLines c.text = linesBefore c.before ++ (c.left ++ c.right) :: lines := by
  have hline : naturalLines (c.left ++ c.right ++ c.after) = (c.left ++ c.right) :: lines := by
    rw [naturalLines_unbroken_append c.unbroken h, List.append_nil]
  rw [Cut.text, List.append_assoc c.before, naturalLines_append_of_begins c.begins, hline]
  rw [List.append_assoc]
  exact c.head?_left_append _

private theorem naturalLines_continued {b : LineBreak} {blanks : Text} (hb : b ≠ .cr)
    (hblanks : ∀ d ∈ blanks, isBlank d = true)
    {lines : List Text} (h : naturalLines c.after = [] :: lines) :
    naturalLines (c.continued b blanks) =
      linesBefore c.before ++ (c.left ++ [('\\' : CodePoint)]) :: (blanks ++ c.right) :: lines := by
  have hleft : Unbroken (c.left ++ [('\\' : CodePoint)]) :=
    unbroken_concat (fun d hd => c.unbroken d (List.mem_append_left _ hd)) (not_or.2 ⟨by decide, by decide⟩)
  have hright : Unbroken (blanks ++ c.right) := by
    intro d hd
    rcases List.mem_append.1 hd with hd | hd
    · constructor <;> rintro rfl <;> exact absurd (hblanks _ hd) (by decide)
    · exact c.unbroken d (List.mem_append_right _ hd)
  have hsplit : c.continued b blanks =
      c.before ++ (c.left ++ [('\\' : CodePoint)] ++ b.text ++ (blanks ++ c.right ++ c.after)) := by
    simp [Cut.continued]
  rw [hsplit, naturalLines_append_of_begins c.begins, naturalLines_append hleft b fun h => absurd h hb,
    naturalLines_unbroken_append hright h, List.append_nil]
  simp only [List.append_assoc]
  exact c.head?_left_append _

theorem audible (h : (leftOpen none (linesBefore c.before)).isNone = true) :
    isSilent ((c.left ++ c.right).dropWhile isBlank) = false := by
  obtain ⟨hsplit, hne⟩ := dropWhile_append_of_solid c.solid c.right
  obtain ⟨d, t, ht⟩ := List.exists_cons_of_ne_nil hne
  have hline : (c.left ++ c.right).dropWhile isBlank = d :: (t ++ c.right) := by
    rw [hsplit, ht]
    rfl
  have hnot : ¬(d = ('#' : CodePoint) ∨ d = ('!' : CodePoint)) := by
    intro hd
    refine c.uncommented ⟨Option.isNone_iff_eq_none.1 h, d, ?_, hd⟩
    rw [hline]
    rfl
  rw [hline, isSilent]
  simpa using hnot

/-- The logical lines are the same with and without the continuation. -/
theorem logicalLines_continued {b : LineBreak} {blanks : Text} (hb : b ≠ .cr)
    (hblanks : ∀ d ∈ blanks, isBlank d = true) : logicalLines (c.continued b blanks) = logicalLines c.text := by
  obtain ⟨lines, hlines⟩ := naturalLines_of_head c.ends
  have hpaired : continues c.left = false := by
    rw [continues, c.paired]
    rfl
  rw [logicalLines, logicalLines, c.naturalLines_continued hb hblanks hlines, c.naturalLines_text hlines,
    joinLines_append, joinLines_append, joinLines_cut lines c.solid hpaired c.stripped hblanks c.audible]

end Cut

end Cuts

/-- A text means the same with any of its breaks replaced by line feeds, as they are when a file is read, and with any
of its lines cut and continued. -/
theorem layout_says_nothing :
    (∀ t, parse (normalizeBreaks t) = parse t) ∧
    (∀ bytes t, Utf8.decode? bytes = some t → parseFile bytes = parse t) ∧
    ∀ (c : Cut) (b : LineBreak) (blanks : Text), b ≠ .cr → (∀ d ∈ blanks, isBlank d = true) →
      parse (c.continued b blanks) = parse c.text := by
  have hbreaks : ∀ t, parse (normalizeBreaks t) = parse t := by
    intro t
    rw [parse, parse, logicalLines, logicalLines, naturalLines_normalizeBreaks]
  refine ⟨hbreaks, fun bytes t hbytes => ?_, fun c b blanks hb hblanks => ?_⟩
  · rw [parseFile, decodeFile, hbytes]
    exact hbreaks t
  · rw [parse, parse, c.logicalLines_continued hb hblanks]

/-- An escape is cut between its digits, behind a comment that ends in a backslash. -/
theorem layout_of_cut_escape : ∃ c : Cut,
    c.text = "#\\\nkey=caf\\u00e9\r\nnext" ∧ c.continued .crlf "\t " = "#\\\nkey=caf\\u00\\\r\n\t e9\r\nnext" ∧
    LineBreak.crlf ≠ .cr ∧ (∀ d ∈ Text.ofString "\t ", isBlank d = true) ∧
    parse (c.continued .crlf "\t ") = parse c.text ∧
    parse c.text = .ok [(Text.ofString "key", Text.ofString "café"), (Text.ofString "next", [])] := by
  have huncommented : ¬IsComment "#\\\n" "key=caf\\u00e9" := by
    rintro ⟨-, d, hd, hmark⟩
    obtain rfl : ('k' : CodePoint) = d := Option.some.inj hd
    revert hmark
    decide
  let c : Cut :=
    { before := "#\\\n", left := "key=caf\\u00", right := "e9", after := "\r\nnext"
      begins := fun d hd => Or.inl (Option.some.inj hd).symm
      ends := fun d hd => Or.inr (Option.some.inj hd).symm
      unbroken := by unfold Unbroken; decide
      uncommented := huncommented
      solid := ⟨'k', by decide, by decide⟩
      paired := by decide
      stripped := by decide }
  have htext : c.text = "#\\\nkey=caf\\u00e9\r\nnext" := rfl
  have hbreak : LineBreak.crlf ≠ .cr := fun h => LineBreak.noConfusion h
  have hblanks : ∀ d ∈ Text.ofString "\t ", isBlank d = true := by decide
  refine ⟨c, htext, rfl, hbreak, hblanks, layout_says_nothing.2.2 c .crlf "\t " hbreak hblanks, ?_⟩
  rw [htext]
  decide +kernel

end Custody.Properties
