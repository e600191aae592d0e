import Custody.Proofs.Properties.Writing

/-! Where the lines of a text end, and what the lines before one leave open for it. -/
namespace Custody.Properties

section Breaks

def IsBreak (c : CodePoint) : Prop := c = '\n' ∨ c = '\r'

theorem unbroken_concat {line : Text} {c : CodePoint} (h : Unbroken line) (hc : ¬IsBreak c) : Unbroken (line ++ [c]) := by
  intro d hd
  rcases List.mem_append.1 hd with hd | hd
  · exact h d hd
  · rw [List.mem_singleton.1 hd]
    exact not_or.1 hc

/-- A text is one line without breaks, or such a line, a break, and a text behind it. -/
theorem breaks_induction {P : Text → Prop} (unbroken : ∀ line, Unbroken line → P line)
    (broken : ∀ line (b : LineBreak) rest, Unbroken line → (b = .cr → rest.head? ≠ some ('\n' : CodePoint)) → P rest →
      P (line ++ b.text ++ rest)) (t : Text) : P t := by
  have hprefix : ∀ n (t : Text), t.length ≤ n → ∀ line, Unbroken line → P (line ++ t) := by
    intro n
    induction n with
    | zero =>
      intro t ht line hline
      rw [List.eq_nil_of_length_eq_zero (Nat.le_zero.1 ht), List.append_nil]
      exact unbroken line hline
    | succ n ih =>
      intro t ht line hline
      have hempty : Unbroken [] := fun d hd => absurd hd List.not_mem_nil
      cases t with
      | nil =>
        rw [List.append_nil]
        exact unbroken line hline
      | cons c t =>
        have hlength : t.length ≤ n := Nat.le_of_succ_le_succ ht
        have hrest : P t := ih t hlength [] hempty
        by_cases hlf : c = '\n'
        · have h := broken line .lf t hline (fun hb => LineBreak.noConfusion hb) hrest
          rw [List.append_assoc] at h
          rw [hlf]
          exact h
        by_cases hcr : c = '\r'
        · rw [hcr]
          by_cases hhead : t.head? = some ('\n' : CodePoint)
          · obtain ⟨rest, rfl⟩ := List.head?_eq_some_iff.1 hhead
            have h := broken line .crlf rest hline (fun hb => LineBreak.noConfusion hb)
              (ih rest (Nat.le_of_succ_le hlength) [] hempty)
            rw [List.append_assoc] at h
            exact h
          · have h := broken line .cr t hline (fun _ => hhead) hrest
            rw [List.append_assoc] at h
            exact h
        · have h := ih t hlength (line ++ [c]) (unbroken_concat hline (not_or.2 ⟨hlf, hcr⟩))
          rw [List.append_assoc] at h
          exact h
  exact hprefix t.length t (Nat.le_refl _) [] fun d hd => absurd hd List.not_mem_nil

/-- An unbroken text lengthens the first line of what follows it. -/
theorem naturalLines_unbroken_append {line t first : Text} {lines : List Text} (h : Unbroken line)
    (ht : naturalLines t = first :: lines) : naturalLines (line ++ t) = (line ++ first) :: lines := by
  induction line with
  | nil => exact ht
  | cons c line ih =>
    have hrest : naturalLines (line ++ t) = (line ++ first) :: lines := ih fun d hd => h d (List.mem_cons_of_mem c hd)
    exact naturalLines_cons (h c List.mem_cons_self) hrest

/-- A break between two texts that stays one break: neither a carriage return before it nor a line feed behind it
becomes part of it. -/
structure LineBreak.Stands (b : LineBreak) (before after : Text) : Prop where
  before : b = .lf → before.getLast? ≠ some ('\r' : CodePoint)
  after : b = .cr → after.head? ≠ some ('\n' : CodePoint)

/-- The lines of two texts with a break between them are those of the one and those of the other. -/
theorem naturalLines_append_break {b : LineBreak} {before after : Text} (h : b.Stands before after) :
    naturalLines (before ++ b.text ++ after) = naturalLines before ++ naturalLines after := by
  induction before using breaks_induction with
  | unbroken line hline =>
    rw [naturalLines_append hline b h.after, naturalLines_of_unbroken hline]
    rfl
  | broken line b' rest hline hb' ih =>
    have hrest : b.Stands rest after := by
      refine ⟨fun hb hlast => h.before hb ?_, h.after⟩
      rw [List.getLast?_append, hlast]
      rfl
    have hhead : b' = .cr → (rest ++ b.text ++ after).head? ≠ some ('\n' : CodePoint) := by
      intro hcr
      cases rest with
      | cons d rest => exact hb' hcr
      | nil =>
        have hb : b ≠ .lf := by
          intro hb
          refine h.before hb ?_
          rw [hcr, List.append_nil, List.getLast?_append]
          rfl
        cases b with
        | lf => exact absurd rfl hb
        | cr => exact fun h => absurd h (by decide : some ('\r' : CodePoint) ≠ some ('\n' : CodePoint))
        | crlf => exact fun h => absurd h (by decide : some ('\r' : CodePoint) ≠ some ('\n' : CodePoint))
    have hsplit : line ++ b'.text ++ rest ++ b.text ++ after = line ++ b'.text ++ (rest ++ b.text ++ after) := by
      simp only [List.append_assoc]
    rw [hsplit, naturalLines_append hline b' hhead, ih hrest, naturalLines_append hline b' hb']
    rfl

end Breaks

section Continuing

theorem continues_concat_slash (line : Text) : continues (line ++ [('\\' : CodePoint)]) = !continues line := by
  rw [continues, continues, trailingBackslashes_concat, if_pos rfl]
  rcases Nat.mod_two_eq_zero_or_one (trailingBackslashes line) with h | h <;> simp [Nat.add_mod, h]

/-- Only the part of a line that follows a piece with paired backslashes says whether the line goes on. -/
theorem continues_append {p : Text} (hp : continues p = false) (r : Text) : continues (p ++ r) = continues r := by
  induction r using List.reverseRecOn with
  | nil =>
    rw [List.append_nil, hp]
    rfl
  | append_singleton r c ih =>
    rw [← List.append_assoc]
    by_cases hc : c = '\\'
    · rw [hc, continues_concat_slash, continues_concat_slash, ih]
    · rw [continues_concat hc, continues_concat hc]

theorem continues_of_blank {t : Text} (h : ∀ c ∈ t, isBlank c = true) : continues t = false := by
  induction t using List.reverseRecOn with
  | nil => rfl
  | append_singleton t c ih =>
    apply continues_concat
    rintro rfl
    exact absurd (h _ (List.mem_append_right t List.mem_cons_self)) (by decide)

end Continuing

section Joining

/-- What natural lines leave open, after what was open before them. -/
def leftOpen : (pending : Option Text) → List Text → Option Text
  | pending, [] => pending
  | pending, natural :: rest =>
    let line := natural.dropWhile isBlank
    if pending.isNone && isSilent line then leftOpen none rest
    else if continues line then leftOpen (some (pending.getD [] ++ line.dropLast)) rest
    else leftOpen none rest

def finished : (pending : Option Text) → List Text → List Text
  | _, [] => []
  | pending, natural :: rest =>
    let line := natural.dropWhile isBlank
    if pending.isNone && isSilent line then finished none rest
    else if continues line then finished (some (pending.getD [] ++ line.dropLast)) rest
    else (pending.getD [] ++ line) :: finished none rest

theorem joinLines_append (pending : Option Text) (before after : List Text) :
    joinLines pending (before ++ after) = finished pending before ++ joinLines (leftOpen pending before) after := by
  induction before generalizing pending with
  | nil => rfl
  | cons natural before ih =>
    rw [List.cons_append, joinLines, leftOpen, finished]
    split_ifs
    · exact ih none
    · exact ih _
    · rw [ih none]
      rfl

section Line
variable {pending : Option Text} {natural : Text} {rest : List Text}

theorem joinLines_continued (h : pending.isNone = true → isSilent (natural.dropWhile isBlank) = false)
    (hc : continues (natural.dropWhile isBlank) = true) :
    joinLines pending (natural :: rest) =
      joinLines (some (pending.getD [] ++ (natural.dropWhile isBlank).dropLast)) rest := by
  rw [joinLines]
  rw [if_neg (by simpa using h), if_pos hc]

theorem joinLines_ended (h : pending.isNone = true → isSilent (natural.dropWhile isBlank) = false)
    (hc : continues (natural.dropWhile isBlank) = false) :
    joinLines pending (natural :: rest) = (pending.getD [] ++ natural.dropWhile isBlank) :: joinLines none rest := by
  rw [joinLines]
  rw [if_neg (by simpa using h), if_neg (by simp [hc])]

end Line

end Joining

end Custody.Properties
