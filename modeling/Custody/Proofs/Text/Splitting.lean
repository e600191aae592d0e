import Custody.Text.CodePoint
import Mathlib.Data.List.Basic

/-! A text and its pieces: what splitting and joining have to do with each other. -/
namespace Custody.Text

variable {sep : CodePoint}

theorem splitOn_ne_nil (sep : CodePoint) (t : Text) : splitOn sep t ≠ [] := by
  cases t with
  | nil => exact List.cons_ne_nil _ _
  | cons c t =>
    unfold splitOn
    split
    · exact List.cons_ne_nil _ _
    · split <;> exact List.cons_ne_nil _ _

/-- A text without the separator is one piece. -/
theorem splitOn_of_not_mem {t : Text} (h : sep ∉ t) : splitOn sep t = [t] := by
  induction t with
  | nil => rfl
  | cons c t ih =>
    obtain ⟨hc, ht⟩ := not_or.1 (mt List.mem_cons.2 h)
    rw [splitOn, if_neg (Ne.symm hc), ih ht]

/-- The first separator ends the first piece. -/
theorem splitOn_append {a : Text} (h : sep ∉ a) (t : Text) : splitOn sep (a ++ sep :: t) = a :: splitOn sep t := by
  induction a with
  | nil => rw [List.nil_append, splitOn, if_pos rfl]
  | cons c a ih =>
    obtain ⟨hc, ha⟩ := not_or.1 (mt List.mem_cons.2 h)
    rw [List.cons_append, splitOn, if_neg (Ne.symm hc), ih ha]

/-- Pieces that end in separators are split apart; nothing comes after the last one. -/
theorem splitOn_flatMap {pieces : List Text} (h : ∀ piece ∈ pieces, sep ∉ piece) :
    splitOn sep (pieces.flatMap (· ++ [sep])) = pieces ++ [[]] := by
  induction pieces with
  | nil => rfl
  | cons piece pieces ih =>
    have hrest := ih fun p hp => h p (List.mem_cons_of_mem _ hp)
    rw [List.flatMap_cons, List.append_assoc, List.singleton_append, splitOn_append (h piece List.mem_cons_self), hrest]
    rfl

/-- The pieces of a text with separators between them are the text. -/
theorem join_splitOn (t : Text) : join [sep] (splitOn sep t) = t := by
  induction t with
  | nil => rfl
  | cons c t ih =>
    unfold splitOn
    split
    · next hc =>
      obtain ⟨piece, pieces, hp⟩ := List.exists_cons_of_ne_nil (splitOn_ne_nil sep t)
      rw [hp] at ih ⊢
      rw [join, ih, hc]
      · rfl
      · exact List.cons_ne_nil _ _
    · split
      · next hnil => exact absurd hnil (splitOn_ne_nil sep t)
      · next piece pieces hp =>
        rw [hp] at ih
        cases pieces with
        | nil => rw [join, ← ih, join]
        | cons second more =>
          rw [join] at ih ⊢
          · rw [List.cons_append, List.cons_append, ih]
          all_goals exact List.cons_ne_nil _ _

theorem dropPrefix?_eq_some {lead t rest : Text} : dropPrefix? lead t = some rest ↔ t = lead ++ rest := by
  induction lead generalizing t with
  | nil => simp [dropPrefix?, eq_comm]
  | cons p lead ih =>
    cases t with
    | nil => simp [dropPrefix?]
    | cons c t =>
      unfold dropPrefix?
      by_cases hp : p = c
      · rw [if_pos hp, ih, hp, List.cons_append, List.cons.injEq, and_iff_right rfl]
      · rw [if_neg hp, List.cons_append, List.cons.injEq]
        exact iff_of_false (fun h => by cases h) fun h => hp h.1.symm

end Custody.Text
