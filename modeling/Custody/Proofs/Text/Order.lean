import Custody.Text.CodePoint

/-! Texts are ordered as in a dictionary of code points, and there is one way to put them in order. -/
namespace Custody

theorem CodePoint.eq_of_val_eq {a b : CodePoint} (h : a.val = b.val) : a = b := by
  cases a
  cases b
  cases h
  rfl

namespace Text

@[simp] theorem le_cons_cons {a b : CodePoint} {s t : Text} :
    le (a :: s) (b :: t) = true ↔ a.val < b.val ∨ a = b ∧ le s t = true := by
  rw [le, Bool.or_eq_true, Bool.and_eq_true, decide_eq_true_iff, decide_eq_true_iff]

theorem le_refl (t : Text) : le t t = true := by
  induction t with
  | nil => rfl
  | cons c t ih => exact le_cons_cons.2 (Or.inr ⟨rfl, ih⟩)

theorem le_trans {s t u : Text} (h : le s t = true) (h' : le t u = true) : le s u = true := by
  induction s generalizing t u with
  | nil => rfl
  | cons a s ih =>
    cases t with
    | nil => cases h
    | cons b t =>
      cases u with
      | nil => cases h'
      | cons c u =>
        rw [le_cons_cons] at h h' ⊢
        rcases h with hab | ⟨rfl, hst⟩
        · rcases h' with hbc | ⟨rfl, -⟩
          · exact Or.inl (Nat.lt_trans hab hbc)
          · exact Or.inl hab
        · exact h'.imp_right fun h' => ⟨h'.1, ih hst h'.2⟩

theorem le_total (s t : Text) : le s t = true ∨ le t s = true := by
  induction s generalizing t with
  | nil => exact Or.inl rfl
  | cons a s ih =>
    cases t with
    | nil => exact Or.inr rfl
    | cons b t =>
      rcases Nat.lt_trichotomy a.val b.val with h | h | h
      · exact Or.inl (le_cons_cons.2 (Or.inl h))
      · obtain rfl := CodePoint.eq_of_val_eq h
        exact (ih t).imp (fun h => le_cons_cons.2 (Or.inr ⟨rfl, h⟩)) (fun h => le_cons_cons.2 (Or.inr ⟨rfl, h⟩))
      · exact Or.inr (le_cons_cons.2 (Or.inl h))

theorem le_antisymm {s t : Text} (h : le s t = true) (h' : le t s = true) : s = t := by
  induction s generalizing t with
  | nil =>
    cases t with
    | nil => rfl
    | cons b t => cases h'
  | cons a s ih =>
    cases t with
    | nil => cases h
    | cons b t =>
      rw [le_cons_cons] at h h'
      rcases h with hab | ⟨rfl, hst⟩
      · rcases h' with hba | ⟨rfl, -⟩
        · exact absurd hba (Nat.lt_asymm hab)
        · exact absurd hab (Nat.lt_irrefl _)
      · rcases h' with hba | ⟨-, hts⟩
        · exact absurd hba (Nat.lt_irrefl _)
        · rw [ih hst hts]

/-- What two texts begin with does not matter for their order. -/
theorem le_append_append (p : Text) {s t : Text} : le (p ++ s) (p ++ t) = true ↔ le s t = true := by
  induction p with
  | nil => exact Iff.rfl
  | cons c p ih =>
    rw [List.cons_append, List.cons_append, le_cons_cons, ih]
    exact ⟨fun h => h.elim (fun h => absurd h (Nat.lt_irrefl _)) And.right, fun h => Or.inr ⟨rfl, h⟩⟩

theorem pairwise_mergeSort (ts : List Text) : (ts.mergeSort le).Pairwise fun s t => le s t = true := by
  refine List.pairwise_mergeSort ?_ ?_ ts
  · intro s t u h h'
    exact le_trans h h'
  · intro s t
    rw [Bool.or_eq_true]
    exact le_total s t

/-- Two lists of the same texts in order are equal. -/
theorem eq_of_perm {ss ts : List Text} (hs : ss.Pairwise fun s t => le s t = true)
    (ht : ts.Pairwise fun s t => le s t = true) (h : ss.Perm ts) : ss = ts :=
  h.eq_of_pairwise (fun _ _ _ _ h h' => le_antisymm h h') hs ht

end Text

end Custody
