import Custody.Proofs.Text.Splitting
import Custody.Redaction.Rules
import Mathlib.Data.List.Forall2
import Mathlib.Data.List.TakeWhile

/-! What the pieces of patterns read. A word is never read across a border that none of its letters fits. -/
namespace Custody.Redaction

section Words
variable {l : Char} {letters : List Char} {c e : CodePoint} {s t r : Text}

/-- A character may be written for a letter. -/
def Fits (l : Char) (c : CodePoint) : Prop := (if l.isLower then c.isLetter l else decide (c = ↑l)) = true

instance (l : Char) (c : CodePoint) : Decidable (Fits l c) := instDecidableEqBool _ _

/-- No letter of a word may be written with this character. -/
def Unfit (letters : List Char) (c : CodePoint) : Prop := ∀ l ∈ letters, ¬Fits l c

instance (letters : List Char) (c : CodePoint) : Decidable (Unfit letters c) :=
  List.decidableBAll (fun l => ¬Fits l c) letters

@[simp]
theorem word?_nil (t : Text) : word? [] t = some t := by
  cases t <;> rfl

theorem word?_cons_nil : word? (l :: letters) [] = none := rfl

theorem word?_cons_cons : word? (l :: letters) (c :: t) = if Fits l c then word? letters t else none := rfl

private theorem word?_of_fits (h : Fits l c) : word? (l :: letters) (c :: t) = word? letters t := if_pos h

theorem word?_of_not_fits (h : ¬Fits l c) : word? (l :: letters) (c :: t) = none := if_neg h

/-- A word is read off its letters, each in one of the ways in which it may be written. -/
theorem word?_eq_some : word? letters t = some r ↔ ∃ u, List.Forall₂ Fits letters u ∧ t = u ++ r := by
  induction letters generalizing t with
  | nil => simp [eq_comm]
  | cons l letters ih =>
    cases t with
    | nil => simp [word?_cons_nil, List.forall₂_cons_left_iff]
    | cons c t =>
      by_cases h : Fits l c
      · rw [word?_of_fits h, ih]
        constructor
        · rintro ⟨u, hu, rfl⟩
          exact ⟨c :: u, .cons h hu, rfl⟩
        · rintro ⟨u, hu, ht⟩
          obtain ⟨d, v, -, hv, rfl⟩ := List.forall₂_cons_left_iff.1 hu
          obtain ⟨-, rfl⟩ := List.cons.inj ht
          exact ⟨v, hv, rfl⟩
      · rw [word?_of_not_fits h]
        refine iff_of_false (fun h => by cases h) ?_
        rintro ⟨u, hu, ht⟩
        obtain ⟨d, v, hd, -, rfl⟩ := List.forall₂_cons_left_iff.1 hu
        exact h ((List.cons.inj ht).1 ▸ hd)

/-- A character that fits no letter ends every attempt to read the word before it. -/
theorem word?_append_of_head (h : Unfit letters c) (s t : Text) :
    word? letters (s ++ c :: t) = (word? letters s).map (· ++ c :: t) := by
  induction letters generalizing s with
  | nil => simp
  | cons l letters ih =>
    have hrest : Unfit letters c := fun m hm => h m (List.mem_cons_of_mem _ hm)
    cases s with
    | nil => exact word?_of_not_fits (h l List.mem_cons_self)
    | cons d s =>
      rw [List.cons_append, word?_cons_cons, word?_cons_cons]
      split
      · exact ih hrest s
      · rfl

theorem word?_append_of_last (h : Unfit letters e) (s t : Text) :
    word? letters (s ++ [e] ++ t) = (word? letters (s ++ [e])).map (· ++ t) := by
  rw [List.append_assoc, List.singleton_append, word?_append_of_head h s t, word?_append_of_head h s [], Option.map_map]
  refine Option.map_congr fun r _ => ?_
  simp

/-- A word does not take such a character with it. -/
theorem getLast?_of_word? (h : Unfit letters e) (hs : s.getLast? = some e) (hr : word? letters s = some r) :
    r.getLast? = some e := by
  obtain ⟨a, rfl⟩ := List.getLast?_eq_some_iff.1 hs
  rw [word?_append_of_head h a []] at hr
  obtain ⟨r, -, rfl⟩ := Option.map_eq_some_iff.1 hr
  exact List.getLast?_concat

theorem not_mem_of_unfit (hc : Unfit letters c) (h : List.Forall₂ Fits letters t) : c ∉ t := by
  induction h with
  | nil => exact List.not_mem_nil
  | cons hfirst _ ih =>
    intro hmem
    rcases List.mem_cons.1 hmem with rfl | hmem
    · exact hc _ List.mem_cons_self hfirst
    · exact ih (fun l hl => hc l (List.mem_cons_of_mem _ hl)) hmem

end Words

section Runs
variable {p : CodePoint → Bool} {n : Nat} {c e : CodePoint} {r s t : Text} {lead : String}

def Starts (t : Text) : Prop := t.head?.any CodePoint.isSpace = false

theorem skipSpace_append (h : Starts t) (s : Text) : skipSpace (s ++ t) = skipSpace s ++ t := by
  have ht : skipSpace t = t := by
    cases t with
    | nil => rfl
    | cons c t => exact List.dropWhile_cons_of_neg (Bool.eq_false_iff.1 h)
  rw [skipSpace, List.dropWhile_append]
  split
  · next hs =>
    have hnil : skipSpace s = [] := List.isEmpty_iff.1 hs
    rw [hnil]
    exact ht
  · rfl

theorem space?_append (h : Starts t) (s : Text) : space? (s ++ t) = (space? s).map (· ++ t) := by
  cases s with
  | nil =>
    cases t with
    | nil => rfl
    | cons c t => exact if_neg (Bool.eq_false_iff.1 h)
  | cons c s =>
    have hcons : ∀ u : Text, space? (c :: u) = if c.isSpace then some (skipSpace u) else none := fun _ => rfl
    rw [List.cons_append, hcons, hcons]
    split
    · rw [skipSpace_append h, Option.map_some]
    · rfl

theorem suffix_space? (h : space? s = some r) : r <:+ s := by
  cases s with
  | nil => cases h
  | cons c s =>
    obtain ⟨-, h⟩ := Option.ite_none_right_eq_some.1 h
    cases h
    exact (List.dropWhile_suffix _).trans (List.suffix_cons c s)

theorem suffix_word? {letters : List Char} (h : word? letters s = some r) : r <:+ s := by
  obtain ⟨u, -, rfl⟩ := word?_eq_some.1 h
  exact List.suffix_append u r

theorem suffix_literal? (h : literal? lead s = some r) : r <:+ s :=
  ⟨_, (Text.dropPrefix?_eq_some.1 h).symm⟩

theorem run?_eq_some : run? n p s = some r ↔ n ≤ (s.takeWhile p).length ∧ s.dropWhile p = r := by
  rw [run?, Option.ite_none_right_eq_some, Option.some.injEq]

theorem suffix_run? (h : run? n p s = some r) : r <:+ s := by
  rw [← (run?_eq_some.1 h).2]
  exact List.dropWhile_suffix p

theorem length_takeWhile_lt (h : s.dropWhile p ≠ []) : (s.takeWhile p).length < s.length := by
  have hlength := congrArg List.length (List.takeWhile_append_dropWhile (p := p) (l := s))
  have hpos : 0 < (s.dropWhile p).length := List.length_pos_iff.2 h
  rw [List.length_append] at hlength
  omega

/-- A run that has ended does not go on behind the border. -/
theorem run?_append_of_ended (h : s.dropWhile p ≠ []) (n : Nat) (t : Text) :
    run? n p (s ++ t) = (run? n p s).map (· ++ t) := by
  have htake : (s ++ t).takeWhile p = s.takeWhile p := by
    rw [List.takeWhile_append, if_neg (Nat.ne_of_lt (length_takeWhile_lt h))]
  have hdrop : (s ++ t).dropWhile p = s.dropWhile p ++ t := by
    rw [List.dropWhile_append, if_neg (by simpa using h)]
  rw [run?, run?, htake, hdrop]
  split <;> rfl

/-- A run that has not ended does. -/
theorem run?_append_of_open (h : s.dropWhile p = []) (n : Nat) (t : Text) :
    run? n p (s ++ t) = run? (n - s.length) p t := by
  have hall : ∀ c ∈ s, p c = true := List.dropWhile_eq_nil_iff.1 h
  rw [run?, run?, List.takeWhile_append_of_pos hall, List.dropWhile_append_of_pos hall, List.length_append]
  congr 1
  exact propext (by omega)

/-- What follows a run that has ended begins with a character of another class. -/
theorem head_of_run? (h : s.dropWhile p ≠ []) (hr : run? n p s = some r) : ∃ c u, r = c :: u ∧ p c = false := by
  obtain ⟨c, u, hcu⟩ := List.exists_cons_of_ne_nil h
  rw [(run?_eq_some.1 hr).2] at hcu
  refine ⟨c, u, hcu, ?_⟩
  have hhead := List.head?_dropWhile_not p s
  rw [(run?_eq_some.1 hr).2, hcu] at hhead
  exact hhead

theorem dropWhile_ne_nil_of_last (h : s.getLast? = some e) (hp : p e = false) : s.dropWhile p ≠ [] := by
  intro hnil
  have hall := List.dropWhile_eq_nil_iff.1 hnil e (List.mem_of_getLast? h)
  rw [hp] at hall
  cases hall

theorem literal?_append_of_head (h : c ∉ Text.ofString lead) (s t : Text) :
    literal? lead (s ++ c :: t) = (literal? lead s).map (· ++ c :: t) := by
  unfold literal?
  generalize Text.ofString lead = letters at h
  induction letters generalizing s with
  | nil => simp [Text.dropPrefix?]
  | cons l letters ih =>
    obtain ⟨hl, hrest⟩ := not_or.1 (mt List.mem_cons.2 h)
    cases s with
    | nil => exact if_neg (Ne.symm hl)
    | cons d s =>
      have hcons : ∀ u : Text, Text.dropPrefix? (l :: letters) (d :: u) =
          if l = d then Text.dropPrefix? letters u else none := fun _ => rfl
      rw [List.cons_append, hcons, hcons]
      split
      · exact ih s hrest
      · rfl

theorem literal?_append_of_last (h : e ∉ Text.ofString lead) (hs : s.getLast? = some e) (t : Text) :
    literal? lead (s ++ t) = (literal? lead s).map (· ++ t) := by
  obtain ⟨a, rfl⟩ := List.getLast?_eq_some_iff.1 hs
  rw [List.append_assoc, List.singleton_append, literal?_append_of_head h a t, literal?_append_of_head h a [],
    Option.map_map]
  refine Option.map_congr fun r _ => ?_
  simp

theorem getLast?_of_literal? (h : e ∉ Text.ofString lead) (hs : s.getLast? = some e) (hr : literal? lead s = some r) :
    r.getLast? = some e := by
  obtain ⟨a, rfl⟩ := List.getLast?_eq_some_iff.1 hs
  rw [literal?_append_of_head h a []] at hr
  obtain ⟨r, -, rfl⟩ := Option.map_eq_some_iff.1 hr
  exact List.getLast?_concat

end Runs

section Seeking
variable {α : Type} {step : CodePoint → Bool} {p : Text → Option α} {a : α} {r s t : Text}

theorem seek?_cons (c : CodePoint) (t : Text) : seek? step p (c :: t) =
    ((p (c :: t)).map fun a => (c :: t, a)).or (if step c then seek? step p t else none) := by
  rw [seek?]
  cases p (c :: t) <;> rfl

theorem seek?_of_some (h : p t = some a) : seek? step p t = some (t, a) := by
  cases t with
  | nil => rw [seek?, h, Option.map_some]
  | cons c t => rw [seek?_cons, h, Option.map_some, Option.some_or]

/-- What is sought is found at a tail, and nowhere before it. -/
theorem seek?_eq_some (h : seek? step p t = some (r, a)) : r <:+ t ∧ p r = some a := by
  induction t with
  | nil =>
    obtain ⟨b, hb, heq⟩ := Option.map_eq_some_iff.1 h
    cases heq
    exact ⟨List.suffix_refl _, hb⟩
  | cons c t ih =>
    rw [seek?_cons, Option.or_eq_some_iff] at h
    rcases h with h | ⟨-, h⟩
    · obtain ⟨b, hb, heq⟩ := Option.map_eq_some_iff.1 h
      cases heq
      exact ⟨List.suffix_refl _, hb⟩
    · obtain ⟨-, h⟩ := Option.ite_none_right_eq_some.1 h
      exact ⟨(ih h).1.trans (List.suffix_cons c t), (ih h).2⟩

/-- A search finds what it finds before a border whatever is behind it, or goes on there unless a character has stopped
it; all this up to the first place that crosses the border, where something is always found. -/
theorem seek?_append_or (step : CodePoint → Bool) {X C : Text → Prop} {g : Text → α → α} (hnil : p [] = none)
    (h : ∀ u, u <:+ s → u ≠ [] → (∀ t, X t → p (u ++ t) = (p u).map (g t)) ∨
      C u ∧ ∀ t, X t → (p (u ++ t)).isSome = true) :
    (∀ t, X t → seek? step p (s ++ t) = ((seek? step p s).map fun m => (m.1 ++ t, g t m.2)).or
      (if s.all step then seek? step p t else none)) ∨
    ∃ u, u <:+ s ∧ C u ∧ ∀ t, X t → seek? step p (s ++ t) = (p (u ++ t)).map fun a => (u ++ t, a) := by
  induction s with
  | nil =>
    refine Or.inl fun t _ => ?_
    rw [List.nil_append, seek?, hnil]
    rfl
  | cons c s ih =>
    rcases h (c :: s) (List.suffix_refl _) (List.cons_ne_nil c s) with hsame | ⟨hcross, hfound⟩
    · have hcons : ∀ t, X t → seek? step p (c :: s ++ t) =
          ((p (c :: s)).map fun a => (c :: s ++ t, g t a)).or (if step c then seek? step p (s ++ t) else none) := by
        intro t ht
        have here := hsame t ht
        rw [List.cons_append] at here ⊢
        rw [seek?_cons, here]
        cases p (c :: s) <;> rfl
      cases hat : p (c :: s) with
      | some a =>
        refine Or.inl fun t ht => ?_
        rw [hcons t ht, seek?_cons, hat]
        rfl
      | none =>
        rcases ih fun u hu => h u (hu.trans (List.suffix_cons c s)) with hrest | ⟨u, hu, hcross, hrest⟩
        · refine Or.inl fun t ht => ?_
          rw [hcons t ht, hrest t ht, seek?_cons, hat, List.all_cons]
          cases step c <;> rfl
        · by_cases hc : step c = true
          · refine Or.inr ⟨u, hu.trans (List.suffix_cons c s), hcross, fun t ht => ?_⟩
            rw [hcons t ht, hrest t ht, hat, if_pos hc]
            rfl
          · refine Or.inl fun t ht => ?_
            rw [hcons t ht, seek?_cons, hat, if_neg hc, if_neg hc, List.all_cons, Bool.eq_false_iff.2 hc]
            rfl
    · refine Or.inr ⟨c :: s, List.suffix_refl _, hcross, fun t ht => ?_⟩
      have here := hfound t ht
      rw [List.cons_append] at here ⊢
      obtain ⟨a, ha⟩ := Option.isSome_iff_exists.1 here
      rw [seek?_cons, ha]
      rfl

theorem seek?_append {g : α → α} (hnil : p [] = none) (h : ∀ u, u <:+ s → u ≠ [] → p (u ++ t) = (p u).map g) :
    seek? step p (s ++ t) = ((seek? step p s).map fun m => (m.1 ++ t, g m.2)).or
      (if s.all step then seek? step p t else none) := by
  rcases seek?_append_or step (X := (· = t)) (C := fun _ => False) (g := fun _ => g) hnil
    (fun u hu hne => Or.inl fun t' ht => ht ▸ h u hu hne) with hsame | ⟨_, -, hfalse, -⟩
  · exact hsame t rfl
  · exact hfalse.elim

/-- If nothing is found before a border, the search goes on behind it, unless a character has stopped it. -/
theorem seek?_append_of_none (h : ∀ u, u <:+ s → u ≠ [] → p (u ++ t) = none) :
    seek? step p (s ++ t) = if s.all step then seek? step p t else none := by
  induction s with
  | nil => rfl
  | cons c s ih =>
    have hfirst := h (c :: s) (List.suffix_refl _) (List.cons_ne_nil c s)
    have hrest := ih fun u hu => h u (hu.trans (List.suffix_cons c s))
    rw [List.cons_append] at hfirst ⊢
    rw [seek?_cons, hfirst, hrest, List.all_cons]
    cases step c <;> rfl

end Seeking

end Custody.Redaction
