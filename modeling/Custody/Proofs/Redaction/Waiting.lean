import Custody.Proofs.Redaction.Rules
import Mathlib.Data.List.Infix

/-! Texts that end where the value of an opening is still to come. Masking a text brings no such end about. -/
namespace Custody.Redaction

/-- A text has an end that is read to its last character. -/
def Awaits (f : Text → Option Text) (t : Text) : Prop := ∃ s, s <:+ t ∧ f s = some []

instance (f : Text → Option Text) (t : Text) : Decidable (Awaits f t) :=
  decidable_of_iff (∃ s ∈ t.tails, f s = some []) (by simp only [List.mem_tails, Awaits])

def longOpening (t : Text) : Option Text := (optionName? "--password" t).bind space?

def shortOpening (t : Text) : Option Text := (optionName? "-p" t).bind space?

def schemeOpening (t : Text) : Option Text := (schemeName? t).bind space?

def printerOpening (t : Text) : Option Text := (printer? t).bind space?

/-- A text in which a login is mentioned, within a word or by itself. -/
def MentionsLogin (t : Text) : Prop := ∃ s, s <:+ t ∧ word? "login".toList s ≠ none

instance (t : Text) : Decidable (MentionsLogin t) :=
  decidable_of_iff (∃ s ∈ t.tails, word? "login".toList s ≠ none) (by simp only [List.mem_tails, MentionsLogin])

/-- What a reader takes has no closing bracket in it, so nothing of a mark at its end. -/
def Spares (f : Text → Option Text) : Prop := ∀ t r, f t = some r → ∃ u, t = u ++ r ∧ (']' : CodePoint) ∉ u

section Spares
variable {a a' r s t : Text} {f g : Text → Option Text} {name way : Text → Option Text} {n v : Text}

theorem bind_of_opening (h : opening name way t = some (n, v)) : (name t).bind way = some v := by
  obtain ⟨hn, hv⟩ := opening_eq_some.1 h
  rw [hn, Option.bind_some, hv]

theorem Spares.bind (hf : Spares f) (hg : Spares g) : Spares fun t => (f t).bind g := by
  intro t r h
  obtain ⟨s, hs, hr⟩ := Option.bind_eq_some_iff.1 h
  obtain ⟨u, rfl, hu⟩ := hf t s hs
  obtain ⟨v, rfl, hv⟩ := hg s r hr
  exact ⟨u ++ v, (List.append_assoc u v r).symm, fun hmem => (List.mem_append.1 hmem).elim hu hv⟩

theorem Spares.or (hf : Spares f) (hg : Spares g) : Spares fun t => (f t).or (g t) := by
  intro t r h
  rcases Option.or_eq_some_iff.1 h with h | ⟨-, h⟩
  · exact hf t r h
  · exact hg t r h

theorem spares_word {letters : List Char} (h : Unfit letters ']') : Spares (word? letters) := by
  intro t r hr
  obtain ⟨u, hu, rfl⟩ := word?_eq_some.1 hr
  exact ⟨u, rfl, not_mem_of_unfit h hu⟩

theorem spares_skipSpace (t : Text) : ∃ u, t = u ++ skipSpace t ∧ (']' : CodePoint) ∉ u := by
  refine ⟨t.takeWhile CodePoint.isSpace, List.takeWhile_append_dropWhile.symm, fun hmem => ?_⟩
  have hspace : CodePoint.isSpace (']' : CodePoint) = true := List.mem_takeWhile_imp hmem
  cases hspace

theorem spares_space : Spares space? := by
  intro t r h
  cases t with
  | nil => cases h
  | cons c t =>
    obtain ⟨hc, h⟩ := Option.ite_none_right_eq_some.1 h
    cases h
    obtain ⟨u, ht, hu⟩ := spares_skipSpace t
    refine ⟨c :: u, by rw [List.cons_append, ← ht], fun hmem => ?_⟩
    rcases List.mem_cons.1 hmem with rfl | hmem
    · cases hc
    · exact hu hmem

theorem spares_optionName {w : String} (h : Unfit w.toList ']') : Spares (optionName? w) := by
  intro t r hr
  cases t with
  | nil => cases hr
  | cons c t =>
    obtain ⟨hc, hr⟩ := Option.ite_none_right_eq_some.1 hr
    obtain ⟨u, rfl, hu⟩ := spares_word h t r hr
    refine ⟨c :: u, rfl, fun hmem => ?_⟩
    rcases List.mem_cons.1 hmem with rfl | hmem
    · cases hc
    · exact hu hmem

theorem spares_longOpening : Spares longOpening := (spares_optionName (by decide)).bind spares_space

theorem spares_shortOpening : Spares shortOpening := (spares_optionName (by decide)).bind spares_space

theorem spares_schemeOpening : Spares schemeOpening :=
  ((spares_word (by decide)).or (spares_word (by decide))).bind spares_space

theorem spares_printerOpening : Spares printerOpening := by
  have hprinter : Spares printer? := by
    rw [show printer? = _ from funext printer?_eq]
    exact (spares_word (by decide)).or (((spares_word (by decide)).bind spares_space).bind (spares_word (by decide)))
  exact hprinter.bind spares_space

theorem spares_joined {first second : String} (h : Unfit first.toList ']') (h' : Unfit second.toList ']') :
    Spares (joined? first second) := by
  refine (spares_word h).bind fun t r hr => ?_
  obtain ⟨u, hu, hmem⟩ := spares_word h' (skipJoint t) r hr
  cases t with
  | nil => exact ⟨u, hu, hmem⟩
  | cons c t =>
    unfold skipJoint at hu
    dsimp only at hu
    split at hu
    · next hc =>
      refine ⟨c :: u, by rw [hu]; rfl, fun h => ?_⟩
      rcases List.mem_cons.1 h with rfl | h
      · exact hc.elim (fun h => by cases h) fun h => by cases h
      · exact hmem h
    · exact ⟨u, hu, hmem⟩

theorem spares_secretName : Spares secretName? := by
  have hall : ∀ f ∈ nameReaders, Spares f := by
    intro f hf
    simp only [nameReaders, List.mem_cons, List.not_mem_nil, or_false] at hf
    rcases hf with rfl | rfl | rfl | rfl | rfl | rfl | rfl
    · exact spares_joined (by decide) (by decide)
    · exact spares_word (by decide)
    · exact spares_word (by decide)
    · exact spares_word (by decide)
    · exact spares_word (by decide)
    · exact spares_joined (by decide) (by decide)
    · exact spares_word (by decide)
  intro t r hr
  rw [secretName?_eq] at hr
  obtain ⟨f, hf, hr⟩ := List.exists_of_findSome?_eq_some hr
  exact hall f hf t r hr

theorem spares_namedValue : Spares namedValue? := by
  have hsign : Spares valueSign? := by
    intro t r h
    cases t with
    | nil => cases h
    | cons c t =>
      obtain ⟨hc, h⟩ := Option.ite_none_right_eq_some.1 h
      cases h
      refine ⟨[c], rfl, fun hmem => ?_⟩
      cases List.mem_singleton.1 hmem
      exact hc.elim (fun h => by cases h) fun h => by cases h
  intro t r h
  obtain ⟨s, hs, rfl⟩ := Option.map_eq_some_iff.1 h
  obtain ⟨n, hn, hsignAt⟩ := Option.bind_eq_some_iff.1 hs
  obtain ⟨u, rfl, hu⟩ := spares_secretName t n hn
  obtain ⟨v, hv, hv'⟩ := spares_skipSpace n
  obtain ⟨w, hw, hw'⟩ := hsign _ s hsignAt
  obtain ⟨x, hx, hx'⟩ := spares_skipSpace s
  refine ⟨u ++ (v ++ (w ++ x)), ?_, by simp only [List.mem_append, not_or]; exact ⟨hu, hv', hw', hx'⟩⟩
  calc u ++ n = u ++ (v ++ (w ++ (x ++ skipSpace s))) := by rw [← hx, ← hw, ← hv]
    _ = u ++ (v ++ (w ++ x)) ++ skipSpace s := by simp only [List.append_assoc]

/-- Behind a mark nothing is awaited that was not awaited before. -/
theorem Awaits.of_masked (hf : Spares f) (h : Masked a a') (ha : Awaits f a') : Awaits f a := by
  obtain ⟨s, hs, hread⟩ := ha
  obtain ⟨u, hu, hmem⟩ := hf s [] hread
  rw [List.append_nil] at hu
  exact ⟨s, h.ends.suffix_of_not_mem hs (hu ▸ hmem), hread⟩

theorem MentionsLogin.of_masked (h : Masked a a') (ha : MentionsLogin a') : MentionsLogin a := by
  obtain ⟨s, hs, hread⟩ := ha
  have hglue : ∀ c ∈ (" [REDACTED]" : Text), Unfit "login".toList c := by decide
  exact h.word hglue hs hread

end Spares

end Custody.Redaction
