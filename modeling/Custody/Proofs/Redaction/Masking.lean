import Custody.Proofs.Redaction.Reading

/-! What a rule makes of a text, up to a border and behind it. -/
namespace Custody.Redaction

/-- What the rules have in common: a match takes at least one character and is replaced by something from its start and a
mark, and of the character before its place only its class matters. -/
structure IsRule (p : Pattern) : Prop where
  reads : ∀ {b t m}, p b t = some m → ∃ c u, t = c :: u ++ m.rest
  marks : ∀ {b t m}, p b t = some m → ∃ u gap, m.output = u ++ gap ++ mark ∧ u <+: t ∧ (gap = [] ∨ gap = " ")
  blind : ∀ {b b'} t, b.any CodePoint.isWord = b'.any CodePoint.isWord → p b t = p b' t

/-- A match is replaced by something that begins like it, up to a character other than white space. -/
def KeepsStart (p : Pattern) : Prop := ∀ b t m, p b t = some m → ∃ u w, m.output = u ++ w ∧ u <+: t ∧
  ∃ c ∈ u, c.isSpace = false

/-- Two texts have the same first character, and the same one behind white space. -/
def SameStart (t t' : Text) : Prop := t'.head? = t.head? ∧ (skipSpace t').head? = (skipSpace t).head?

section Substitution
variable {p : Pattern} {b b' : Option CodePoint} {c : CodePoint} {o r s t u x : Text}

theorem getLast?_cons_or (c : CodePoint) (u : Text) (b : Option CodePoint) :
    (c :: u).getLast?.or b = u.getLast?.or (some c) := by
  rw [List.getLast?_cons]
  cases u.getLast? <;> rfl

@[simp]
theorem substitute_nil (p : Pattern) (b : Option CodePoint) (skip : Nat) : substitute p b skip [] = [] := by
  cases skip <;> rfl

theorem substitute_of_none (h : p b (c :: t) = none) :
    substitute p b 0 (c :: t) = c :: substitute p (some c) 0 t := by
  rw [substitute, h]

private theorem substitute_skip (p : Pattern) (b : Option CodePoint) (u r : Text) :
    substitute p b u.length (u ++ r) = substitute p (u.getLast?.or b) 0 r := by
  induction u generalizing b with
  | nil => rfl
  | cons c u ih =>
    rw [getLast?_cons_or, ← ih (some c)]
    rfl

/-- A match is replaced, and the search goes on behind it. -/
theorem substitute_of_some (h : p b (c :: u ++ r) = some ⟨o, r⟩) :
    substitute p b 0 (c :: u ++ r) = o ++ substitute p (c :: u).getLast? 0 r := by
  have hlength : (u ++ r).length - r.length = u.length := by
    rw [List.length_append, Nat.add_sub_cancel]
  have hlast : (c :: u).getLast? = u.getLast?.or (some c) := by
    rw [← getLast?_cons_or c u none, Option.or_none]
  rw [List.cons_append] at h ⊢
  rw [substitute, h]
  dsimp only
  rw [hlength, substitute_skip, hlast]

theorem IsRule.substitute_congr (hp : IsRule p) (h : b.any CodePoint.isWord = b'.any CodePoint.isWord) (t : Text) :
    substitute p b 0 t = substitute p b' 0 t := by
  cases t with
  | nil => rfl
  | cons c t => rw [substitute, substitute, hp.blind (c :: t) h]

/-- What passes from the rest of a text to the text, over one character or over a match, holds of every text. -/
theorem IsRule.induction (hp : IsRule p) {motive : Option CodePoint → Text → Prop} (nil : ∀ b, motive b [])
    (pass : ∀ b c t, p b (c :: t) = none → motive (some c) t → motive b (c :: t))
    (skip : ∀ b c u o r, p b (c :: u ++ r) = some ⟨o, r⟩ → motive (c :: u).getLast? r → motive b (c :: u ++ r))
    (b : Option CodePoint) (t : Text) : motive b t := by
  -- What follows a match is shorter, but it is no tail in the sense of the recursion.
  induction hn : t.length using Nat.strong_induction_on generalizing b t with
  | _ n ih =>
    subst hn
    cases t with
    | nil => exact nil b
    | cons c t =>
      cases hm : p b (c :: t) with
      | none => exact pass b c t hm (ih t.length (Nat.lt_succ_self _) (some c) t rfl)
      | some m =>
        obtain ⟨o, r⟩ := m
        obtain ⟨d, u, hread⟩ : ∃ d u, c :: t = d :: u ++ r := hp.reads hm
        have hlt : r.length < (c :: t).length := by
          rw [hread, List.length_append, List.length_cons]
          omega
        rw [hread] at hm ⊢
        exact skip b d u o r hm (ih r.length hlt (d :: u).getLast? r rfl)

/-- There is no match at any place of `x`, when `t` follows it. -/
def Misses (p : Pattern) (b : Option CodePoint) (x t : Text) : Prop :=
  ∀ u s, x = u ++ s → s ≠ [] → p (u.getLast?.or b) (s ++ t) = none

theorem Misses.tail (h : Misses p b (c :: x) t) : Misses p (some c) x t := by
  intro u s hx hs
  have hcons := h (c :: u) s (by rw [hx, List.cons_append]) hs
  rwa [getLast?_cons_or] at hcons

theorem Misses.append {y : Text} (hx : Misses p b x (y ++ t)) (hy : Misses p (x.getLast?.or b) y t) :
    Misses p b (x ++ y) t := by
  intro u s hu hs
  rcases List.append_eq_append_iff.1 hu with ⟨z, rfl, rfl⟩ | ⟨z, rfl, rfl⟩
  · have hlast : (x ++ z).getLast?.or b = z.getLast?.or (x.getLast?.or b) := by
      rw [List.getLast?_append, Option.or_assoc]
    rw [hlast]
    exact hy z s rfl hs
  · cases z with
    | nil => simpa using hy [] y rfl (by simpa using hs)
    | cons c z =>
      rw [List.append_assoc]
      exact hx u (c :: z) rfl (List.cons_ne_nil c z)

theorem substitute_of_misses (h : Misses p b x t) :
    substitute p b 0 (x ++ t) = x ++ substitute p (x.getLast?.or b) 0 t := by
  induction x generalizing b with
  | nil => rfl
  | cons c x ih =>
    have hfirst : p b (c :: (x ++ t)) = none := h [] (c :: x) rfl (List.cons_ne_nil c x)
    rw [List.cons_append, substitute_of_none hfirst, ih h.tail, getLast?_cons_or, List.cons_append]

theorem SameStart.refl (t : Text) : SameStart t t := ⟨rfl, rfl⟩

theorem SameStart.trans {t t' t'' : Text} (h : SameStart t t') (h' : SameStart t' t'') : SameStart t t'' :=
  ⟨h'.1.trans h.1, h'.2.trans h.2⟩

theorem SameStart.cons {t t' : Text} (h : SameStart t t') (c : CodePoint) : SameStart (c :: t) (c :: t') := by
  refine ⟨rfl, ?_⟩
  by_cases hc : c.isSpace = true
  · rw [skipSpace, skipSpace, List.dropWhile_cons_of_pos hc, List.dropWhile_cons_of_pos hc]
    exact h.2
  · rw [skipSpace, skipSpace, List.dropWhile_cons_of_neg hc, List.dropWhile_cons_of_neg hc]
    rfl

/-- What a text begins with, up to a character other than white space, begins any text like it. -/
theorem sameStart_of_prefix (hu : u <+: t) (hc : ∃ c ∈ u, c.isSpace = false) (z : Text) : SameStart t (u ++ z) := by
  obtain ⟨w, rfl⟩ := hu
  obtain ⟨c, hmem, hc⟩ := hc
  have hskip : ∀ z : Text, (skipSpace (u ++ z)).head? = (skipSpace u).head? := by
    intro z
    have hne : skipSpace u ≠ [] := fun hnil => by
      have hall := List.dropWhile_eq_nil_iff.1 hnil c hmem
      rw [hc] at hall
      cases hall
    obtain ⟨d, v, hd⟩ := List.exists_cons_of_ne_nil hne
    have happend : skipSpace (u ++ z) = skipSpace u ++ z := by
      rw [skipSpace, List.dropWhile_append, if_neg (by simpa [skipSpace] using hne)]
      rfl
    rw [happend, hd]
    rfl
  refine ⟨?_, (hskip z).trans (hskip w).symm⟩
  obtain ⟨d, v, rfl⟩ := List.exists_cons_of_ne_nil (List.ne_nil_of_mem hmem)
  rfl

theorem KeepsStart.sameStart (hp : KeepsStart p) (b : Option CodePoint) (t : Text) :
    SameStart t (substitute p b 0 t) := by
  induction t generalizing b with
  | nil => exact .refl []
  | cons c t ih =>
    cases h : p b (c :: t) with
    | none =>
      rw [substitute_of_none h]
      exact (ih (some c)).cons c
    | some m =>
      obtain ⟨u, w, hout, hu, hc⟩ := hp b (c :: t) m h
      rw [substitute, h]
      dsimp only
      rw [hout, List.append_assoc]
      exact sameStart_of_prefix hu hc _

end Substitution

section Masked
variable {a a' a'' k o r t : Text} {c : CodePoint}

/-- A text with some secrets masked ends like the original, after a mark and from a character on that ends a value. -/
def EndsLike (a a' : Text) : Prop :=
  a' = a ∨ ∃ u c v, a' = u ++ (']' : CodePoint) :: c :: v ∧ c :: v <:+ a ∧ isPayloadChar c = false

theorem EndsLike.refl (a : Text) : EndsLike a a := Or.inl rfl

theorem EndsLike.getLast? (h : EndsLike a a') : a'.getLast? = a.getLast? := by
  rcases h with rfl | ⟨u, c, v, rfl, ⟨w, rfl⟩, -⟩
  · rfl
  · rw [List.getLast?_append, List.getLast?_append, List.getLast?_cons_cons]
    have hsome : (c :: v).getLast? = some (v.getLast?.getD c) := List.getLast?_cons
    rw [hsome]
    rfl

theorem EndsLike.cons (h : EndsLike a a') (c : CodePoint) : EndsLike (c :: a) (c :: a') := by
  rcases h with rfl | ⟨u, d, v, rfl, hv, hd⟩
  · exact .refl _
  · exact Or.inr ⟨c :: u, d, v, rfl, hv.trans (List.suffix_cons c a), hd⟩

/-- A value that ends before `r` has been masked. -/
theorem EndsLike.mask (h : EndsLike r a') (hr : r <:+ a) (hc : ∃ c u, r = c :: u ∧ isPayloadChar c = false)
    (ho : mark <:+ o) : EndsLike a (o ++ a') := by
  obtain ⟨w, rfl⟩ := ho
  rcases h with rfl | ⟨u, d, v, rfl, hv, hd⟩
  · obtain ⟨c, u, rfl, hc⟩ := hc
    exact Or.inr ⟨w ++ "[REDACTED", c, u, by rw [List.append_assoc, List.append_assoc]; rfl, hr, hc⟩
  · exact Or.inr ⟨w ++ mark ++ u, d, v, by rw [List.append_assoc (w ++ mark)], hv.trans hr, hd⟩

/-- What could belong to a value at the end of the original is still there. -/
theorem EndsLike.suffix (h : EndsLike a a') (hk : k <:+ a) (solid : ∀ c ∈ k, isPayloadChar c = true) : k <:+ a' := by
  rcases h with rfl | ⟨u, c, v, rfl, hv, hc⟩
  · exact hk
  · rcases List.suffix_or_suffix_of_suffix hk hv with hkv | hvk
    · exact hkv.trans ⟨u ++ [(']' : CodePoint)], by simp⟩
    · have hmem := solid c (hvk.mem List.mem_cons_self)
      rw [hc] at hmem
      cases hmem

/-- What the masked text ends in after its last mark, the original ends in too. -/
theorem EndsLike.suffix_of_not_mem (h : EndsLike a a') (hk : k <:+ a') (hmark : (']' : CodePoint) ∉ k) : k <:+ a := by
  rcases h with rfl | ⟨u, c, v, rfl, hv, -⟩
  · exact hk
  · rcases List.suffix_or_suffix_of_suffix hk (List.suffix_append u _) with hkv | hvk
    · rcases List.suffix_cons_iff.1 hkv with rfl | hkv
      · exact absurd List.mem_cons_self hmark
      · exact hkv.trans hv
    · exact absurd (hvk.mem List.mem_cons_self) hmark

theorem EndsLike.trans (h : EndsLike a a') (h' : EndsLike a' a'') : EndsLike a a'' := by
  rcases h' with rfl | ⟨u, c, v, rfl, hv, hc⟩
  · exact h
  · rcases h with rfl | ⟨u', c', v', rfl, hv', hc'⟩
    · exact Or.inr ⟨u, c, v, rfl, hv, hc⟩
    · rcases List.suffix_or_suffix_of_suffix hv (List.suffix_append u' _) with hvv | ⟨w, hw⟩
      · rcases List.suffix_cons_iff.1 hvv with heq | hvv
        · obtain ⟨rfl, rfl⟩ := List.cons.inj heq
          exact Or.inr ⟨u ++ [(']' : CodePoint)], c', v', by simp, hv', hc'⟩
        · exact Or.inr ⟨u, c, v, rfl, hvv.trans hv', hc⟩
      · refine Or.inr ⟨u ++ (']' : CodePoint) :: w, c', v', ?_, hv', hc'⟩
        rw [← hw]
        simp

/-- A character of what is put in place of a value. -/
def Glue (c : CodePoint) : Prop := c ∈ (" [REDACTED]" : Text)

instance (c : CodePoint) : Decidable (Glue c) := inferInstanceAs (Decidable (_ ∈ _))

/-- `s` goes along with `t` up to a place where a value has been replaced, if there is one. -/
def Begins (t s : Text) : Prop := ∃ u v, s = u ++ v ∧ u <+: t ∧ ∀ c ∈ v.head?, Glue c

theorem Begins.refl (t : Text) : Begins t t := ⟨t, [], (List.append_nil t).symm, List.prefix_refl t, fun _ h => by cases h⟩

theorem Begins.cons {s : Text} (h : Begins t s) (c : CodePoint) : Begins (c :: t) (c :: s) := by
  obtain ⟨u, v, rfl, hu, hv⟩ := h
  exact ⟨c :: u, v, rfl, List.prefix_cons_inj c |>.2 hu, hv⟩

theorem Begins.trans {t' s : Text} (h : Begins t t') (h' : Begins t' s) : Begins t s := by
  obtain ⟨u, v, rfl, hu, hv⟩ := h
  obtain ⟨u', v', rfl, hu', hv'⟩ := h'
  rcases List.prefix_or_prefix_of_prefix hu' (List.prefix_append u v) with hle | ⟨w, rfl⟩
  · exact ⟨u', v', rfl, hle.trans hu, hv'⟩
  · -- The first text leaves the original earlier.
    cases w with
    | nil => exact ⟨u, v', by rw [List.append_nil], hu, hv'⟩
    | cons c w =>
      obtain ⟨z, hz⟩ := (List.prefix_append_right_inj u).1 hu'
      refine ⟨u, c :: w ++ v', by rw [List.append_assoc], hu, fun d hd => hv d ?_⟩
      cases hd
      rw [← hz]
      rfl

/-- What a rule makes of a text: it ends like the text, and from each place on it goes along with an end of the text up
to the next value that has been replaced. -/
structure Masked (a a' : Text) : Prop where
  ends : EndsLike a a'
  begins : Begins a a'
  kept : ∀ s, s <:+ a' → ∃ t, t <:+ a ∧ Begins t s

theorem Masked.refl (a : Text) : Masked a a := ⟨.refl a, .refl a, fun s hs => ⟨s, hs, .refl s⟩⟩

theorem Masked.trans (h : Masked a a') (h' : Masked a' a'') : Masked a a'' where
  ends := h.ends.trans h'.ends
  begins := h.begins.trans h'.begins
  kept s hs := by
    obtain ⟨t', ht', hs⟩ := h'.kept s hs
    obtain ⟨t, ht, ht'⟩ := h.kept t' ht'
    exact ⟨t, ht, ht'.trans hs⟩

theorem Masked.cons (h : Masked a a') (c : CodePoint) : Masked (c :: a) (c :: a') where
  ends := h.ends.cons c
  begins := h.begins.cons c
  kept s hs := by
    rcases List.suffix_cons_iff.1 hs with rfl | hs
    · exact ⟨c :: a, List.suffix_refl _, h.begins.cons c⟩
    · obtain ⟨t, ht, hs⟩ := h.kept s hs
      exact ⟨t, ht.trans (List.suffix_cons c a), hs⟩

/-- A value that ends before `r` has been replaced; what is before it, `u`, has been kept. -/
theorem Masked.mask {u gap : Text} (h : Masked r a') (hr : r <:+ a) (hc : ∃ c u, r = c :: u ∧ isPayloadChar c = false)
    (hu : u <+: a) (hgap : gap = [] ∨ gap = " ") : Masked a (u ++ gap ++ mark ++ a') := by
  have hglue : ∀ c ∈ gap ++ mark, Glue c := by
    rcases hgap with rfl | rfl <;> decide
  have hne : gap ++ mark ≠ [] := List.append_ne_nil_of_right_ne_nil gap (List.cons_ne_nil _ _)
  have hhead : ∀ z w : Text, z ≠ [] → (∀ c ∈ z, Glue c) → ∀ c ∈ (z ++ w).head?, Glue c := by
    intro z w hz hall c hc
    obtain ⟨d, z, rfl⟩ := List.exists_cons_of_ne_nil hz
    cases hc
    exact hall c List.mem_cons_self
  refine ⟨h.ends.mask hr hc (List.suffix_append _ mark), ⟨u, gap ++ mark ++ a', by simp, hu, hhead _ _ hne hglue⟩,
    fun s hs => ?_⟩
  obtain ⟨y, hy⟩ := hs
  have hall : y ++ s = u ++ (gap ++ mark ++ a') := by rw [hy]; simp
  rcases List.append_eq_append_iff.1 hall with ⟨z, rfl, rfl⟩ | ⟨z, rfl, hz⟩
  · -- The place is within what has been kept.
    obtain ⟨w, rfl⟩ := hu
    exact ⟨z ++ w, ⟨y, (List.append_assoc y z w).symm⟩, z, gap ++ mark ++ a', rfl, List.prefix_append z w,
      hhead _ _ hne hglue⟩
  · rcases List.append_eq_append_iff.1 hz with ⟨x, -, ha'⟩ | ⟨x, hx, rfl⟩
    · obtain ⟨t, ht, hs⟩ := h.kept s ⟨x, ha'.symm⟩
      exact ⟨t, ht.trans hr, hs⟩
    · cases x with
      | nil => exact ⟨r, hr, h.begins⟩
      | cons c x =>
        refine ⟨[], List.nil_suffix, [], c :: x ++ a', rfl, List.nil_prefix, hhead _ _ (List.cons_ne_nil c x) ?_⟩
        exact fun d hd => hglue d (hx ▸ List.mem_append_right z hd)

/-- No other characters come into a text than those of the marks. -/
theorem Masked.mem (h : Masked a a') (hc : c ∈ a') : c ∈ a ∨ Glue c := by
  obtain ⟨x, w, rfl⟩ := List.append_of_mem hc
  obtain ⟨t, ht, u, v, hs, hu, hv⟩ := h.kept (c :: w) ⟨x, rfl⟩
  cases u with
  | nil => exact Or.inr (hv c (by rw [← List.nil_append v, ← hs]; rfl))
  | cons d u =>
    obtain ⟨rfl, -⟩ := List.cons.inj hs
    exact Or.inl (ht.mem (hu.mem List.mem_cons_self))

/-- A word without the letters of a mark is read nowhere but where it was read before. -/
theorem Masked.word {letters : List Char} {s : Text} (h : Masked a a') (hl : ∀ c, Glue c → Unfit letters c)
    (hs : s <:+ a') (hr : word? letters s ≠ none) : ∃ t, t <:+ a ∧ word? letters t ≠ none := by
  obtain ⟨t, ht, u, v, rfl, ⟨w, rfl⟩, hv⟩ := h.kept s hs
  refine ⟨u ++ w, ht, ?_⟩
  have hu : word? letters u ≠ none := by
    cases v with
    | nil => rwa [List.append_nil] at hr
    | cons d v =>
      rw [word?_append_of_head (hl d (hv d rfl))] at hr
      exact fun hnone => hr (by rw [hnone]; rfl)
  obtain ⟨q, hq⟩ := Option.ne_none_iff_exists'.1 hu
  obtain ⟨x, hx, rfl⟩ := word?_eq_some.1 hq
  have hread : word? letters (x ++ q ++ w) = some (q ++ w) := word?_eq_some.2 ⟨x, hx, List.append_assoc x q w⟩
  rw [hread]
  exact Option.some_ne_none _

end Masked

section Borders
variable {p : Pattern} {b b' : Option CodePoint} {a s t : Text} {X : Text → Prop}

/-- The same match with more behind it. -/
def Found.followedBy (m : Found) (t : Text) : Found := ⟨m.output, m.rest ++ t⟩

/-- Whether there is a match at the start of `s`, and where it ends, does not depend on what follows `s`. -/
structure Local (p : Pattern) (b : Option CodePoint) (s : Text) (X : Text → Prop) : Prop where
  here : ∀ t, X t → p b (s ++ t) = (p b s).map (·.followedBy t)
  ends : ∀ m ∈ p b s, ∃ c u, m.rest = c :: u ∧ isPayloadChar c = false

theorem Local.of_none (h : ∀ t, X t → p b (s ++ t) = none) (hs : p b s = none) : Local p b s X where
  here t ht := by
    rw [h t ht, hs]
    rfl
  ends m hm := by
    rw [hs] at hm
    cases hm

/-- A text is dealt with by itself, whatever is behind it; every part of it that could belong to a value has been
looked at from its start. -/
structure Apart (p : Pattern) (b : Option CodePoint) (a : Text) (X : Text → Prop) : Prop where
  masked : Masked a (substitute p b 0 a)
  runs : ∀ t, X t → substitute p b 0 (a ++ t) = substitute p b 0 a ++ substitute p (a.getLast?.or b) 0 t
  visits : ∀ k, k <:+ a → k ≠ [] → (∀ c ∈ k, isPayloadChar c = true) → ∃ b, Local p b k X

/-- Whatever is behind a text, it is dealt with in the same way up to a place of which something holds. -/
def Reaches (p : Pattern) (b : Option CodePoint) (a : Text) (X : Text → Prop)
    (Place : Option CodePoint → Text → Prop) : Prop :=
  ∃ o b' s, s <:+ a ∧ s ≠ [] ∧ Masked a (o ++ s) ∧ Place b' s ∧
    ∀ t, X t → substitute p b 0 (a ++ t) = o ++ substitute p b' 0 (s ++ t)

section Steps
variable {c d : CodePoint} {o r u : Text} {Place : Option CodePoint → Text → Prop}

theorem substitute_of_local_none (hl : Local p b (c :: a) X) (hm : p b (c :: a) = none) (ht : X t) :
    substitute p b 0 (c :: a ++ t) = c :: substitute p (some c) 0 (a ++ t) := by
  have here := hl.here t ht
  rw [hm] at here
  exact substitute_of_none here

theorem substitute_of_local_some (hl : Local p b (d :: u ++ r) X) (hm : p b (d :: u ++ r) = some ⟨o, r⟩) (ht : X t) :
    substitute p b 0 (d :: u ++ r ++ t) = o ++ substitute p (d :: u).getLast? 0 (r ++ t) := by
  have here := hl.here t ht
  rw [hm, List.append_assoc] at here
  rw [List.append_assoc]
  exact substitute_of_some here

theorem Apart.cons (h : Apart p (some c) a X) (hl : Local p b (c :: a) X) (hm : p b (c :: a) = none) :
    Apart p b (c :: a) X where
  masked := by
    rw [substitute_of_none hm]
    exact h.masked.cons c
  runs t ht := by
    rw [substitute_of_local_none hl hm ht, substitute_of_none hm, h.runs t ht, getLast?_cons_or, List.cons_append]
  visits k hk hne solid := by
    rcases List.suffix_cons_iff.1 hk with rfl | hk
    · exact ⟨b, hl⟩
    · exact h.visits k hk hne solid

theorem Reaches.here (hne : a ≠ []) (h : Place b a) : Reaches p b a X Place :=
  ⟨[], b, a, List.suffix_refl _, hne, .refl _, h, fun _ _ => rfl⟩

theorem Reaches.cons (h : Reaches p (some c) a X Place) (hl : Local p b (c :: a) X) (hm : p b (c :: a) = none) :
    Reaches p b (c :: a) X Place := by
  obtain ⟨o, b', s, hs, hne, hmasked, hplace, hruns⟩ := h
  refine ⟨c :: o, b', s, hs.trans (List.suffix_cons c a), hne, hmasked.cons c, hplace, fun t ht => ?_⟩
  rw [substitute_of_local_none hl hm ht, hruns t ht, List.cons_append]

theorem Apart.match (h : Apart p (d :: u).getLast? r X) (hp : IsRule p) (hl : Local p b (d :: u ++ r) X)
    (hm : p b (d :: u ++ r) = some ⟨o, r⟩) : Apart p b (d :: u ++ r) X where
  masked := by
    obtain ⟨v, gap, ho, hv, hgap⟩ : ∃ v gap, o = v ++ gap ++ mark ∧ _ := hp.marks hm
    rw [substitute_of_some hm, ho]
    exact h.masked.mask (List.suffix_append _ r) (hl.ends _ hm) hv hgap
  runs t ht := by
    obtain ⟨c, v, hr, -⟩ : ∃ c v, r = c :: v ∧ _ := hl.ends _ hm
    have hlast : r.getLast?.or (d :: u).getLast? = (d :: u ++ r).getLast?.or b := by
      rw [hr, List.getLast?_append, List.getLast?_cons]
      rfl
    rw [substitute_of_local_some hl hm ht, h.runs t ht, substitute_of_some hm, hlast, List.append_assoc]
  visits k hk hne solid := by
    rcases List.suffix_or_suffix_of_suffix hk (List.suffix_append _ r) with hkr | hrk
    · exact h.visits k hkr hne solid
    · -- A match does not end within what could belong to a value.
      obtain ⟨c, v, rfl, hc⟩ : ∃ c v, r = c :: v ∧ _ := hl.ends _ hm
      have hsolid := solid c (hrk.mem List.mem_cons_self)
      rw [hc] at hsolid
      cases hsolid

theorem Reaches.match (h : Reaches p (d :: u).getLast? r X Place) (hp : IsRule p) (hl : Local p b (d :: u ++ r) X)
    (hm : p b (d :: u ++ r) = some ⟨o, r⟩) : Reaches p b (d :: u ++ r) X Place := by
  obtain ⟨o', b', s, hs, hne, hmasked, hplace, hruns⟩ := h
  refine ⟨o ++ o', b', s, hs.trans (List.suffix_append _ r), hne, ?_, hplace, fun t ht => ?_⟩
  · obtain ⟨v, gap, ho, hv, hgap⟩ : ∃ v gap, o = v ++ gap ++ mark ∧ _ := hp.marks hm
    rw [List.append_assoc, ho]
    exact hmasked.mask (List.suffix_append _ r) (hl.ends _ hm) hv hgap
  · rw [substitute_of_local_some hl hm ht, hruns t ht, List.append_assoc]

end Steps

/-- A rule deals with a text before a border in the same way whatever is behind it, up to the first match that goes
beyond the border, if there is one. -/
theorem apart_or_reaches (hp : IsRule p) (Place : Option CodePoint → Text → Prop)
    (sees : ∀ b s, s <:+ a → s ≠ [] → Local p b s X ∨ Place b s) (b : Option CodePoint) :
    Apart p b a X ∨ Reaches p b a X Place := by
  revert sees
  refine hp.induction (motive := fun b a => (∀ b s, s <:+ a → s ≠ [] → Local p b s X ∨ Place b s) →
    Apart p b a X ∨ Reaches p b a X Place) ?_ ?_ ?_ b a
  · intro b _
    exact Or.inl ⟨.refl _, fun t _ => by simp, fun k hk hne => absurd (List.suffix_nil.1 hk) hne⟩
  · intro b c a hm ih sees
    rcases sees b (c :: a) (List.suffix_refl _) (List.cons_ne_nil c a) with hl | hplace
    · rcases ih fun b s hs => sees b s (hs.trans (List.suffix_cons c a)) with h | h
      · exact Or.inl (h.cons hl hm)
      · exact Or.inr (h.cons hl hm)
    · exact Or.inr (.here (List.cons_ne_nil c a) hplace)
  · intro b d u o r hm ih sees
    rcases sees b (d :: u ++ r) (List.suffix_refl _) (List.cons_ne_nil d _) with hl | hplace
    · rcases ih fun b s hs => sees b s (hs.trans (List.suffix_append _ r)) with h | h
      · exact Or.inl (h.match hp hl hm)
      · exact Or.inr (h.match hp hl hm)
    · exact Or.inr (.here (List.cons_ne_nil d _) hplace)

/-- Before a border that no match crosses, a text is dealt with by itself. -/
theorem apart (hp : IsRule p) (sees : ∀ b s, s <:+ a → s ≠ [] → Local p b s X) (b : Option CodePoint) :
    Apart p b a X := by
  rcases apart_or_reaches hp (fun _ _ => False) (fun b s hs hne => Or.inl (sees b s hs hne)) b with
    h | ⟨_, _, _, -, -, -, hfalse, -⟩
  · exact h
  · exact hfalse.elim

/-- What is found at the start of `s` is also found with `t` behind it, and ends at the same place. -/
def Unmoved (p : Pattern) (b : Option CodePoint) (s t : Text) : Prop := p b (s ++ t) = (p b s).map (·.followedBy t)

/-- A text is dealt with by itself, or in the same way up to a place of which something holds. -/
def RunsOrReaches (p : Pattern) (b : Option CodePoint) (a : Text) (X : Text → Prop)
    (Place : Option CodePoint → Text → Prop) : Prop :=
    (∀ t, X t → substitute p b 0 (a ++ t) = substitute p b 0 a ++ substitute p (a.getLast?.or b) 0 t) ∨
      ∃ o b' s, s <:+ a ∧ s ≠ [] ∧ Place b' s ∧
        ∀ t, X t → substitute p b 0 (a ++ t) = o ++ substitute p b' 0 (s ++ t)

/-- What a rule finds before a border stays the same up to the first place where something else is found. -/
theorem runs_or_reaches (hp : IsRule p) (Place : Option CodePoint → Text → Prop)
    (sees : ∀ b s, s <:+ a → s ≠ [] → (∀ t, X t → Unmoved p b s t) ∨ Place b s) (b : Option CodePoint) :
    RunsOrReaches p b a X Place := by
  revert sees
  refine hp.induction (motive := fun b a => (∀ b s, s <:+ a → s ≠ [] → (∀ t, X t → Unmoved p b s t) ∨ Place b s) →
    RunsOrReaches p b a X Place) ?_ ?_ ?_ b a
  · intro b _
    exact Or.inl fun t _ => by simp
  · intro b c a hm ih sees
    rcases sees b (c :: a) (List.suffix_refl _) (List.cons_ne_nil c a) with hsame | hplace
    · have hpass : ∀ t, X t → substitute p b 0 (c :: a ++ t) = c :: substitute p (some c) 0 (a ++ t) := by
        intro t ht
        have here := hsame t ht
        rw [Unmoved, hm] at here
        exact substitute_of_none here
      rcases ih fun b s hs => sees b s (hs.trans (List.suffix_cons c a)) with h | ⟨o, b', s, hs, hne, hplace, h⟩
      · refine Or.inl fun t ht => ?_
        rw [hpass t ht, h t ht, substitute_of_none hm, getLast?_cons_or, List.cons_append]
      · refine Or.inr ⟨c :: o, b', s, hs.trans (List.suffix_cons c a), hne, hplace, fun t ht => ?_⟩
        rw [hpass t ht, h t ht, List.cons_append]
    · exact Or.inr ⟨[], b, c :: a, List.suffix_refl _, List.cons_ne_nil c a, hplace, fun _ _ => rfl⟩
  · intro b d u o r hm ih sees
    rcases sees b (d :: u ++ r) (List.suffix_refl _) (List.cons_ne_nil d _) with hsame | hplace
    · have hskip : ∀ t, X t → substitute p b 0 (d :: u ++ r ++ t) = o ++ substitute p (d :: u).getLast? 0 (r ++ t) := by
        intro t ht
        have here := hsame t ht
        rw [Unmoved, hm, List.append_assoc] at here
        rw [List.append_assoc]
        exact substitute_of_some here
      have hlast : r.getLast?.or (d :: u).getLast? = (d :: u ++ r).getLast?.or b := by
        rw [List.getLast?_append, Option.or_assoc, List.getLast?_cons]
        rfl
      rcases ih fun b s hs => sees b s (hs.trans (List.suffix_append _ r)) with h | ⟨o', b', s, hs, hne, hplace, h⟩
      · refine Or.inl fun t ht => ?_
        rw [hskip t ht, h t ht, substitute_of_some hm, hlast, List.append_assoc]
      · refine Or.inr ⟨o ++ o', b', s, hs.trans (List.suffix_append _ r), hne, hplace, fun t ht => ?_⟩
        rw [hskip t ht, h t ht, List.append_assoc]
    · exact Or.inr ⟨[], b, d :: u ++ r, List.suffix_refl _, List.cons_ne_nil d _, hplace, fun _ _ => rfl⟩

end Borders

end Custody.Redaction
