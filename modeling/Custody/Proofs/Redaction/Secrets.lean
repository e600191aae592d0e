import Custody.Proofs.Redaction.Locality

/-! A rule and a secret in the middle of a text: either what it makes of the text does not depend on the secret, or the
secret is still there, between the same texts. -/
namespace Custody.Redaction

/-- What may stand behind a border: one of some secrets, and a text behind it. -/
def Followed (S : Text → Prop) (post t : Text) : Prop := ∃ x, S x ∧ t = x ++ post

variable {S : Text → Prop} {post : Text} {p : Pattern} {a s : Text} {b : Option CodePoint}

/-- Every secret is covered by a match of which the same is left. -/
def Covers (S : Text → Prop) (post : Text) (p : Pattern) (b : Option CodePoint) (s : Text) : Prop :=
  ∃ o y r, post = y ++ r ∧ ∀ x, S x → p b (s ++ (x ++ post)) = some ⟨o, r⟩

/-- Every secret is within a match that keeps it, and of which the same is left. -/
def Spans (S : Text → Prop) (post : Text) (p : Pattern) (b : Option CodePoint) (s : Text) : Prop :=
  ∃ o y r, post = y ++ r ∧ (∀ z, SameStart post (o ++ z)) ∧ ∀ x, S x → p b (s ++ (x ++ post)) = some ⟨s ++ (x ++ o), r⟩

/-- A match that begins before the secrets either ends before them, or it goes beyond them. -/
def Sees (S : Text → Prop) (post : Text) (p : Pattern) (b : Option CodePoint) (s : Text) : Prop :=
  Local p b s (Followed S post) ∨ Covers S post p b s ∨ Spans S post p b s

/-- What is made of a text with a secret in it is always the same. -/
def Hides (S : Text → Prop) (T : Text → Text) : Prop := ∃ z, ∀ x, S x → T x = z

theorem Hides.map {T : Text → Text} (h : Hides S T) (f : Text → Text) : Hides S fun x => f (T x) := by
  obtain ⟨z, hz⟩ := h
  exact ⟨f z, fun x hx => congrArg f (hz x hx)⟩

/-- What is made of a text with a secret in it is always the same, or the secret is still there. -/
def Stays (S : Text → Prop) (a post : Text) (T : Text → Text) : Prop :=
  Hides S T ∨ ∃ a' post', Masked a a' ∧ SameStart post post' ∧ ∀ x, S x → T x = a' ++ (x ++ post')

section Stage

/-- A character that stands for the last one of a secret. -/
def wordMark : Option CodePoint := some ('a' : CodePoint)

theorem any_isWord_or {l : Option CodePoint} (h : l.any CodePoint.isWord = true) (b : Option CodePoint) :
    (l.or b).any CodePoint.isWord = wordMark.any CodePoint.isWord := by
  cases l with
  | none => cases h
  | some c => exact h

/-- Behind a match that goes beyond a secret, a rule goes on in the same way. -/
theorem substitute_beyond (hp : IsRule p) {c : CodePoint} {u o y r x : Text}
    (hx : x.getLast?.any CodePoint.isWord = true) (h : p b (c :: u ++ (x ++ (y ++ r))) = some ⟨o, r⟩) :
    substitute p b 0 (c :: u ++ (x ++ (y ++ r))) = o ++ substitute p (y.getLast?.or wordMark) 0 r := by
  have htext : c :: u ++ (x ++ (y ++ r)) = c :: u ++ x ++ y ++ r := by simp
  have hlast : (c :: u ++ x ++ y).getLast? = y.getLast?.or (x.getLast?.or (c :: u).getLast?) := by
    rw [List.getLast?_append, List.getLast?_append]
  have hsame : (c :: u ++ x ++ y).getLast?.any CodePoint.isWord = (y.getLast?.or wordMark).any CodePoint.isWord := by
    rw [hlast]
    cases y.getLast? with
    | some d => rfl
    | none => exact any_isWord_or hx _
  rw [htext] at h ⊢
  exact (substitute_of_some h).trans (congrArg (o ++ ·) (hp.substitute_congr hsame r))

/-- A match that covers the secret leaves nothing of it. -/
theorem hides_of_covers (hp : IsRule p) (hS : ∀ x, S x → x.getLast?.any CodePoint.isWord = true) {o : Text} (hne : s ≠ [])
    (hcovers : Covers S post p b s)
    (hruns : ∀ t, Followed S post t → substitute p none 0 (a ++ t) = o ++ substitute p b 0 (s ++ t)) :
    Hides S fun x => substitute p none 0 (a ++ (x ++ post)) := by
  obtain ⟨o', y, r, rfl, hcovers⟩ := hcovers
  obtain ⟨c, u, rfl⟩ := List.exists_cons_of_ne_nil hne
  refine ⟨o ++ (o' ++ substitute p (y.getLast?.or wordMark) 0 r), fun x hx => ?_⟩
  dsimp only
  rw [hruns _ ⟨x, hx, rfl⟩, substitute_beyond hp (hS x hx) (hcovers x hx)]

theorem stays_of_sees (hp : IsRule p) (hk : KeepsStart p) (hS : ∀ x, S x → x.getLast?.any CodePoint.isWord = true)
    (sees : ∀ b s, Solid a s → Sees S post p b s) (misses : ∀ x, S x → Misses p a.getLast? x post) :
    Stays S a post fun x => substitute p none 0 (a ++ (x ++ post)) := by
  rcases apart_or_reaches hp (fun b s => Covers S post p b s ∨ Spans S post p b s)
    (fun b s hs hne => sees b s ⟨hs, hne⟩) none with h | ⟨o, b', s, hs, hne, hmasked, hplace, hruns⟩
  · -- The rule comes to the secret, and misses it.
    refine Or.inr ⟨substitute p none 0 a, substitute p wordMark 0 post, h.masked, hk.sameStart _ _, fun x hx => ?_⟩
    have hrest : substitute p (x.getLast?.or a.getLast?) 0 post = substitute p wordMark 0 post :=
      hp.substitute_congr (any_isWord_or (hS x hx) _) post
    dsimp only
    rw [h.runs _ ⟨x, hx, rfl⟩, Option.or_none, substitute_of_misses (misses x hx), hrest]
  · rcases hplace with hcovers | ⟨o', y, r, rfl, hstart, hspans⟩
    · exact Or.inl (hides_of_covers hp hS hne hcovers hruns)
    · obtain ⟨c, u, rfl⟩ := List.exists_cons_of_ne_nil hne
      refine Or.inr ⟨o ++ c :: u, o' ++ substitute p (y.getLast?.or wordMark) 0 r, hmasked, hstart _, fun x hx => ?_⟩
      dsimp only
      rw [hruns _ ⟨x, hx, rfl⟩, substitute_beyond hp (hS x hx) (hspans x hx)]
      simp

/-- What a rule does at a place before the secrets that it comes to depends on them: so a match has covered them. -/
theorem hides_of_place (hp : IsRule p) (hS : ∀ x, S x → x.getLast?.any CodePoint.isWord = true) {k : Text}
    (sees : ∀ b s, Solid a s → Local p b s (Followed S post) ∨ Covers S post p b s) (hk : Solid a k)
    (hsolid : ∀ c ∈ k, isPayloadChar c = true) (hplace : ∀ b, ¬Local p b k (Followed S post)) :
    Hides S fun x => substitute p none 0 (a ++ (x ++ post)) := by
  rcases apart_or_reaches hp (Covers S post p) (fun b s hs hne => sees b s ⟨hs, hne⟩) none with
    h | ⟨o, b', s, -, hne, -, hcovers, hruns⟩
  · obtain ⟨b, hlocal⟩ := h.visits k hk.1 hk.2 hsolid
    exact absurd hlocal (hplace b)
  · exact hides_of_covers hp hS hne hcovers hruns

/-- A rule whose matches before the secrets stay there, and that finds every secret with the same outcome. -/
theorem hides_of_match (hp : IsRule p) (hS : ∀ x, S x → x.getLast?.any CodePoint.isWord = true) {o : Text}
    (sees : ∀ b s, Solid a s → Local p b s (Followed S post))
    (hmatch : ∀ x, S x → p a.getLast? (x ++ post) = some ⟨o, post⟩) :
    Hides S fun x => substitute p none 0 (a ++ (x ++ post)) := by
  have hapart : Apart p none a (Followed S post) := apart hp (fun b s hs hne => sees b s ⟨hs, hne⟩) none
  refine ⟨substitute p none 0 a ++ (o ++ substitute p wordMark 0 post), fun x hx => ?_⟩
  have hne : x ≠ [] := by
    rintro rfl
    cases hS [] hx
  have hfound := hmatch x hx
  obtain ⟨c, u, rfl⟩ := List.exists_cons_of_ne_nil hne
  have hword : (c :: u).getLast?.any CodePoint.isWord = wordMark.any CodePoint.isWord := hS _ hx
  dsimp only
  rw [hapart.runs _ ⟨_, hx, rfl⟩, Option.or_none, substitute_of_some hfound, hp.substitute_congr hword]

/-- The next rule is applied to what the ones before it have made. -/
theorem Stays.step {T : Text → Text} (h : Stays S a post T)
    (next : ∀ a' post', Masked a a' → SameStart post post' →
      Stays S a' post' fun x => substitute p none 0 (a' ++ (x ++ post'))) :
    Stays S a post fun x => substitute p none 0 (T x) := by
  rcases h with hhides | ⟨a', post', hmasked, hstart, hT⟩
  · exact Or.inl (hhides.map _)
  · rcases next a' post' hmasked hstart with ⟨z, hz⟩ | ⟨a'', post'', hmasked', hstart', hnext⟩
    · exact Or.inl ⟨z, fun x hx => (congrArg (substitute p none 0) (hT x hx)).trans (hz x hx)⟩
    · refine Or.inr ⟨a'', post'', hmasked.trans hmasked', hstart.trans hstart', fun x hx => ?_⟩
      exact (congrArg (substitute p none 0) (hT x hx)).trans (hnext x hx)

/-- Rules that keep the secret between the same texts, or leave nothing of it, do so together. -/
theorem Stays.run {T : Text → Text} {ps : List Pattern} (h : Stays S a post T)
    (next : ∀ p ∈ ps, ∀ a' post', Masked a a' → SameStart post post' →
      Stays S a' post' fun x => substitute p none 0 (a' ++ (x ++ post'))) :
    Stays S a post fun x => ps.foldl (fun t p => substitute p none 0 t) (T x) := by
  induction ps generalizing T with
  | nil => exact h
  | cons p ps ih =>
    have hfirst := h.step (next p List.mem_cons_self)
    exact ih hfirst fun q hq => next q (List.mem_cons_of_mem p hq)

end Stage

/-- A value that begins before the secrets ends before them, or it goes beyond them. -/
def Takes (S : Text → Prop) (post : Text) (value : Text → Option Text) (v : Text) : Prop :=
  Settles value (Followed S post) v ∨ ∃ y r, post = y ++ r ∧ ∀ x, S x → value (v ++ (x ++ post)) = some r

section Sees
variable {name way value : Text → Option Text} {gap : Text} {P Q R : Text → Prop}

theorem local_or_covers_opened (hread : Reads name) (hn : ∀ t, Followed S post t → Steady t P name Q)
    (hw : ∀ t, Followed S post t → Steady t Q way R) (hs : P s)
    (hv : ∀ n v, opening name way s = some (n, v) → Takes S post value v) :
    Local (fun _ => opened name way value gap) b s (Followed S post) ∨
      Covers S post (fun _ => opened name way value gap) b s := by
  cases hopen : opening name way s with
  | none =>
    refine Or.inl (local_opened hread hn hw hs fun n v h => ?_)
    rw [hopen] at h
    cases h
  | some m =>
    obtain ⟨n, v⟩ := m
    rcases hv n v hopen with hsettles | ⟨y, r, hpost, hvalue⟩
    · refine Or.inl (local_opened hread hn hw hs fun n' v' h => ?_)
      rw [hopen] at h
      cases h
      exact hsettles
    · refine Or.inr ⟨upTo s n ++ gap ++ mark, y, r, hpost, fun x hx => ?_⟩
      have happend := opening_append (hn _ ⟨x, hx, rfl⟩) (hw _ ⟨x, hx, rfl⟩) hs
      have hsuffix : n <:+ s := hread s n (opening_eq_some.1 hopen).1
      dsimp only
      rw [opened, happend, hopen, Option.map_some, Option.bind_some, hvalue x hx, upTo_append_append hsuffix]
      rfl

theorem sees_bounded {p : Text → Option Found} (hne : s ≠ []) (h : Sees S post (fun _ => p) b s) :
    Sees S post (bounded p) b s := by
  by_cases hb : isBoundary b s = true
  · have hall : ∀ t, bounded p b (s ++ t) = p (s ++ t) := by
      intro t
      rw [bounded, isBoundary_append b hne, if_pos hb]
    rcases h with h | ⟨o, y, r, hpost, h⟩ | ⟨o, y, r, hpost, hstart, h⟩
    · exact Or.inl (local_bounded hne h)
    · exact Or.inr (Or.inl ⟨o, y, r, hpost, fun x hx => (hall _).trans (h x hx)⟩)
    · exact Or.inr (Or.inr ⟨o, y, r, hpost, hstart, fun x hx => (hall _).trans (h x hx)⟩)
  · refine Or.inl (.of_none (fun t _ => ?_) (if_neg hb))
    rw [bounded, isBoundary_append b hne, if_neg hb]

end Sees

section Login
variable {after : Text}

/-- The search behind a login finds the same option before or at the border, or it goes on behind it. -/
theorem seek_option (hX : ∀ t, Followed S post t → Border a t) (hafter : after <:+ a)
    (hv : ∀ u n v, u <:+ a → opening (optionName? "-p") space? u = some (n, v) → Takes S post optionValue? v) :
    (∀ t, Followed S post t → seek? isCommandChar shortOption? (after ++ t) =
      ((seek? isCommandChar shortOption? after).map fun m => (m.1 ++ t, m.2.1 ++ t, m.2.2 ++ t)).or
        (if after.all isCommandChar then seek? isCommandChar shortOption? t else none)) ∨
    ∃ u n y r, n <:+ after ∧ post = y ++ r ∧ ∀ t, Followed S post t →
      seek? isCommandChar shortOption? (after ++ t) = some (u ++ t, n ++ t, r) := by
  let Cross : Text → Prop := fun u => ∃ n y r, n <:+ u ∧ post = y ++ r ∧
    ∀ t, Followed S post t → shortOption? (u ++ t) = some (n ++ t, r)
  have hplaces : ∀ u, u <:+ after → u ≠ [] → (∀ t, Followed S post t → shortOption? (u ++ t) =
      (shortOption? u).map fun m => (m.1 ++ t, m.2 ++ t)) ∨
      Cross u ∧ ∀ t, Followed S post t → (shortOption? (u ++ t)).isSome = true := by
    intro u hu hne
    have hopen : ∀ t, Followed S post t → opening (optionName? "-p") space? (u ++ t) =
        (opening (optionName? "-p") space? u).map fun m => (m.1 ++ t, m.2 ++ t) := fun t ht =>
      opening_append ((hX t ht).steady_optionName (w := "-p") (by decide)) (hX t ht).steady_space
        ⟨hu.trans hafter, hne⟩
    cases hm : opening (optionName? "-p") space? u with
    | none =>
      refine Or.inl fun t ht => ?_
      rw [shortOption?_eq, shortOption?_eq, hopen t ht, hm]
      rfl
    | some m =>
      obtain ⟨n, v⟩ := m
      rcases hv u n v (hu.trans hafter) hm with hsettles | ⟨y, r, hpost, hvalue⟩
      · refine Or.inl fun t ht => ?_
        rw [shortOption?_eq, shortOption?_eq, hopen t ht, hm, Option.map_some, Option.bind_some, Option.bind_some,
          hsettles.same t ht]
        cases optionValue? v <;> rfl
      · have hcross : ∀ t, Followed S post t → shortOption? (u ++ t) = some (n ++ t, r) := by
          rintro t ⟨x, hx, rfl⟩
          rw [shortOption?_eq, hopen _ ⟨x, hx, rfl⟩, hm, Option.map_some, Option.bind_some, hvalue x hx]
          rfl
        have hn : n <:+ u := reads_optionName "-p" u n (opening_eq_some.1 hm).1
        exact Or.inr ⟨⟨n, y, r, hn, hpost, hcross⟩, fun t ht => by rw [hcross t ht]; rfl⟩
  rcases seek?_append_or isCommandChar rfl hplaces with h | ⟨u, hu, ⟨n, y, r, hn, hpost, hcross⟩, h⟩
  · exact Or.inl h
  · refine Or.inr ⟨u, n, y, r, hn.trans hu, hpost, fun t ht => ?_⟩
    rw [h t ht, hcross t ht]
    rfl

/-- What is kept of a text up to an option begins like the text. -/
theorem upTo_of_seek {u n r : Text} (h : seek? isCommandChar shortOption? post = some (u, n, r)) :
    ∃ y, post = y ++ r ∧ ∀ z, SameStart post (upTo post n ++ z) := by
  obtain ⟨hu, hoption⟩ := seek?_eq_some h
  obtain ⟨v, hopen, hvalue⟩ := shortOption?_eq_some.1 hoption
  obtain ⟨hname, hway⟩ := opening_eq_some.1 hopen
  obtain ⟨w, rfl, c, hmem, hc⟩ := consumes_optionName (w := "-p") (by decide) u n hname
  obtain ⟨q, hq⟩ := hu
  have hpost : post = q ++ w ++ n := by rw [← hq, List.append_assoc]
  obtain ⟨y, hy⟩ := (reads_optionValue v r hvalue).trans (reads_space n v hway)
  refine ⟨q ++ w ++ y, by rw [hpost, ← hy, List.append_assoc (q ++ w)], fun z => ?_⟩
  rw [hpost, upTo_append]
  exact sameStart_of_prefix (List.prefix_append _ n) ⟨c, List.mem_append_right q hmem, hc⟩ z

theorem openedLogin_of_login {t : Text} (h : loginWord? t = some after) :
    openedLogin t = (seek? isCommandChar shortOption? after).map fun m => ⟨upTo t m.2.1 ++ " " ++ mark, m.2.2⟩ := by
  rw [openedLogin, h]
  rfl

theorem loginWord?_append {t : Text} (h : Border a t) (hs : Solid a s) (hafter : loginWord? s = some after) :
    loginWord? (s ++ t) = some (after ++ t) := by
  rw [h.steady_loginWord.same s hs.within, hafter]
  rfl

section Found
variable (hX : ∀ t, Followed S post t → Border a t) (hs : Solid a s) (hafter : loginWord? s = some after)
  (hv : ∀ u n v, u <:+ a → opening (optionName? "-p") space? u = some (n, v) → Takes S post optionValue? v)
include hX hs hafter

include hv in
/-- The option is before the border. -/
theorem sees_option_before {u n r : Text} (hfound : seek? isCommandChar shortOption? after = some (u, n, r))
    (hseek : ∀ t, Followed S post t →
      seek? isCommandChar shortOption? (after ++ t) = some (u ++ t, n ++ t, r ++ t)) :
    Sees S post (fun _ => openedLogin) b s := by
  have hsuffix : after <:+ s := consumes_loginWord.reads s after hafter
  have hn : n <:+ s := (suffix_of_seek hfound).1.trans hsuffix
  have happend : ∀ t, Followed S post t → openedLogin (s ++ t) = some ⟨upTo s n ++ " " ++ mark, r ++ t⟩ := by
    intro t ht
    rw [openedLogin_of_login (loginWord?_append (hX t ht) hs hafter), hseek t ht, Option.map_some,
      upTo_append_append hn]
  obtain ⟨hu, hoption⟩ := seek?_eq_some hfound
  obtain ⟨v, hopen, hvalue⟩ := shortOption?_eq_some.1 hoption
  have hua : Solid a u := ⟨hu.trans (hsuffix.trans hs.1), by rintro rfl; cases hoption⟩
  rcases hv u n v hua.1 hopen with hsettles | ⟨y, r', hpost, hcross⟩
  · refine Or.inl ⟨fun t ht => ?_, fun m hm => ?_⟩
    · rw [happend t ht, openedLogin_of_login hafter, hfound]
      rfl
    · rw [Option.mem_def, openedLogin_of_login hafter, hfound] at hm
      cases hm
      exact hsettles.ends r hvalue
  · -- The value goes beyond the border, although the text could also end there.
    refine Or.inr (Or.inl ⟨upTo s n ++ " " ++ mark, y, r', hpost, fun x hx => ?_⟩)
    have ht : Followed S post (x ++ post) := ⟨x, hx, rfl⟩
    obtain ⟨w, hw, hr⟩ := shortOption?_eq_some.1 (seek?_eq_some (hseek _ ht)).2
    rw [opening_append ((hX _ ht).steady_optionName (by decide)) (hX _ ht).steady_space hua, hopen, Option.map_some,
      Option.some.injEq, Prod.mk.injEq] at hw
    rw [← hw.2, hcross x hx, Option.some.injEq] at hr
    exact (happend _ ht).trans (by rw [hr])

/-- The option is behind the secret, if there is one. -/
theorem sees_option_behind (hfound : seek? isCommandChar shortOption? after = none)
    (hseek : ∀ x, S x → seek? isCommandChar shortOption? (after ++ (x ++ post)) =
      if after.all isCommandChar then seek? isCommandChar shortOption? post else none) :
    Sees S post (fun _ => openedLogin) b s := by
  have happend : ∀ x, S x → openedLogin (s ++ (x ++ post)) =
      (if after.all isCommandChar then seek? isCommandChar shortOption? post else none).map
        fun m => ⟨upTo (s ++ (x ++ post)) m.2.1 ++ " " ++ mark, m.2.2⟩ := by
    intro x hx
    rw [openedLogin_of_login (loginWord?_append (hX _ ⟨x, hx, rfl⟩) hs hafter), hseek x hx]
  cases hbehind : if after.all isCommandChar then seek? isCommandChar shortOption? post else none with
  | none =>
    refine Or.inl (.of_none ?_ ?_)
    · rintro t ⟨x, hx, rfl⟩
      rw [happend x hx, hbehind]
      rfl
    · rw [openedLogin_of_login hafter, hfound]
      rfl
  | some m =>
    obtain ⟨u, n, r⟩ := m
    have hpostfound : seek? isCommandChar shortOption? post = some (u, n, r) :=
      (Option.ite_none_right_eq_some.1 hbehind).2
    obtain ⟨y, hpost, hstart⟩ := upTo_of_seek hpostfound
    obtain ⟨w, hw⟩ : n <:+ post := (suffix_of_seek hpostfound).1
    refine Or.inr (Or.inr ⟨upTo post n ++ " " ++ mark, y, r, hpost, fun z => ?_, fun x hx => ?_⟩)
    · rw [List.append_assoc, List.append_assoc]
      exact hstart _
    · have hupTo : upTo (s ++ (x ++ post)) n = s ++ x ++ upTo post n := by
        rw [← hw, upTo_append, ← List.append_assoc, ← List.append_assoc, upTo_append]
      dsimp only
      rw [happend x hx, hbehind, Option.map_some, hupTo]
      simp

end Found

theorem sees_loginOption (hX : ∀ t, Followed S post t → Border a t) (hs : Solid a s)
    (hv : ∀ u n v, u <:+ a → opening (optionName? "-p") space? u = some (n, v) → Takes S post optionValue? v)
    (hpass : ∀ x, S x → seek? isCommandChar shortOption? (x ++ post) = seek? isCommandChar shortOption? post) :
    Sees S post loginOption b s := by
  rw [loginOption_eq]
  refine sees_bounded hs.2 ?_
  cases hafter : loginWord? s with
  | none =>
    refine Or.inl (.of_none (fun t ht => ?_) ?_)
    · rw [openedLogin, (hX t ht).steady_loginWord.same s hs.within, hafter]
      rfl
    · rw [openedLogin, hafter]
      rfl
  | some after =>
    have hsuffix : after <:+ s := consumes_loginWord.reads s after hafter
    rcases seek_option hX (hsuffix.trans hs.1) hv with hseek | ⟨u, n, y, r, hn, hpost, hseek⟩
    · cases hfound : seek? isCommandChar shortOption? after with
      | some m =>
        refine sees_option_before hX hs hafter hv hfound fun t ht => ?_
        rw [hseek t ht, hfound]
        rfl
      | none =>
        refine sees_option_behind hX hs hafter hfound fun x hx => ?_
        rw [hseek _ ⟨x, hx, rfl⟩, hfound, Option.map_none, Option.none_or, hpass x hx]
    · -- The value of the first option goes beyond the border.
      refine Or.inr (Or.inl ⟨upTo s n ++ " " ++ mark, y, r, hpost, fun x hx => ?_⟩)
      have ht : Followed S post (x ++ post) := ⟨x, hx, rfl⟩
      dsimp only
      rw [openedLogin_of_login (loginWord?_append (hX _ ht) hs hafter), hseek _ ht, Option.map_some,
        upTo_append_append (hn.trans hsuffix)]

end Login

section Rules
variable {v : Text} (hX : ∀ t, Followed S post t → Border a t)
include hX

/-- What is piped into a login goes beyond a secret in which there is no pipe. -/
theorem takes_piped (hpass : ∀ x, S x → piped? (x ++ post) = piped? post) (hv : v <:+ a) : Takes S post piped? v := by
  cases hbehind : piped? post with
  | none =>
    refine Or.inl (settles_piped hX hv ?_)
    rintro - - t ⟨x, hx, rfl⟩
    rw [hpass x hx, hbehind]
  | some r =>
    by_cases hv' : piped? v = none ∧ v.all (fun c => c ≠ ('\n' : CodePoint)) = true
    · obtain ⟨y, hy⟩ := reads_piped post r hbehind
      refine Or.inr ⟨y, r, hy.symm, fun x hx => ?_⟩
      rw [(hX _ ⟨x, hx, rfl⟩).piped_append hv, hv'.1, if_pos hv'.2, hpass x hx, hbehind]
      rfl
    · exact Or.inl (settles_piped hX hv fun hnone hall => absurd ⟨hnone, hall⟩ hv')

variable (hs : Solid a s)
include hs

theorem sees_pipedSecret (hpass : ∀ x, S x → piped? (x ++ post) = piped? post) : Sees S post pipedSecret b s := by
  rw [pipedSecret_eq]
  refine sees_bounded hs.2 ((local_or_covers_opened consumes_printer.reads (fun t ht => (hX t ht).steady_printer)
    (fun t ht => (hX t ht).steady_space) hs fun n v hopen => ?_).imp_right Or.inl)
  obtain ⟨hname, hway⟩ := opening_eq_some.1 hopen
  have hv : v <:+ a := ((reads_space n v hway).trans (consumes_printer.reads s n hname)).trans hs.1
  exact takes_piped hX hpass hv

theorem sees_passwordOption
    (hv : ∀ n v, opening (optionName? "--password") optionWay? s = some (n, v) → Takes S post optionValue? v) :
    Sees S post passwordOption b s := by
  rw [passwordOption_eq]
  exact (local_or_covers_opened (reads_optionName _) (fun t ht => (hX t ht).steady_optionName (by decide))
    (fun t ht => (hX t ht).steady_optionWay) hs hv).imp_right Or.inl

theorem local_or_covers_namedSecret (hv : ∀ v, namedValue? s = some v → Takes S post (run? 1 isBareChar) v) :
    Local namedSecret b s (Followed S post) ∨ Covers S post namedSecret b s := by
  rw [namedSecret_eq]
  refine local_or_covers_opened (R := (· <:+ a)) consumes_namedValue.reads (fun t ht => (hX t ht).steady_namedValue)
    (fun t _ => ?_) hs ?_
  · exact ⟨fun _ _ => rfl, fun _ _ hs hr => Option.some.inj hr ▸ hs⟩
  · intro n v hopen
    obtain ⟨hname, hway⟩ := opening_eq_some.1 hopen
    cases hway
    exact hv n hname

end Rules

end Custody.Redaction
