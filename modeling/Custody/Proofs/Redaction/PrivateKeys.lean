import Custody.Proofs.Redaction.KeyLines

/-! A private key between two texts: the rules before its own change nothing but the inside of it, and it is masked as
a whole. -/
namespace Custody.Redaction

/-- A text whose end takes no dashes that follow for its value. -/
structure Halts (a : Text) : Prop where
  edge : ∀ e ∈ a.getLast?, e = ' ' ∨ e = '\n'
  scheme : ¬Awaits schemeOpening a
  named : ¬Awaits namedValue? a

/-- What may stand between the two lines of a key: whole lines in which there is neither a dash nor a pipe. -/
structure Inside (t : Text) : Prop where
  halts : Halts t
  first : t.head? = some ('\n' : CodePoint)
  last : t.getLast? = some ('\n' : CodePoint)
  chars : ∀ c ∈ t, c ≠ '-' ∧ c ≠ '|'
  silent : ¬Awaits printerOpening t

def around (a head inside foot post : Text) : Text := a ++ (head ++ (inside ++ (foot ++ post)))

section Halting
variable {a a' s t : Text} {X : Text → Prop}

theorem Halts.of_masked (ha : Halts a) (h : Masked a a') : Halts a' where
  edge := by
    rw [h.ends.getLast?]
    exact ha.edge
  scheme := fun h' => ha.scheme (h'.of_masked spares_schemeOpening h)
  named := fun h' => ha.named (h'.of_masked spares_namedValue h)

theorem Inside.of_masked (ha : Inside a) (h : Masked a a') (hfirst : a'.head? = a.head?) : Inside a' where
  halts := ha.halts.of_masked h
  first := hfirst.trans ha.first
  last := h.ends.getLast?.trans ha.last
  chars c hc := by
    have hglue : ∀ c ∈ (" [REDACTED]" : Text), c ≠ '-' ∧ c ≠ '|' := by decide
    exact (h.mem hc).elim (ha.chars c) (hglue c)
  silent := fun h' => ha.silent (h'.of_masked spares_printerOpening h)

theorem Halts.pauses (ha : Halts a) : Pauses a := fun e he => by
  rcases ha.edge e he with rfl | rfl <;> rfl

theorem Halts.border (ha : Halts a) (ht : ("---" : Text) <+: t) : Border a t := by
  obtain ⟨u, rfl⟩ := ht
  refine ⟨fun e he => (ha.edge e he).imp_right Or.inl, rfl, fun c hc => ?_, fun _ w hw => ?_⟩
  · cases hc
    decide
  · simp only [innerWords, List.mem_cons, List.not_mem_nil, or_false] at hw
    rcases hw with rfl | rfl | rfl | rfl | rfl <;> rfl

private theorem optionValue?_of_dashes (ht : ("---" : Text) <+: t) : optionValue? t = none := by
  obtain ⟨u, rfl⟩ := ht
  rfl

variable (hX : ∀ t, X t → ("---" : Text) <+: t)
include hX

/-- The rules stop at dashes, if no pipe into a login and no option of a login is found behind them. -/
theorem Halts.rule_local (ha : Halts a)
    (hpiped : ∀ s v, s <:+ a → printerOpening s = some v → v.all (fun c => c ≠ ('\n' : CodePoint)) = true →
      ∀ t, X t → piped? t = none)
    (hoption : ∀ after, Solid a after → after.all isCommandChar = true →
      ∀ t, X t → seek? isCommandChar shortOption? t = none)
    (hs : Solid a s) {p : Pattern} (hp : p ∈ earlierRules) (b : Option CodePoint) : Local p b s X := by
  have hborder : ∀ t, X t → Border a t := fun t ht => ha.border (hX t ht)
  have hvalue : ∀ v, v <:+ a → Settles optionValue? X v := by
    intro v hv
    by_cases hne : v = []
    · subst hne
      exact settles_nil rfl fun t ht => optionValue?_of_dashes (hX t ht)
    · exact settles_optionValue (ha.pauses.settled hv hne fun c hc => by rw [hc]; rfl)
  simp only [earlierRules, List.mem_cons, List.not_mem_nil, or_false] at hp
  rcases hp with rfl | rfl | rfl | rfl | rfl | rfl
  · refine local_pipedSecret hborder hs fun n v hopen => ?_
    have hread := bind_of_opening hopen
    have hv : v <:+ a := ((consumes_printer.reads.bind reads_space) s v hread).trans hs.1
    exact settles_piped hborder hv fun _ hall => hpiped s v hs.1 hread hall
  · refine local_passwordOption hborder hs fun n v hopen => hvalue v ?_
    obtain ⟨hname, hway⟩ := opening_eq_some.1 hopen
    exact ((reads_optionWay n v hway).trans (reads_optionName _ s n hname)).trans hs.1
  · refine local_loginOption hborder hs (fun u n v hu hopen => hvalue v ?_) fun after hafter hall t ht => ?_
    · exact (((reads_optionName "-p").bind reads_space) u v (bind_of_opening hopen)).trans hu
    · exact hoption after ((hborder t ht).steady_loginWord.rest s after hs.within hafter) hall t ht
  · exact local_encryptedPayload hs ha.pauses
  · refine local_namedSecret hborder hs fun v hread => ?_
    have hv : v <:+ a := (consumes_namedValue.reads s v hread).trans hs.1
    have hne : v ≠ [] := fun hnil => ha.named ⟨s, hs.1, hnil ▸ hread⟩
    refine settles_run (ha.pauses.settled hv hne fun c hc => ?_) fun _ => isPayloadChar_of_not_bare
    rw [isBareChar, hc]
    rfl
  · refine local_authorization hborder hs fun n v hopen => ?_
    have hread := bind_of_opening hopen
    have hv : v <:+ a := ((consumes_schemeName.reads.bind reads_space) s v hread).trans hs.1
    have hne : v ≠ [] := fun hnil => ha.scheme ⟨s, hs.1, hnil ▸ hread⟩
    refine settles_run (ha.pauses.settled hv hne fun c hc => ?_) fun _ => isPayloadChar_of_not_token
    by_contra htoken
    rw [isSpace_of_isTokenChar (Bool.not_eq_false _ ▸ htoken)] at hc
    cases hc

end Halting

section Enclosed
variable {a a' foot head inside post t : Text} {p : Pattern} {b : Option CodePoint} {T : Text → Text}

theorem Inside.exists_cons (h : Inside inside) : ∃ u, inside = ('\n' : CodePoint) :: u := by
  cases inside with
  | nil => cases h.first
  | cons c u =>
    cases h.first
    exact ⟨u, rfl⟩

theorem Inside.blocks (h : Inside inside) (t : Text) : Blocks (inside ++ t) := by
  obtain ⟨u, rfl⟩ := h.exists_cons
  intro c hc
  cases hc
  exact Or.inr rfl

/-- No pipe is found behind the first line of a key, since the next line feed stops the search. -/
theorem piped?_head (hhead : KeyLine head) (h : Inside inside) (ht : ("---" : Text) <+: t) :
    piped? (head ++ (inside ++ t)) = none := by
  obtain ⟨w, rfl⟩ := ht
  have hpipe : registryPipe? (inside ++ ("---" ++ w)) = none := by
    refine registryPipe?_of_skipSpace ?_
    rw [skipSpace_append (show Starts ("---" ++ w) from rfl)]
    cases hskip : skipSpace inside with
    | nil =>
      intro c hc
      cases hc
      decide
    | cons d u =>
      intro c hc
      cases hc
      exact (h.chars d ((suffix_skipSpace inside).mem (hskip ▸ List.mem_cons_self))).2
  have hbehind : seek? (fun c => decide (c ≠ ('\n' : CodePoint))) registryPipe? (inside ++ ("---" ++ w)) = none := by
    obtain ⟨u, rfl⟩ := h.exists_cons
    rw [List.cons_append] at hpipe ⊢
    rw [seek?_cons, hpipe, if_neg (by decide)]
    rfl
  rw [piped?, seek?_append_of_none fun u hu hne => hhead.registryPipe?_eq_none ⟨hu, hne⟩ _, hbehind]
  exact congrArg _ (ite_self none)

theorem seekOption_inside (h : Inside inside) (ht : ("---" : Text) <+: t) :
    seek? isCommandChar shortOption? (inside ++ t) = none := by
  obtain ⟨w, rfl⟩ := ht
  obtain ⟨u, rfl⟩ := h.exists_cons
  have hname : optionName? "-p" (('\n' : CodePoint) :: (u ++ ("---" ++ w))) = none := by
    have hword : word? "-p".toList (u ++ ("---" ++ w)) = none := by
      cases u with
      | nil => rfl
      | cons c u =>
        have hc : c ≠ '-' := (h.chars c (List.mem_cons_of_mem _ List.mem_cons_self)).1
        exact word?_of_not_fits fun hfits => hc (of_decide_eq_true hfits)
    exact hword
  have hoption : shortOption? (('\n' : CodePoint) :: (u ++ ("---" ++ w))) = none := by
    rw [shortOption?_eq, opening, hname]
    rfl
  rw [List.cons_append, seek?_cons, hoption, if_neg (by decide)]
  rfl

private theorem seekOption_head (hhead : KeyLine head) (h : Inside inside) (ht : ("---" : Text) <+: t) :
    seek? isCommandChar shortOption? (head ++ (inside ++ t)) = none := by
  rw [seek?_append_of_none fun u hu hne => hhead.shortOption?_eq_none ⟨hu, hne⟩ _, seekOption_inside h ht]
  exact ite_self none

/-- What is made of texts with a key in them: the lines of the key are still there, and between them is something that
might have been there. -/
def Encloses (a head foot post : Text) (T : Text → Text) : Prop := ∃ (a' post' : Text) (f : Text → Text),
  Masked a a' ∧ SameStart post post' ∧ ∀ inside, Inside inside →
    Inside (f inside) ∧ T inside = around a' head (f inside) foot post'

variable (hhead : KeyLine head) (hfoot : KeyLine foot)
include hhead hfoot

private theorem encloses_substitute (ha : Halts a) (hpost : Blocks post) (hp : p ∈ earlierRules) :
    Encloses a head foot post fun inside => substitute p none 0 (around a head inside foot post) := by
  have hdashes : ("---" : Text) <+: foot ++ post := hfoot.begins.trans (List.prefix_append foot post)
  -- Before the key, within it, and behind it the rule works by itself.
  have hbefore : Apart p none a fun t => ∃ inside, Inside inside ∧ t = head ++ (inside ++ (foot ++ post)) := by
    refine apart (isRule_of_mem hp) (fun b s hs hne => ha.rule_local ?_ ?_ ?_ ⟨hs, hne⟩ hp b) none
    · rintro t ⟨inside, -, rfl⟩
      exact hhead.begins.trans (List.prefix_append head _)
    · rintro - - - - - t ⟨inside, hinside, rfl⟩
      exact piped?_head hhead hinside hdashes
    · rintro - - - t ⟨inside, hinside, rfl⟩
      exact seekOption_head hhead hinside hdashes
  have hwithin : ∀ inside, Inside inside → Apart p (some '-') inside fun t => t = foot ++ post := by
    intro inside hinside
    have hlast : ∀ v, v <:+ inside → v ≠ [] → ('\n' : CodePoint) ∈ v := fun v hv hne =>
      List.mem_of_getLast? ((getLast?_of_suffix hv hne).trans hinside.last)
    refine apart (isRule_of_mem hp) (fun b s hs hne => hinside.halts.rule_local ?_ ?_ ?_ ⟨hs, hne⟩ hp b) _
    · rintro t rfl
      exact hdashes
    · intro s v hs hread hall
      have hv : v <:+ inside := ((consumes_printer.reads.bind reads_space) s v hread).trans hs
      have hne : v ≠ [] := fun hnil => hinside.silent ⟨s, hs, hnil ▸ hread⟩
      have hfeed := List.all_eq_true.1 hall _ (hlast v hv hne)
      cases hfeed
    · intro after hafter hall
      have hfeed := List.all_eq_true.1 hall _ (hlast after hafter.1 hafter.2)
      cases hfeed
  obtain ⟨post', hstart, hbehind⟩ := hfoot.keeps hpost hp (keepsStart_of_mem hp) (some '\n')
  refine ⟨substitute p none 0 a, post', fun inside => substitute p (some '-') 0 inside, hbefore.masked, hstart,
    fun inside hinside => ⟨hinside.of_masked (hwithin inside hinside).masked ?_, ?_⟩⟩
  · exact ((keepsStart_of_mem hp).sameStart _ inside).1
  · have hmisses : Misses p a.getLast? head (inside ++ (foot ++ post)) :=
      hhead.misses (hinside.blocks _) (seekOption_inside hinside hdashes) hp _
    dsimp only [around]
    rw [hbefore.runs _ ⟨inside, hinside, rfl⟩, Option.or_none, substitute_of_misses hmisses, hhead.last, Option.some_or,
      (hwithin inside hinside).runs _ rfl, hinside.last, Option.some_or, hbehind]

/-- The rules before the one for private keys leave its lines as they are, one after the other. -/
theorem Encloses.run {ps : List Pattern} (ha : Halts a) (hpost : Blocks post) (hps : ∀ p ∈ ps, p ∈ earlierRules)
    (h : Encloses a head foot post T) :
    Encloses a head foot post fun inside => ps.foldl (fun t p => substitute p none 0 t) (T inside) := by
  induction ps generalizing T with
  | nil => exact h
  | cons p ps ih =>
    refine ih (fun q hq => hps q (List.mem_cons_of_mem p hq)) ?_
    obtain ⟨a', post', f, hmasked, hstart, hT⟩ := h
    obtain ⟨a'', post'', g, hmasked', hstart', hnext⟩ :=
      encloses_substitute hhead hfoot (ha.of_masked hmasked) (hpost.of_sameStart hstart) (hps p List.mem_cons_self)
    refine ⟨a'', post'', fun inside => g (f inside), hmasked.trans hmasked', hstart.trans hstart', fun inside hinside => ?_⟩
    obtain ⟨hf, htext⟩ := hT inside hinside
    obtain ⟨hg, hgtext⟩ := hnext (f inside) hf
    exact ⟨hg, (congrArg (substitute p none 0) htext).trans hgtext⟩

end Enclosed

section Reading
variable {a inside post s t title title' : Text} {lead : String}

/-- A line of a key is read to its end. -/
theorem Title.keyLine?_append (h : Title title) (lead : String) (t : Text) :
    keyLine? lead (keyLine lead title ++ t) = some t := by
  have hstop : ("-----" ++ t : Text).takeWhile isTitleChar = [] ∧
      ("-----" ++ t : Text).dropWhile isTitleChar = "-----" ++ t := ⟨rfl, rfl⟩
  have hlead : literal? lead (keyLine lead title ++ t) = some (title ++ ("-----" ++ t)) :=
    Text.dropPrefix?_eq_some.2 (by rw [keyLine, List.append_assoc, List.append_assoc])
  rw [keyLine?, hlead]
  dsimp only [Option.bind_eq_bind, Option.bind_some]
  rw [List.takeWhile_append_of_pos h.chars, List.dropWhile_append_of_pos h.chars, hstop.1, hstop.2, List.append_nil,
    if_pos h.key]
  exact Text.dropPrefix?_eq_some.2 rfl

theorem Spaced.of_suffix (h : Spaced a) (hs : s <:+ a) : Spaced s := by
  intro e he
  refine h e ?_
  rwa [← getLast?_of_suffix hs (by rintro rfl; cases he)]

private theorem literal?_append_of_spaced (hlead : lead ∈ keyLeads) (hs : Spaced s) (hne : s ≠ [])
    (t : Text) :
    literal? lead (s ++ t) = (literal? lead s).map (· ++ t) := by
  -- The space in what is looked for is its last character.
  have hspace : ∀ lead ∈ keyLeads, ∀ u ∈ (Text.ofString lead).inits, u.getLast? = some (' ' : CodePoint) → u = Text.ofString lead := by
    decide
  cases hread : literal? lead s with
  | some r =>
    have htext : s = Text.ofString lead ++ r := Text.dropPrefix?_eq_some.1 hread
    exact Text.dropPrefix?_eq_some.2 (by rw [htext, List.append_assoc])
  | none =>
    rw [Option.map_none, Option.eq_none_iff_forall_ne_some]
    intro r hr
    have htext : s ++ t = Text.ofString lead ++ r := Text.dropPrefix?_eq_some.1 hr
    have hprefix : Text.ofString lead <+: s := by
      rcases List.append_eq_append_iff.1 htext with ⟨z, hz, -⟩ | ⟨z, hz, -⟩
      · have hlast : s.getLast? = some (' ' : CodePoint) := by
          rw [List.getLast?_eq_some_getLast hne, hs _ (List.getLast?_eq_some_getLast hne)]
        rw [hspace lead hlead s ((List.mem_inits _ _).2 ⟨z, hz.symm⟩) hlast]
      · exact ⟨z, hz.symm⟩
    obtain ⟨z, rfl⟩ := hprefix
    rw [show literal? lead (Text.ofString lead ++ z) = some z from Text.dropPrefix?_eq_some.2 rfl] at hread
    cases hread

/-- A line of a key is not read across a space and a dash. -/
theorem keyLine?_append (hlead : lead ∈ keyLeads) (hs : Spaced s) (hne : s ≠ []) (ht : ("-" : Text) <+: t) :
    keyLine? lead (s ++ t) = (keyLine? lead s).map (· ++ t) := by
  obtain ⟨w, rfl⟩ := ht
  have hstop : ("-" ++ w : Text).takeWhile isTitleChar = [] ∧
      ("-" ++ w : Text).dropWhile isTitleChar = "-" ++ w := ⟨rfl, rfl⟩
  rw [keyLine?, keyLine?, literal?_append_of_spaced hlead hs hne]
  cases hread : literal? lead s with
  | none => rfl
  | some q =>
    have hlast : Spaced q := hs.of_suffix (suffix_literal? hread)
    dsimp only [Option.map_some, Option.bind_eq_bind, Option.bind_some]
    by_cases hall : q.dropWhile isTitleChar = []
    · -- The title would end in a space.
      have hchars := List.dropWhile_eq_nil_iff.1 hall
      have htitle : q.takeWhile isTitleChar = q := by
        rw [← List.append_nil (q.takeWhile _), ← hall, List.takeWhile_append_dropWhile]
      have hkey : ¬Text.ofString "PRIVATE KEY" <:+ q := by
        rintro ⟨u, rfl⟩
        have hend := hlast 'Y' (by rw [List.getLast?_append]; rfl)
        cases hend
      rw [List.takeWhile_append_of_pos hchars, hstop.1, List.append_nil, htitle, if_neg hkey, if_neg hkey]
      rfl
    · have htake : (q ++ ("-" ++ w)).takeWhile isTitleChar = q.takeWhile isTitleChar := by
        rw [List.takeWhile_append, if_neg (Nat.ne_of_lt (length_takeWhile_lt hall))]
      have hdrop : (q ++ ("-" ++ w)).dropWhile isTitleChar = q.dropWhile isTitleChar ++ ("-" ++ w) := by
        rw [List.dropWhile_append, if_neg (by simpa using hall)]
      have hend : (q.dropWhile isTitleChar).getLast? = some (' ' : CodePoint) := by
        have hsuffix := getLast?_of_suffix (List.dropWhile_suffix (l := q) isTitleChar) hall
        have hsome := List.getLast?_eq_some_getLast hall
        have hspace := hlast _ (hsuffix ▸ hsome)
        rw [hsome, hspace]
      rw [htake, hdrop]
      split
      · exact literal?_append_of_last (by decide) hend _
      · rfl

end Reading

section Masking
variable {a head inside post t title title' : Text} {b : Option CodePoint}

/-- The last line of a key is sought, and found, behind its inside. -/
theorem seek?_foot (h' : Title title') (hinside : Inside inside) (post : Text) :
    seek? (fun _ => true) (keyLine? "-----END ") (inside ++ (keyLine "-----END " title' ++ post)) =
      some (keyLine "-----END " title' ++ post, post) := by
  have hnone : ∀ u, u <:+ inside → u ≠ [] →
      keyLine? "-----END " (u ++ (keyLine "-----END " title' ++ post)) = none := by
    intro u hu hne
    obtain ⟨c, u, rfl⟩ := List.exists_cons_of_ne_nil hne
    have hc : ¬('-' : CodePoint) = c := (hinside.chars c (hu.mem List.mem_cons_self)).1.symm
    have hliteral : literal? "-----END " (c :: u ++ (keyLine "-----END " title' ++ post)) = none := if_neg hc
    rw [keyLine?, hliteral]
    rfl
  rw [seek?_append_of_none hnone, if_pos (List.all_eq_true.2 fun _ _ => rfl)]
  exact seek?_of_some (h'.keyLine?_append _ post)

/-- The first line of a key does not look like its last. -/
theorem seek?_head (h : Title title) (hinside : Inside inside) (t : Text) :
    seek? (fun _ => true) (keyLine? "-----END ") (keyLine "-----BEGIN " title ++ (inside ++ t)) =
      seek? (fun _ => true) (keyLine? "-----END ") (inside ++ t) := by
  have hchain : (keyLine "-----BEGIN " title).IsChain fun c d : CodePoint => c = '-' → d ≠ 'E' :=
    h.isChain (by decide) (fun c hc _ _ hdash => by cases hc; cases hdash)
      (fun c _ hc _ hdash => absurd hdash (ne_dash_of_isTitleChar hc)) (by decide) (by decide)
  obtain ⟨w, rfl⟩ := hinside.exists_cons
  have hnone : ∀ u, u <:+ keyLine "-----BEGIN " title → u ≠ [] →
      keyLine? "-----END " (u ++ (('\n' : CodePoint) :: w ++ t)) = none := by
    intro u hu _
    have hliteral : literal? "-----END " u = none := by
      rw [Option.eq_none_iff_forall_ne_some]
      intro r hr
      have htext : u = ("-----END " : Text) ++ r := Text.dropPrefix?_eq_some.1 hr
      have hdash : ("-E" : Text) <:+: u := ⟨"----", "ND " ++ r, by rw [htext]; rfl⟩
      have hpair := List.IsChain.infix hchain (hdash.trans hu.isInfix)
      exact (List.isChain_cons_cons.1 hpair).1 rfl rfl
    rw [keyLine?, List.cons_append, literal?_append_of_head (by decide), hliteral]
    rfl
  rw [seek?_append_of_none hnone, if_pos (List.all_eq_true.2 fun _ _ => rfl)]

/-- From a first line on, wherever it is, everything is masked up to the end of the key behind it. -/
theorem substitute_privateKey {body : Text} (h' : Title title') (hread : keyLine? "-----BEGIN " t = some body)
    (hseek : seek? (fun _ => true) (keyLine? "-----END ") body = some (keyLine "-----END " title' ++ post, post))
    (b : Option CodePoint) : substitute privateKey b 0 t = mark ++ substitute privateKey (some '-') 0 post := by
  have hmatch : privateKey b t = some ⟨mark, post⟩ := privateKey_eq_some.2 ⟨body, _, hread, hseek, rfl⟩
  obtain ⟨c, u, ht⟩ : ∃ c u, t = c :: u ++ post := isRule_privateKey.reads hmatch
  obtain ⟨w, hw⟩ : keyLine "-----END " title' ++ post <:+ t := (seek?_eq_some hseek).1.trans (reads_keyLine _ t body hread)
  have hlast : (c :: u).getLast? = some ('-' : CodePoint) := by
    rw [ht, ← List.append_assoc] at hw
    rw [← List.append_cancel_right hw, List.getLast?_append, (h'.toKeyLine (by decide)).last]
    rfl
  rw [ht] at hmatch ⊢
  rw [substitute_of_some hmatch, hlast]

section Before
variable {body k r : Text} (hk : ("-" : Text) <+: k)
include hk

theorem keyLine?_begin_append (ha : Spaced a) (hne : a ≠ []) :
    keyLine? "-----BEGIN " (a ++ k) = (keyLine? "-----BEGIN " a).map (· ++ k) := keyLine?_append (by decide) ha hne hk

theorem seek?_end_append (ha : Spaced body) : seek? (fun _ => true) (keyLine? "-----END ") (body ++ k) =
    ((seek? (fun _ => true) (keyLine? "-----END ") body).map fun m => (m.1 ++ k, m.2 ++ k)).or
      (seek? (fun _ => true) (keyLine? "-----END ") k) := by
  have hlines : ∀ u, u <:+ body → u ≠ [] → keyLine? "-----END " (u ++ k) = (keyLine? "-----END " u).map (· ++ k) :=
    fun u hu hne => keyLine?_append (by decide) (ha.of_suffix hu) hne hk
  rw [seek?_append rfl hlines, if_pos (List.all_eq_true.2 fun _ _ => rfl)]

/-- Where no key begins, none begins with another one behind. -/
theorem privateKey_append_of_none (ha : Spaced a) (hne : a ≠ []) (hread : keyLine? "-----BEGIN " a = none) :
    privateKey b (a ++ k) = none := by
  rw [privateKey, keyLine?_begin_append hk ha hne, hread]
  rfl

/-- A key that is complete stays as it is with another one behind. -/
theorem privateKey_append_of_some (ha : Spaced a) (hne : a ≠ []) (hmatch : privateKey b a = some ⟨mark, r⟩) :
    privateKey b (a ++ k) = some ⟨mark, r ++ k⟩ := by
  obtain ⟨body, s, hread, hseek, -⟩ := privateKey_eq_some.1 hmatch
  have hbody : Spaced body := ha.of_suffix (reads_keyLine _ a body hread)
  refine privateKey_eq_some.2 ⟨body ++ k, s ++ k, ?_, ?_, rfl⟩
  · rw [keyLine?_begin_append hk ha hne, hread, Option.map_some]
  · rw [seek?_end_append hk hbody, hseek]
    rfl

end Before

section Keys
variable {S : Text → Prop} {key : Text → Text} (hkey : ∀ inside, ("-" : Text) <+: key inside)
include hkey

theorem hides_behind_char {c : CodePoint} (ha : Spaced (c :: a)) (hread : keyLine? "-----BEGIN " (c :: a) = none)
    (h : ∀ b, Hides S fun inside => substitute privateKey b 0 (a ++ key inside)) :
    Hides S fun inside => substitute privateKey b 0 (c :: a ++ key inside) := by
  obtain ⟨z, hz⟩ := h (some c)
  refine ⟨c :: z, fun inside hinside => ?_⟩
  have hnone : privateKey b (c :: a ++ key inside) = none :=
    privateKey_append_of_none (hkey inside) ha (List.cons_ne_nil c a) hread
  exact (substitute_of_none hnone).trans (congrArg (c :: ·) (hz inside hinside))

theorem hides_behind_match {r : Text} (ha : Spaced a) (hmatch : privateKey b a = some ⟨mark, r⟩)
    (h : ∀ b, Hides S fun inside => substitute privateKey b 0 (r ++ key inside)) :
    Hides S fun inside => substitute privateKey b 0 (a ++ key inside) := by
  obtain ⟨c, u, rfl⟩ : ∃ c u, a = c :: u ++ r := isRule_privateKey.reads hmatch
  obtain ⟨z, hz⟩ := h (c :: u).getLast?
  refine ⟨mark ++ z, fun inside hinside => ?_⟩
  have hbehind := privateKey_append_of_some (hkey inside) ha (List.cons_ne_nil c _) hmatch
  rw [List.append_assoc] at hbehind
  dsimp only
  rw [List.append_assoc, substitute_of_some hbehind]
  exact congrArg (mark ++ ·) (hz inside hinside)

/-- What begins before the key, and does not end there, ends with the key. -/
theorem hides_open {body : Text} (h' : Title title') (ha : Spaced a) (hne : a ≠ [])
    (hread : keyLine? "-----BEGIN " a = some body) (hopen : seek? (fun _ => true) (keyLine? "-----END ") body = none)
    (hfoot : ∀ inside, S inside → seek? (fun _ => true) (keyLine? "-----END ") (key inside) =
      some (keyLine "-----END " title' ++ post, post)) :
    Hides S fun inside => substitute privateKey b 0 (a ++ key inside) := by
  refine ⟨mark ++ substitute privateKey (some '-') 0 post, fun inside hinside => ?_⟩
  have hbody : Spaced body := ha.of_suffix (reads_keyLine _ _ body hread)
  have hfirst : keyLine? "-----BEGIN " (a ++ key inside) = some (body ++ key inside) := by
    rw [keyLine?_begin_append (hkey inside) ha hne, hread, Option.map_some]
  refine substitute_privateKey h' hfirst ?_ b
  rw [seek?_end_append (hkey inside) hbody, hopen, hfoot inside hinside]
  rfl

end Keys

/-- All insides of a key look alike to the rule for private keys. -/
theorem hides_inside (h : Title title) (h' : Title title') (ha : Spaced a) (b : Option CodePoint) :
    Hides Inside fun inside => substitute privateKey b 0
      (around a (keyLine "-----BEGIN " title) inside (keyLine "-----END " title') post) := by
  let key : Text → Text := fun inside => keyLine "-----BEGIN " title ++ (inside ++ (keyLine "-----END " title' ++ post))
  have hkey : ∀ inside, ("-" : Text) <+: key inside := fun inside =>
    ⟨"----BEGIN " ++ (title ++ "-----") ++ (inside ++ (keyLine "-----END " title' ++ post)), rfl⟩
  have hfoot : ∀ inside, Inside inside → seek? (fun _ => true) (keyLine? "-----END ") (key inside) =
      some (keyLine "-----END " title' ++ post, post) := fun inside hinside =>
    (seek?_head h hinside _).trans (seek?_foot h' hinside post)
  change Hides Inside fun inside => substitute privateKey b 0 (a ++ key inside)
  -- What follows a match is shorter, but it is no tail in the sense of the recursion.
  induction hn : a.length using Nat.strong_induction_on generalizing a b with
  | _ n ih =>
    subst hn
    cases a with
    | nil =>
      refine ⟨mark ++ substitute privateKey (some '-') 0 post, fun inside hinside => ?_⟩
      exact substitute_privateKey h' (h.keyLine?_append _ _) (seek?_foot h' hinside post) b
    | cons c a =>
      cases hread : keyLine? "-----BEGIN " (c :: a) with
      | none =>
        have htail : Spaced a := ha.of_suffix (List.suffix_cons c a)
        exact hides_behind_char hkey ha hread fun b => ih a.length (Nat.lt_succ_self _) htail b rfl
      | some body =>
        cases hfound : seek? (fun _ => true) (keyLine? "-----END ") body with
        | none => exact hides_open hkey h' ha (List.cons_ne_nil c a) hread hfound hfoot
        | some m =>
          obtain ⟨s, r⟩ := m
          have hmatch : privateKey b (c :: a) = some ⟨mark, r⟩ := privateKey_eq_some.2 ⟨body, s, hread, hfound, rfl⟩
          obtain ⟨d, u, hdu⟩ : ∃ d u, c :: a = d :: u ++ r := isRule_privateKey.reads hmatch
          have hlt : r.length < (c :: a).length := by
            rw [hdu, List.length_append, List.length_cons]
            omega
          have hrest : Spaced r := ha.of_suffix (hdu ▸ List.suffix_append _ r)
          exact hides_behind_match hkey ha hmatch fun b => ih r.length hlt hrest b rfl

/-- All insides of a key look alike after redaction. -/
theorem redact_hides_inside (h : Title title) (h' : Title title') (hspaced : Spaced a) (ha : Halts a)
    (hpost : Blocks post) : Hides Inside fun inside =>
      redact (around a (keyLine "-----BEGIN " title) inside (keyLine "-----END " title') post) := by
  have hhead : KeyLine (keyLine "-----BEGIN " title) := h.toKeyLine (by decide)
  have hfoot : KeyLine (keyLine "-----END " title') := h'.toKeyLine (by decide)
  have hstart : Encloses a (keyLine "-----BEGIN " title) (keyLine "-----END " title') post fun inside =>
      around a (keyLine "-----BEGIN " title) inside (keyLine "-----END " title') post :=
    ⟨a, post, id, .refl a, .refl post, fun _ hinside => ⟨hinside, rfl⟩⟩
  obtain ⟨a', post', f, hmasked, -, hkept⟩ := hstart.run hhead hfoot ha hpost fun p hp => hp
  obtain ⟨z, hz⟩ : Hides Inside fun inside => substitute privateKey none 0
      (around a' (keyLine "-----BEGIN " title) inside (keyLine "-----END " title') post') :=
    hides_inside h h' (hspaced.of_masked hmasked) none
  refine ⟨z, fun inside hinside => ?_⟩
  obtain ⟨hf, htext⟩ := hkept inside hinside
  have hlast : ∀ t, redact t = substitute privateKey none 0 (earlierRules.foldl (fun t p => substitute p none 0 t) t) :=
    fun _ => rfl
  dsimp only at htext ⊢
  rw [hlast, htext]
  exact hz _ hf

end Masking

end Custody.Redaction
