import Custody.Audit.Reports
import Custody.Proofs.Redaction.PlainWords

/-! A value behind the name of a secret and an equals sign is masked, whatever stands around it. -/
namespace Custody.Redaction

def secretWords : List String := ["secret", "password", "passwd", "passphrase", "token"]

section Names
variable {l m : Char} {ls ms : List Char} {c e : CodePoint} {name : String} {K t : Text}

theorem alnum_of_written (hm : Small m) (hc : c = ↑m ∨ c = ↑m.toUpper) : c.isAsciiAlnum = true := by
  obtain ⟨-, hupper, hle, hlt⟩ := hm
  rw [eq_ofChar_iff, eq_ofChar_iff] at hc
  simp only [CodePoint.isAsciiAlnum, CodePoint.isDigit, CodePoint.isUpper, CodePoint.isLower, Bool.or_eq_true,
    Bool.and_eq_true, decide_eq_true_eq]
  omega

theorem alnum_of_inAnyCase (hms : ∀ m ∈ ms, Small m)
    (h : List.Forall₂ (fun (l : Char) (c : CodePoint) => c = ↑l ∨ c = ↑l.toUpper) ms K) :
    ∀ c ∈ K, c.isAsciiAlnum = true := by
  induction h with
  | nil => exact fun _ hc => absurd hc List.not_mem_nil
  | cons hfirst _ ih =>
    have hhead := alnum_of_written (hms _ List.mem_cons_self) hfirst
    exact List.forall_mem_cons.2 ⟨hhead, ih fun m hm => hms m (List.mem_cons_of_mem _ hm)⟩

/-- Letters that may be written in the same way are the same. -/
theorem eq_of_fits (hl : Small l) (hm : Small m) (hc : c = ↑m ∨ c = ↑m.toUpper) (h : Fits l c) : l = m := by
  have hwritten := inAnyCase_of_fits hl h (alnum_of_written hm hc)
  rw [eq_ofChar_iff, eq_ofChar_iff] at hc hwritten
  obtain ⟨-, hmu, hmle, hmlt⟩ := hm
  obtain ⟨-, hlu, hlle, hllt⟩ := hl
  have hval : l.toNat = m.toNat := by omega
  exact Char.toNat_inj.1 hval

/-- A word reads another one only where it is the start of it. -/
theorem word?_of_inAnyCase (hls : SmallWord ls) (hms : SmallWord ms) (he : Unfit ls e)
    (h : List.Forall₂ (fun (l : Char) (c : CodePoint) => c = ↑l ∨ c = ↑l.toUpper) ms K) (t : Text) :
    word? ls (K ++ e :: t) = if ls <+: ms then some (K.drop ls.length ++ e :: t) else none := by
  induction ls generalizing ms K with
  | nil => simp
  | cons l ls ih =>
    cases h with
    | nil => simp [word?_of_not_fits (he l List.mem_cons_self)]
    | @cons m c ms K hc hrest =>
      rw [List.cons_append, word?_cons_cons]
      by_cases hfits : Fits l c
      · obtain rfl := eq_of_fits (hls l List.mem_cons_self) (hms m List.mem_cons_self) hc hfits
        have hlater := ih (fun x hx => hls x (List.mem_cons_of_mem _ hx)) (fun x hx => hms x (List.mem_cons_of_mem _ hx))
          (fun x hx => he x (List.mem_cons_of_mem _ hx)) hrest
        rw [if_pos hfits, hlater]
        simp
      · have hne : l ≠ m := by
          rintro rfl
          exact hfits (fits_of_inAnyCase (hms l List.mem_cons_self) hc)
        rw [if_neg hfits, if_neg]
        rw [List.cons_prefix_cons]
        exact fun h => hne h.1

/-- The name of a secret is read off to its end. -/
theorem secretName?_of_inAnyCase (hname : name ∈ secretWords) (hK : InAnyCase name K) (he : Edge e) (t : Text) :
    secretName? (K ++ e :: t) = some (e :: t) := by
  have hsmall : ∀ w ∈ "api" :: "master" :: secretWords, SmallWord w.toList := by decide
  have hwords : ∀ w ∈ "api" :: "master" :: secretWords, w ∈ words := by decide
  have hlength : K.length = name.toList.length := hK.length_eq.symm
  have hread : ∀ w ∈ "api" :: "master" :: secretWords, word? w.toList (K ++ e :: t) =
      if w.toList <+: name.toList then some (K.drop w.toList.length ++ e :: t) else none := fun w hw =>
    word?_of_inAnyCase (hsmall w hw) (hsmall name (List.mem_cons_of_mem _ (List.mem_cons_of_mem _ hname)))
      (he.unfit (hwords w hw)) hK t
  have happly : ∀ w ∈ "api" :: "master" :: secretWords, word? w.toList (K ++ e :: t) =
      if w = name then some (e :: t) else none := by
    have hapart : ∀ w ∈ "api" :: "master" :: secretWords, ∀ n ∈ secretWords, w.toList <+: n.toList → w = n := by decide
    intro w hw
    rw [hread w hw]
    by_cases heq : w = name
    · subst heq
      rw [if_pos (List.prefix_refl _), if_pos rfl, ← hlength, List.drop_length]
      rfl
    · rw [if_neg heq, if_neg fun h => heq (hapart w hw name hname h)]
  have hapi := happly "api" (by decide)
  have hmaster := happly "master" (by decide)
  have hsecret := happly "secret" (by decide)
  have hpassword := happly "password" (by decide)
  have hpasswd := happly "passwd" (by decide)
  have hpassphrase := happly "passphrase" (by decide)
  have htoken := happly "token" (by decide)
  simp only [secretWords, List.mem_cons, List.not_mem_nil, or_false] at hname
  simp only [secretName?_eq, nameReaders, List.findSome?_cons, joined?, hapi, hmaster, hsecret, hpassword, hpasswd,
    hpassphrase, htoken]
  rcases hname with rfl | rfl | rfl | rfl | rfl <;> rfl

end Names

section Values
variable {p : CodePoint → Bool} {a post s v : Text} {b : Option CodePoint}

/-- Nothing is read across the border between a sign and a plain word. -/
theorem border_of_sign (ha : a.getLast? = some ('=' : CodePoint)) {t : Text} (ht : Followed PlainWord post t) :
    Border a t := by
  obtain ⟨x, hx, rfl⟩ := ht
  obtain ⟨c, u, rfl, hc⟩ := hx.exists_cons
  have hpayload := isPayloadChar_of_alnum hc
  constructor
  · intro e he
    rw [ha] at he
    cases he
    exact Or.inr (Or.inr rfl)
  · exact isSpace_of_isPayloadChar hpayload
  · rintro d hd
    cases hd
    have hne : ∀ e : CodePoint, e.isAsciiAlnum = false → c ≠ e := by
      rintro e he rfl
      rw [hc] at he
      cases he
    exact ⟨hne '|' rfl, hne ':' rfl, hne '=' rfl⟩
  · rintro ⟨e, he, hspace⟩
    rw [ha] at he
    cases he
    cases hspace

/-- A run that comes to a plain word goes beyond it. -/
theorem run?_plainWord (h : PlainWord v) (hp : ∀ c, c.isAsciiAlnum = true → p c = true) {n : Nat} (hn : n ≤ 1) (post : Text) :
    run? n p (v ++ post) = some (post.dropWhile p) := by
  have hall : ∀ c ∈ v, p c = true := fun c hc => hp c (h.alnum c hc)
  have hlength : 0 < v.length := List.length_pos_iff.2 h.nonempty
  rw [run?_append_of_open (List.dropWhile_eq_nil_iff.2 hall), run?, if_pos (by omega)]

theorem takes_run (hp : ∀ c, c.isAsciiAlnum = true → p c = true) (hends : ∀ c, p c = false → isPayloadChar c = false)
    (v : Text) : Takes PlainWord post (run? 1 p) v := by
  by_cases hv : v.dropWhile p = []
  · refine Or.inr ⟨post.takeWhile p, post.dropWhile p, List.takeWhile_append_dropWhile.symm, fun x hx => ?_⟩
    rw [run?_append_of_open hv, run?_plainWord hx hp (Nat.sub_le 1 _)]
  · exact Or.inl (settles_run hv hends)

theorem takes_optionValue (v : Text) : Takes PlainWord post optionValue? v := by
  have hrun : Takes PlainWord post (run? 1 fun c => !c.isSpace) v := takes_run
    (fun c hc => by rw [isSpace_of_isPayloadChar (isPayloadChar_of_alnum hc)]; rfl) (fun _ => isPayloadChar_of_not_word) v
  have hunfold : ∀ t : Text, optionValue? t = if t.head? = some ('-' : CodePoint) then none else
      run? 1 (fun c => !c.isSpace) t := fun _ => rfl
  have hhead : ∀ t, Followed PlainWord post t →
      (v ++ t).head? = some ('-' : CodePoint) → v.head? = some ('-' : CodePoint) := by
    rintro t ⟨x, hx, rfl⟩ h
    obtain ⟨c, u, rfl, hc⟩ := hx.exists_cons
    cases v with
    | nil =>
      cases h
      cases hc
    | cons d v => exact h
  by_cases hv : v.head? = some ('-' : CodePoint)
  · -- What begins like an option is no value.
    have hnone : ∀ t, optionValue? (v ++ t) = none := by
      intro t
      rw [hunfold, List.head?_append, hv, Option.some_or, if_pos rfl]
    have hvnone : optionValue? v = none := by rw [hunfold, if_pos hv]
    refine Or.inl ⟨fun t _ => by rw [hnone, hvnone]; rfl, fun r hr => ?_⟩
    rw [hvnone] at hr
    cases hr
  · rcases hrun with hsettles | ⟨y, r, hpost, hvalue⟩
    · refine Or.inl ⟨fun t ht => ?_, fun r hr => ?_⟩
      · rw [hunfold, hunfold, if_neg fun h => hv (hhead t ht h), if_neg hv, hsettles.same t ht]
      · rw [hunfold, if_neg hv] at hr
        exact hsettles.ends r hr
    · refine Or.inr ⟨y, r, hpost, fun x hx => ?_⟩
      rw [hunfold, if_neg fun h => hv (hhead _ ⟨x, hx, rfl⟩ h), hvalue x hx]

end Values

section Payloads
variable {a post s : Text} {f g : Text → Option Text} {P Q : Text → Prop} {lead : String} {b : Option CodePoint}

/-- A reader either stops before the secrets, and then `Q` holds for what it leaves, or what it leaves is the same
behind all of them. -/
def Leaves (post : Text) (f : Text → Option Text) (Q : Text → Prop) (s : Text) : Prop :=
  ((∀ t, Followed PlainWord post t → f (s ++ t) = (f s).map (· ++ t)) ∧ ∀ r, f s = some r → Q r) ∨
  ∃ q, (∀ t, Followed PlainWord post t → f (s ++ t) = q) ∧ (∀ r ∈ q, r <:+ post) ∧ (f s).getD [] = [] ∧
    (q = none → f s = none)

theorem Leaves.bind (h : Leaves post f P s) (hg : ∀ r, P r → Leaves post g Q r) (hread : Reads g) (hnil : g [] = none) :
    Leaves post (fun s => (f s).bind g) Q s := by
  unfold Leaves
  dsimp only
  rcases h with ⟨hsame, hrest⟩ | ⟨q, hsame, hq, hempty, hnone⟩
  · cases hf : f s with
    | none =>
      refine Or.inl ⟨fun t ht => ?_, fun r hr => by cases hr⟩
      rw [hsame t ht, hf]
      rfl
    | some r =>
      rw [Option.bind_some]
      have hthere : ∀ t, Followed PlainWord post t → (f (s ++ t)).bind g = g (r ++ t) := by
        intro t ht
        rw [hsame t ht, hf]
        rfl
      rcases hg r (hrest r hf) with ⟨hsame', hrest'⟩ | ⟨q, hsame', hq⟩
      · exact Or.inl ⟨fun t ht => (hthere t ht).trans (hsame' t ht), hrest'⟩
      · exact Or.inr ⟨q, fun t ht => (hthere t ht).trans (hsame' t ht), hq⟩
  · have hfail : (f s).bind g = none := by
      cases hf : f s with
      | none => rfl
      | some r =>
        rw [hf, Option.getD_some] at hempty
        rw [Option.bind_some, hempty, hnil]
    rw [hfail]
    refine Or.inr ⟨q.bind g, fun t ht => by rw [hsame t ht], fun r hr => ?_, rfl, fun _ => rfl⟩
    obtain ⟨r', hr', hr⟩ := Option.bind_eq_some_iff.1 hr
    exact (hread r' r hr).trans (hq r' hr')

private theorem leaves_literal (ha : a.getLast? = some ('=' : CodePoint))
    (hlead : ('=' : CodePoint) ∉ Text.ofString lead)
    (hs : Solid a s) : Leaves post (literal? lead) (Solid a) s := by
  have hlast : s.getLast? = some ('=' : CodePoint) := (getLast?_of_suffix hs.1 hs.2).trans ha
  refine Or.inl ⟨fun t _ => literal?_append_of_last hlead hlast t, fun r hr => ⟨(suffix_literal? hr).trans hs.1, ?_⟩⟩
  have hrest := getLast?_of_literal? hlead hlast hr
  rintro rfl
  cases hrest

private theorem leaves_field (hs : Solid a s) : Leaves post field? (fun r => Solid a r ∧ Ends r) s := by
  by_cases hopen : s.dropWhile isPayloadChar = []
  · have hread : ∀ t, Followed PlainWord post t → field? (s ++ t) = some (post.dropWhile isPayloadChar) := by
      rintro t ⟨x, hx, rfl⟩
      rw [field?, run?_append_of_open hopen, run?_plainWord hx (fun _ => isPayloadChar_of_alnum) (Nat.sub_le 1 _)]
    refine Or.inr ⟨some (post.dropWhile isPayloadChar), hread, fun r hr => ?_, ?_, fun h => by cases h⟩
    · cases hr
      exact List.dropWhile_suffix _
    · rw [field?, run?, hopen]
      split <;> rfl
  · refine Or.inl ⟨fun t _ => run?_append_of_ended hopen 1 t, fun r hr => ?_⟩
    obtain ⟨c, u, rfl, hc⟩ := head_of_run? hopen hr
    exact ⟨⟨(suffix_run? hr).trans hs.1, List.cons_ne_nil c u⟩, c, u, rfl, hc⟩

/-- The last field of a payload may be the secret, or any field before it. -/
theorem sees_encryptedPayload (ha : a.getLast? = some ('=' : CodePoint)) (hs : Solid a s) :
    Sees PlainWord post encryptedPayload b s := by
  have hlead : Leaves post (literal? "encrypted:") (Solid a) s := leaves_literal ha (by decide) hs
  have hfield : ∀ r, Solid a r → Leaves post field? (fun r => Solid a r ∧ Ends r) r := fun r => leaves_field
  have hcolon : ∀ r, Solid a r ∧ Ends r → Leaves post (literal? ":") (Solid a) r := fun r hr =>
    leaves_literal ha (by decide) hr.1
  have hpayload : Leaves post payload? (fun r => Solid a r ∧ Ends r) s :=
    ((((hlead.bind hfield reads_field rfl).bind hcolon (reads_literal _) rfl).bind hfield reads_field rfl).bind hcolon
      (reads_literal _) rfl).bind hfield reads_field rfl
  rw [encryptedPayload_eq]
  rcases hpayload with ⟨hsame, hrest⟩ | ⟨q, hsame, hq, -, hnone⟩
  · refine Or.inl ⟨fun t ht => ?_, fun m hm => ?_⟩
    · rw [hsame t ht, Option.map_map, Option.map_map]
      rfl
    · obtain ⟨r, hr, rfl⟩ := Option.map_eq_some_iff.1 hm
      exact (hrest r hr).2
  · cases q with
    | none =>
      refine Or.inl (.of_none (fun t ht => ?_) ?_)
      · rw [hsame t ht]
        rfl
      · rw [hnone rfl]
        rfl
    | some r =>
      obtain ⟨y, hy⟩ := hq r rfl
      refine Or.inr (Or.inl ⟨"encrypted:" ++ mark, y, r, hy.symm, fun x hx => ?_⟩)
      dsimp only
      rw [hsame _ ⟨x, hx, rfl⟩]
      rfl

end Payloads

section Hiding
variable {name : String} {K a post t v w : Text} {b : Option CodePoint}

private theorem misses_of_closes (hv : PlainWord v) (hpost : Closes post) :
    Misses encryptedPayload b v post := by
  refine misses_encryptedPayload (fun hmem => ?_) (fun c hc => ?_) b
  · have hcolon := hv.alnum _ hmem
    cases hcolon
  · have hletters : ∀ d ∈ Text.ofString "encrypted:", d.isSpace = false := by decide
    rcases hpost c hc with hspace | rfl | rfl | rfl | rfl
    · intro hmem
      rw [hletters c hmem] at hspace
      cases hspace
    all_goals decide

/-- No rule before the one for names takes the name or the sign from a plain word and leaves the word. -/
theorem stays_behind_sign (ha : a.getLast? = some ('=' : CodePoint)) (hpost : Closes post) :
    ∀ p ∈ [pipedSecret, passwordOption, loginOption, encryptedPayload],
      Stays PlainWord a post fun x => substitute p none 0 (a ++ (x ++ post)) := by
  have hborder : ∀ t, Followed PlainWord post t → Border a t := fun _ => border_of_sign ha
  have hword : ∀ x, PlainWord x → x.getLast?.any CodePoint.isWord = true := fun _ => PlainWord.isWord_last
  intro p hp
  simp only [List.mem_cons, List.not_mem_nil, or_false] at hp
  rcases hp with rfl | rfl | rfl | rfl
  · exact stays_of_sees isRule_pipedSecret keepsStart_pipedSecret hword
      (fun _ _ hs => sees_pipedSecret hborder hs fun _ hx => hx.piped?_append post)
      fun _ hx => hx.misses_pipedSecret hpost _
  · refine stays_of_sees isRule_passwordOption keepsStart_passwordOption hword
      (fun _ _ hs => sees_passwordOption hborder hs fun _ v _ => takes_optionValue v)
      fun _ hx => misses_passwordOption (fun c hc => ?_) _
    exact isSpace_of_isPayloadChar (isPayloadChar_of_alnum (hx.alnum c hc))
  · exact stays_of_sees isRule_loginOption keepsStart_loginOption hword
      (fun _ _ hs => sees_loginOption hborder hs (fun _ _ v _ _ => takes_optionValue v)
        fun _ hx => hx.seek?_append post)
      fun _ hx => hx.misses_loginOption hpost _
  · exact stays_of_sees isRule_encryptedPayload keepsStart_encryptedPayload hword
      (fun _ _ hs => sees_encryptedPayload ha hs) fun _ hx => misses_of_closes hx hpost

private theorem namedValue?_of_inAnyCase (hname : name ∈ secretWords) (hK : InAnyCase name K)
    (ht : Starts t) :
    namedValue? (K ++ ("=" ++ t)) = some t := by
  have hsign : valueSign? (skipSpace ("=" ++ t : Text)) = some t := rfl
  have hskip : skipSpace t = t := skipSpace_append ht []
  have hread : secretName? (K ++ ("=" ++ t)) = some ("=" ++ t) :=
    secretName?_of_inAnyCase hname hK (e := '=') (Or.inr (Or.inr rfl)) t
  rw [namedValue?, hread, Option.bind_some, hsign, Option.map_some, hskip]

/-- Whether there is a value behind a name and a sign depends on what follows. -/
theorem not_local_of_name (hname : name ∈ secretWords) (hK : InAnyCase name K) (hv : PlainWord v) :
    ¬Local namedSecret b (K ++ "=") (Followed PlainWord post) := by
  intro hlocal
  have hstarts : Starts (v ++ post) := by
    obtain ⟨c, u, rfl, hc⟩ := hv.exists_cons
    exact isSpace_of_isPayloadChar (isPayloadChar_of_alnum hc)
  have halone : namedSecret b (K ++ "=") = none := by
    have hread : namedValue? (K ++ "=") = some [] := namedValue?_of_inAnyCase hname hK (t := []) rfl
    rw [namedSecret_eq]
    dsimp only
    rw [opened, opening, hread]
    rfl
  have hfound : namedSecret b (K ++ ("=" ++ (v ++ post))) ≠ none := by
    have hread := namedValue?_of_inAnyCase hname hK hstarts
    have hrun := run?_plainWord hv (p := isBareChar)
      (fun _ hc => isBareChar_of_isPayloadChar (isPayloadChar_of_alnum hc)) (Nat.le_refl 1) post
    rw [namedSecret_eq]
    dsimp only
    rw [opened, opening, hread, Option.bind_some, Option.map_some, Option.bind_some, hrun]
    exact Option.some_ne_none _
  have hhere := hlocal.here (v ++ post) ⟨v, hv, rfl⟩
  rw [halone, List.append_assoc] at hhere
  exact hfound hhere

theorem solid_of_name (hname : name ∈ secretWords) (hK : InAnyCase name K) :
    ∀ c ∈ (K ++ "=" : Text), isPayloadChar c = true := by
  have hsmall : ∀ w ∈ secretWords, SmallWord w.toList := by decide
  intro c hc
  rcases List.mem_append.1 hc with hc | hc
  · exact isPayloadChar_of_alnum (alnum_of_inAnyCase (hsmall name hname) hK c hc)
  · cases List.mem_singleton.1 hc
    rfl

theorem hides_behind_name (hname : name ∈ secretWords) (hK : InAnyCase name K) (hv : PlainWord v)
    (ha : (K ++ "=" : Text) <:+ a) :
    Hides PlainWord fun x => substitute namedSecret none 0 (a ++ (x ++ post)) := by
  have hne : (K ++ "=" : Text) ≠ [] := List.append_ne_nil_of_right_ne_nil K (List.cons_ne_nil _ _)
  have hlast : a.getLast? = some ('=' : CodePoint) := by
    rw [← getLast?_of_suffix ha hne]
    exact List.getLast?_concat
  refine hides_of_place isRule_namedSecret (fun _ => PlainWord.isWord_last) (fun _ s hs => ?_) ⟨ha, hne⟩
    (solid_of_name hname hK) fun _ => not_local_of_name hname hK hv
  exact local_or_covers_namedSecret (fun _ => border_of_sign hlast) hs fun v _ =>
    takes_run (fun _ hc => isBareChar_of_isPayloadChar (isPayloadChar_of_alnum hc)) (fun _ => isPayloadChar_of_not_bare) v

/-- All plain words behind a name and a sign look alike after redaction. -/
theorem redact_hides_named (hname : name ∈ secretWords) (hK : InAnyCase name K) (hpost : Closes post) (pre : Text)
    (hv : PlainWord v) : Hides PlainWord fun x => redact (pre ++ (K ++ "=") ++ (x ++ post)) := by
  have hlast : (pre ++ (K ++ "=") : Text).getLast? = some ('=' : CodePoint) := by
    rw [← List.append_assoc]
    exact List.getLast?_concat
  have hearlier : Stays PlainWord (pre ++ (K ++ "=")) post fun x =>
      [pipedSecret, passwordOption, loginOption, encryptedPayload].foldl (fun t p => substitute p none 0 t)
        (pre ++ (K ++ "=") ++ (x ++ post)) := by
    refine Stays.run (Or.inr ⟨_, post, .refl _, .refl _, fun _ _ => rfl⟩) fun p hp a' post' hmasked hstart => ?_
    refine stays_behind_sign (hmasked.ends.getLast?.trans hlast) ?_ p hp
    rw [Closes, hstart.1]
    exact hpost
  have hnamed : Hides PlainWord fun x => substitute namedSecret none 0
      ([pipedSecret, passwordOption, loginOption, encryptedPayload].foldl (fun t p => substitute p none 0 t)
        (pre ++ (K ++ "=") ++ (x ++ post))) := by
    rcases hearlier with hhides | ⟨a', post', hmasked, -, hkept⟩
    · exact hhides.map _
    · have hbehind : Hides PlainWord fun x => substitute namedSecret none 0 (a' ++ (x ++ post')) :=
        hides_behind_name hname hK hv (hmasked.ends.suffix (List.suffix_append pre _) (solid_of_name hname hK))
      obtain ⟨z, hz⟩ := hbehind
      exact ⟨z, fun x hx => (congrArg _ (hkept x hx)).trans (hz x hx)⟩
  exact hnamed.map fun t => substitute privateKey none 0 (substitute authorization none 0 t)

/-- What is recorded of a command does not depend on the value that it gives a named secret. -/
theorem named_value_is_hidden (hname : name ∈ secretWords) (hK : InAnyCase name K) (hpost : Closes post) (hv : PlainWord v)
    (hw : PlainWord w) (pre : Text) :
    redact (pre ++ K ++ "=" ++ v ++ post) = redact (pre ++ K ++ "=" ++ w ++ post) ∧
    ∀ user remote success, Audit.Report.commandExecution (pre ++ K ++ "=" ++ v ++ post) user remote success =
      Audit.Report.commandExecution (pre ++ K ++ "=" ++ w ++ post) user remote success := by
  obtain ⟨z, hz⟩ := redact_hides_named hname hK hpost pre hv
  have hredact : redact (pre ++ K ++ "=" ++ v ++ post) = redact (pre ++ K ++ "=" ++ w ++ post) := by
    have hboth := (hz v hv).trans (hz w hw).symm
    simpa only [List.append_assoc] using hboth
  refine ⟨hredact, fun user remote success => ?_⟩
  rw [Audit.Report.commandExecution, Audit.Report.commandExecution, hredact]

theorem named_value_is_hidden_in_command :
    redact "curl -d db_Password=swordfish7, next" = redact "curl -d db_Password=hunter2, next" := by
  have hplain : ∀ v ∈ (["swordfish7", "hunter2"] : List Text), PlainWord v := by
    have hletters : ∀ v ∈ (["swordfish7", "hunter2"] : List Text), v ≠ [] ∧ ∀ c ∈ v, c.isAsciiAlnum = true := by decide
    have hlengths : ∀ v ∈ (["swordfish7", "hunter2"] : List Text), ∀ word ∈ ["echo", "printf", "login"],
      word.toList.length ≠ v.length := by decide
    exact fun v hv => ⟨(hletters v hv).1, (hletters v hv).2, fun word hword h => hlengths v hv word hword h.length_eq⟩
  have hname : InAnyCase "password" "Password" := by
    unfold InAnyCase
    decide
  have hcloses : Closes ", next" := by
    rintro c hc
    cases hc
    tauto
  exact (named_value_is_hidden (by decide) hname hcloses (hplain "swordfish7" (by decide)) (hplain "hunter2" (by decide))
    "curl -d db_").1

end Hiding

end Custody.Redaction
