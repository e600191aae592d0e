import Custody.Proofs.Redaction.PlainWords
import Custody.Proofs.Redaction.Waiting

/-! A token behind the name of the bearer scheme is masked, unless something before it takes the name for its value. -/
namespace Custody.Redaction

/-- A text that goes on with the sign between a name and its value. -/
def Signed (post : Text) : Prop := ∃ c ∈ (skipSpace post).head?, c = ':' ∨ c = '='

/-- A token, before a text: letters and digits of sufficient number, which are not read as the name of a secret by what
follows them. -/
structure Token (post tok : Text) : Prop where
  alnum : ∀ c ∈ tok, c.isAsciiAlnum = true
  long : 8 ≤ tok.length
  unnamed : Signed post → ¬Awaits secretName? tok

/-- A text whose end takes nothing that follows for its value. -/
structure Untaken (a : Text) : Prop where
  long : ¬Awaits longOpening a
  short : MentionsLogin a → ¬Awaits shortOpening a
  named : ¬Awaits namedValue? a

def Spaced (a : Text) : Prop := ∀ e ∈ a.getLast?, e = ' '

instance (a : Text) : Decidable (Spaced a) := inferInstanceAs (Decidable (∀ e ∈ a.getLast?, e = ' '))

def credential (tok : Text) : Text := "Bearer" ++ (" " ++ tok)

/-- The tokens that may stand before a text, with their scheme. -/
def IsCredential (post x : Text) : Prop := ∃ tok, Token post tok ∧ x = credential tok

section Tokens
variable {a a' post post' tok t x : Text} {b : Option CodePoint}

theorem Spaced.pauses (ha : Spaced a) : Pauses a := fun e he => by rw [ha e he]; rfl

theorem Spaced.of_masked (ha : Spaced a) (h : Masked a a') : Spaced a' := by
  rw [Spaced, h.ends.getLast?]
  exact ha

theorem Untaken.of_masked (h : Masked a a') (ha : Untaken a) : Untaken a' where
  long := fun h' => ha.long (h'.of_masked spares_longOpening h)
  short := fun hlogin h' => ha.short (hlogin.of_masked h) (h'.of_masked spares_shortOpening h)
  named := fun h' => ha.named (h'.of_masked spares_namedValue h)

theorem Token.of_sameStart (h : SameStart post post') (ht : Token post tok) : Token post' tok where
  alnum := ht.alnum
  long := ht.long
  unnamed := fun hsigned => ht.unnamed (by rwa [Signed, ← h.2])

theorem Token.plainWord (h : Token post tok) : PlainWord tok where
  nonempty := by
    rintro rfl
    exact absurd h.long (by decide)
  alnum := h.alnum
  free word hword hread := by
    have hshort : ∀ word ∈ ["echo", "printf", "login"], word.toList.length < 8 := by decide
    have hlong := h.long
    rw [← hread.length_eq] at hlong
    exact absurd (hshort word hword) (Nat.not_lt.2 hlong)

theorem plainWord_bearer : PlainWord "Bearer" where
  nonempty := by decide
  alnum := by decide
  free word hword hread := by
    have hshort : ∀ word ∈ ["echo", "printf", "login"], word = "printf" ∨ word.toList.length ≠ 6 := by decide
    rcases hshort word hword with rfl | hne
    · have hfirst := (List.forall₂_cons.1 hread).1
      revert hfirst
      decide
    · exact hne hread.length_eq

theorem closes_of_blocks (h : Blocks post) : Closes post := fun c hc => Or.inl (by rcases h c hc with rfl | rfl <;> rfl)

/-- Nothing is read across the border before a credential. -/
theorem border_of_space (ha : Spaced a) (hx : IsCredential post x) : Border a (x ++ t) := by
  obtain ⟨tok, -, rfl⟩ := hx
  refine ⟨fun e he => Or.inl (ha e he), rfl, ?_, fun _ => ?_⟩
  · rintro c hc
    cases hc
    decide
  · intro w hw
    simp only [innerWords, List.mem_cons, List.not_mem_nil, or_false] at hw
    rcases hw with rfl | rfl | rfl | rfl | rfl <;> rfl

end Tokens

section Misses
variable {p : Pattern} {a post tok x : Text} {b : Option CodePoint}

/-- A rule misses a credential if it misses the scheme, the space and the token. -/
theorem misses_credential (hscheme : ∀ b, Misses p b "Bearer" (" " ++ (tok ++ post)))
    (hspace : ∀ b, p b (" " ++ (tok ++ post)) = none) (htok : ∀ b, Misses p b tok post) :
    Misses p b (credential tok) post := by
  have hgap : ∀ b, Misses p b " " (tok ++ post) := by
    intro b u s hu hs
    obtain ⟨c, s, rfl⟩ := List.exists_cons_of_ne_nil hs
    cases u with
    | nil =>
      rw [← List.nil_append (c :: s), ← hu]
      exact hspace _
    | cons d u =>
      have hlength := congrArg List.length hu
      rw [List.length_append, List.length_cons, List.length_cons] at hlength
      have hone : (" " : Text).length = 1 := rfl
      omega
  have hrest : ∀ b, Misses p b (" " ++ tok) post := fun b => (hgap b).append (htok _)
  refine Misses.append ?_ (hrest _)
  rw [List.append_assoc]
  exact hscheme b

theorem misses_credential_bounded {q : Text → Option Found} (hscheme : ∀ t, q ("Bearer" ++ t) = none)
    (hspace : ∀ t, q (" " ++ t) = none) (htok : ∀ b, Misses (bounded q) b tok post) :
    Misses (bounded q) b (credential tok) post :=
  misses_credential (fun _ => misses_bounded plainWord_bearer.alnum (hscheme _) _)
    (fun b => by rw [bounded, hspace]; exact ite_self none) htok

theorem Token.piped?_append (ht : Token post tok) : piped? (credential tok ++ post) = piped? post := by
  obtain ⟨c, u, hcu, hc⟩ := ht.plainWord.exists_cons
  have hspace : registryPipe? (" " ++ (tok ++ post)) = none := by
    have hskip : registryPipe? (" " ++ (tok ++ post)) = registryPipe? (tok ++ post) := by
      have hstart : skipSpace (tok ++ post) = tok ++ post := by
        rw [hcu]
        exact List.dropWhile_cons_of_neg (by simp [isSpace_of_isPayloadChar (isPayloadChar_of_alnum hc)])
      have hboth : skipSpace (" " ++ (tok ++ post)) = skipSpace (tok ++ post) := rfl
      rw [registryPipe?_eq, registryPipe?_eq, hboth, hstart]
    rw [hskip, hcu]
    refine registryPipe?_of_head (isSpace_of_isPayloadChar (isPayloadChar_of_alnum hc)) ?_
    rintro rfl
    cases hc
  have hseek : piped? (" " ++ (tok ++ post)) = piped? (tok ++ post) := by
    have hcons : (" " ++ (tok ++ post) : Text) = (' ' : CodePoint) :: (tok ++ post) := rfl
    rw [hcons] at hspace ⊢
    rw [piped?, seek?_cons, hspace, if_pos (by decide)]
    rfl
  rw [credential, List.append_assoc, List.append_assoc, plainWord_bearer.piped?_append, hseek,
    ht.plainWord.piped?_append]

/-- No option begins between the scheme and the token. -/
theorem Token.optionName?_eq_none {w : String} (ht : Token post tok) (hw : w = "--password" ∨ w = "-p") :
    optionName? w (" " ++ (tok ++ post)) = none := by
  obtain ⟨c, u, hcu, hc⟩ := ht.plainWord.exists_cons
  have hfits : ¬Fits '-' c := fun hfits => by
    have hsign : c = '-' := of_decide_eq_true hfits
    rw [hsign] at hc
    cases hc
  rw [hcu]
  rcases hw with rfl | rfl
  · exact word?_of_not_fits hfits
  · exact word?_of_not_fits hfits

theorem Token.seek?_append (ht : Token post tok) :
    seek? isCommandChar shortOption? (credential tok ++ post) = seek? isCommandChar shortOption? post := by
  have hoption : shortOption? (" " ++ (tok ++ post)) = none := by
    rw [shortOption?_eq, opening, ht.optionName?_eq_none (Or.inr rfl)]
    rfl
  have hseek : seek? isCommandChar shortOption? (" " ++ (tok ++ post)) =
      seek? isCommandChar shortOption? (tok ++ post) := by
    have hcons : (" " ++ (tok ++ post) : Text) = (' ' : CodePoint) :: (tok ++ post) := rfl
    rw [hcons] at hoption ⊢
    rw [seek?_cons, hoption, if_pos (by decide)]
    rfl
  rw [credential, List.append_assoc, List.append_assoc, plainWord_bearer.seek?_append, hseek,
    ht.plainWord.seek?_append]

end Misses

section Rules
variable {a post tok x : Text} {b : Option CodePoint}

theorem namedSecret_eq_none {s : Text} (h : ∀ n, secretName? s = some n → valueSign? (skipSpace n) = none)
    (b : Option CodePoint) : namedSecret b s = none := by
  have hnone : namedValue? s = none := by
    rw [namedValue?]
    cases hn : secretName? s with
    | none => rfl
    | some n =>
      rw [Option.bind_some, h n hn]
      rfl
  rw [namedSecret_eq]
  dsimp only
  rw [opened, opening, hnone]
  rfl

/-- The name of a secret at the end of a token is no matter unless a sign follows. -/
theorem Token.misses_namedSecret (ht : Token post tok) (hpost : Blocks post) (b : Option CodePoint) :
    Misses namedSecret b tok post := by
  intro u s hs hne
  refine namedSecret_eq_none (fun n hn => ?_) _
  rw [hpost.secretName?_append] at hn
  obtain ⟨r, hr, rfl⟩ := Option.map_eq_some_iff.1 hn
  have hsuffix : s <:+ tok := ⟨u, hs.symm⟩
  have hsign : ∀ (c : CodePoint) (t : Text), c ≠ ':' → c ≠ '=' → valueSign? (c :: t) = none := fun c t hcolon heq =>
    if_neg fun h => h.elim hcolon heq
  cases r with
  | nil =>
    cases hskip : skipSpace post with
    | nil =>
      rw [List.nil_append, hskip]
      rfl
    | cons c t =>
      have hunsigned : ¬Signed post := fun h => ht.unnamed h ⟨s, hsuffix, hr⟩
      rw [List.nil_append, hskip]
      refine hsign c t (fun hc => hunsigned ⟨c, ?_, Or.inl hc⟩) fun hc => hunsigned ⟨c, ?_, Or.inr hc⟩ <;> rw [hskip] <;> rfl
  | cons c r =>
    have hc : c.isAsciiAlnum = true :=
      ht.alnum c (((consumes_secretName.reads s (c :: r) hr).trans hsuffix).mem List.mem_cons_self)
    have hstart : skipSpace (c :: r ++ post) = c :: (r ++ post) :=
      List.dropWhile_cons_of_neg (by simp [isSpace_of_isPayloadChar (isPayloadChar_of_alnum hc)])
    rw [hstart]
    refine hsign c _ ?_ ?_ <;> rintro rfl <;> cases hc

theorem misses_pipedSecret_credential (ht : Token post tok) (hpost : Blocks post) :
    Misses pipedSecret b (credential tok) post := by
  have hprinter : ∀ t, printer? ("Bearer" ++ t) = none ∧ printer? (" " ++ t) = none := fun _ => ⟨rfl, rfl⟩
  have htok := fun b => ht.plainWord.misses_pipedSecret (closes_of_blocks hpost) b
  rw [pipedSecret_eq] at htok ⊢
  refine misses_credential_bounded (fun t => ?_) (fun t => ?_) htok
  · rw [opened, opening, (hprinter t).1]
    rfl
  · rw [opened, opening, (hprinter t).2]
    rfl

theorem misses_passwordOption_credential (ht : Token post tok) : Misses passwordOption b (credential tok) post := by
  have hnospace : ∀ v : Text, (∀ c ∈ v, c.isAsciiAlnum = true) → ∀ c ∈ v, c.isSpace = false := fun v hv c hc =>
    isSpace_of_isPayloadChar (isPayloadChar_of_alnum (hv c hc))
  refine misses_credential (fun b => misses_passwordOption (hnospace _ plainWord_bearer.alnum) b) (fun b => ?_)
    fun b => misses_passwordOption (hnospace _ ht.alnum) b
  rw [passwordOption_eq]
  dsimp only
  rw [opened, opening, ht.optionName?_eq_none (Or.inl rfl)]
  rfl

theorem misses_loginOption_credential (ht : Token post tok) (hpost : Blocks post) :
    Misses loginOption b (credential tok) post := by
  have hlogin : ∀ t, loginWord? ("Bearer" ++ t) = none ∧ loginWord? (" " ++ t) = none := fun _ => ⟨rfl, rfl⟩
  have htok := fun b => ht.plainWord.misses_loginOption (closes_of_blocks hpost) b
  rw [loginOption_eq] at htok ⊢
  refine misses_credential_bounded (fun t => ?_) (fun t => ?_) htok
  · rw [openedLogin, (hlogin t).1]
    rfl
  · rw [openedLogin, (hlogin t).2]
    rfl

private theorem misses_encryptedPayload_credential (ht : Token post tok) (hpost : Blocks post) :
    Misses encryptedPayload b (credential tok) post := by
  have hfixed : (':' : CodePoint) ∉ ("Bearer" : Text) ∧ (':' : CodePoint) ∉ (" " : Text) := by decide
  have hcolon : (':' : CodePoint) ∉ credential tok := by
    simp only [credential, List.mem_append, not_or]
    exact ⟨hfixed.1, hfixed.2, fun hmem => by cases ht.alnum _ hmem⟩
  refine misses_encryptedPayload hcolon (fun c hc => ?_) b
  rcases hpost c hc with rfl | rfl <;> decide

private theorem misses_namedSecret_credential (ht : Token post tok) (hpost : Blocks post) :
    Misses namedSecret b (credential tok) post := by
  have htails : ("Bearer" : Text).tails = (["Bearer", "earer", "arer", "rer", "er", "r", []] : List Text) := by decide
  have hscheme : ∀ s ∈ ("Bearer" : Text).tails, s ≠ [] → ∀ t, secretName? (s ++ t) = none := by
    rw [htails]
    simp only [List.mem_cons, List.not_mem_nil, or_false]
    rintro s (rfl | rfl | rfl | rfl | rfl | rfl | rfl) hne t
    · rfl
    · rfl
    · rfl
    · rfl
    · rfl
    · rfl
    · exact absurd rfl hne
  refine misses_credential (fun b u s hs hne => namedSecret_eq_none (fun n hn => ?_) _) (fun b => ?_)
    fun b => ht.misses_namedSecret hpost b
  · rw [hscheme s ((List.mem_tails _ _).2 ⟨u, hs.symm⟩) hne] at hn
    cases hn
  · have hspace : secretName? (" " ++ (tok ++ post)) = none := rfl
    exact namedSecret_eq_none (fun n hn => by rw [hspace] at hn; cases hn) b

/-- No rule before the one for schemes finds a place within a credential. -/
theorem misses_of_token (ht : Token post tok) (hpost : Blocks post) {p : Pattern} (hp : p ∈ beforeSchemes) :
    Misses p b (credential tok) post := by
  simp only [beforeSchemes, List.mem_cons, List.not_mem_nil, or_false] at hp
  rcases hp with rfl | rfl | rfl | rfl | rfl
  · exact misses_pipedSecret_credential ht hpost
  · exact misses_passwordOption_credential ht
  · exact misses_loginOption_credential ht hpost
  · exact misses_encryptedPayload_credential ht hpost
  · exact misses_namedSecret_credential ht hpost

end Rules

section Hiding
variable {a post tok x : Text} {b : Option CodePoint}

/-- The value of an option before a credential ends before it, unless it has not begun. -/
theorem takes_of_spaced {v : Text} (ha : Spaced a) (hv : v <:+ a) (hne : v ≠ []) :
    Takes (IsCredential post) post optionValue? v :=
  Or.inl (settles_optionValue (ha.pauses.settled hv hne fun c hc => by rw [hc]; rfl))

theorem isWord_last_of_credential (hx : IsCredential post x) : x.getLast?.any CodePoint.isWord = true := by
  obtain ⟨tok, ht, rfl⟩ := hx
  have hlast := ht.plainWord.isWord_last
  rw [credential, List.getLast?_append, List.getLast?_append]
  cases htok : tok.getLast? with
  | none =>
    rw [htok] at hlast
    cases hlast
  | some c =>
    rw [htok] at hlast
    exact hlast

section Sees
variable {s : Text} (ha : Spaced a) (hfree : Untaken a) (hs : Solid a s)
include ha

theorem border_of_followed {t : Text} (ht : Followed (IsCredential post) post t) : Border a t := by
  obtain ⟨x, hx, rfl⟩ := ht
  exact border_of_space ha hx

include hfree hs

/-- A long option takes the scheme only where the text before awaits its value. -/
theorem sees_passwordOption_credential : Sees (IsCredential post) post passwordOption b s := by
  refine sees_passwordOption (fun _ => border_of_followed ha) hs fun n v hopen => ?_
  obtain ⟨hname, hway⟩ := opening_eq_some.1 hopen
  have hn : n <:+ a := (reads_optionName _ s n hname).trans hs.1
  refine takes_of_spaced ha ((reads_optionWay n v hway).trans hn) ?_
  rintro rfl
  rcases Option.or_eq_some_iff.1 hway with hspace | ⟨-, hsign⟩
  · exact hfree.long ⟨s, hs.1, by rw [longOpening, hname]; exact hspace⟩
  · -- A text that ends in a space does not end in an equals sign.
    have hn' : n = ("=" : Text) ++ [] := Text.dropPrefix?_eq_some.1 hsign
    have hlast : a.getLast? = some ('=' : CodePoint) := by
      rw [← getLast?_of_suffix hn (by rw [hn']; decide), hn']
      rfl
    cases ha _ hlast

/-- A short option takes it only behind a login. -/
theorem sees_loginOption_credential : Sees (IsCredential post) post loginOption b s := by
  by_cases hlogin : MentionsLogin a
  · refine sees_loginOption (fun _ => border_of_followed ha) hs (fun u n v hu hopen => ?_) ?_
    · have hread := bind_of_opening hopen
      have hv : v <:+ a := ((reads_optionName "-p").bind reads_space u v hread).trans hu
      exact takes_of_spaced ha hv fun hnil => hfree.short hlogin ⟨u, hu, hnil ▸ hread⟩
    · rintro x ⟨tok, ht, rfl⟩
      exact ht.seek?_append
  · have hnone : loginWord? s = none := by
      rw [loginWord?]
      cases hword : word? "login".toList s with
      | none => rfl
      | some r => exact absurd ⟨s, hs.1, by rw [hword]; exact Option.some_ne_none r⟩ hlogin
    rw [loginOption_eq]
    refine sees_bounded hs.2 (Or.inl (.of_none (fun t ht => ?_) ?_))
    · rw [openedLogin, (border_of_followed ha ht).steady_loginWord.same s hs.within, hnone]
      rfl
    · rw [openedLogin, hnone]
      rfl

private theorem local_namedSecret_credential : Local namedSecret b s (Followed (IsCredential post) post) := by
  refine local_namedSecret (fun _ => border_of_followed ha) hs fun v hread => ?_
  have hv : v <:+ a := (consumes_namedValue.reads s v hread).trans hs.1
  have hne : v ≠ [] := fun hnil => hfree.named ⟨s, hs.1, hnil ▸ hread⟩
  refine settles_run (ha.pauses.settled hv hne fun c hc => ?_) fun _ => isPayloadChar_of_not_bare
  rw [isBareChar, hc]
  rfl

private theorem sees_credential {p : Pattern} (hp : p ∈ beforeSchemes) :
    Sees (IsCredential post) post p b s := by
  simp only [beforeSchemes, List.mem_cons, List.not_mem_nil, or_false] at hp
  rcases hp with rfl | rfl | rfl | rfl | rfl
  · refine sees_pipedSecret (fun _ => border_of_followed ha) hs ?_
    rintro x ⟨tok, ht, rfl⟩
    exact ht.piped?_append
  · exact sees_passwordOption_credential ha hfree hs
  · exact sees_loginOption_credential ha hfree hs
  · exact Or.inl (local_encryptedPayload hs ha.pauses)
  · exact Or.inl (local_namedSecret_credential ha hfree hs)

end Sees

/-- No rule before the one for schemes takes the scheme from a token and leaves the token. -/
theorem stays_before_credential (ha : Spaced a) (hfree : Untaken a) (hpost : Blocks post) {p : Pattern}
    (hp : p ∈ beforeSchemes) :
    Stays (IsCredential post) a post fun x => substitute p none 0 (a ++ (x ++ post)) := by
  have hearlier : p ∈ earlierRules := List.mem_append_left [authorization] hp
  refine stays_of_sees (isRule_of_mem hearlier) (keepsStart_of_mem hearlier) (fun _ => isWord_last_of_credential)
    (fun _ _ hs => sees_credential ha hfree hs hp) ?_
  rintro x ⟨tok, ht, rfl⟩
  exact misses_of_token ht hpost hp

theorem isCredential_congr {post' : Text} (h : SameStart post post') : IsCredential post' = IsCredential post := by
  have hback : SameStart post' post := ⟨h.1.symm, h.2.symm⟩
  funext x
  refine propext ⟨?_, ?_⟩
  · rintro ⟨tok, ht, rfl⟩
    exact ⟨tok, ht.of_sameStart hback, rfl⟩
  · rintro ⟨tok, ht, rfl⟩
    exact ⟨tok, ht.of_sameStart h, rfl⟩

private theorem authorization_credential (ha : Spaced a) (hpost : Blocks post) (hx : IsCredential post x) :
    authorization a.getLast? (x ++ post) = some ⟨"Bearer" ++ " " ++ mark, post⟩ := by
  obtain ⟨tok, ht, rfl⟩ := hx
  have hboundary : isBoundary a.getLast? (credential tok ++ post) = true := by
    cases hlast : a.getLast? with
    | none => rfl
    | some e => rw [ha e hlast]; rfl
  have hname : schemeName? (credential tok ++ post) = some (" " ++ (tok ++ post)) := by
    rw [credential, List.append_assoc, List.append_assoc]
    rfl
  have hspace : space? (" " ++ (tok ++ post)) = some (tok ++ post) := by
    obtain ⟨c, u, rfl, hc⟩ := ht.plainWord.exists_cons
    have hskip : skipSpace (c :: u ++ post) = c :: u ++ post :=
      List.dropWhile_cons_of_neg (by simp [isSpace_of_isPayloadChar (isPayloadChar_of_alnum hc)])
    exact congrArg some hskip
  have hrun : run? 8 isTokenChar (tok ++ post) = some post := by
    have hall : tok.dropWhile isTokenChar = [] :=
      List.dropWhile_eq_nil_iff.2 fun c hc => isTokenChar_of_alnum (ht.alnum c hc)
    have hends : post.dropWhile isTokenChar = post := by
      cases post with
      | nil => rfl
      | cons c post =>
        refine List.dropWhile_cons_of_neg ?_
        rcases hpost c rfl with rfl | rfl <;> decide
    rw [run?_append_of_open hall, Nat.sub_eq_zero_of_le ht.long, run?, if_pos (Nat.zero_le _), hends]
  rw [authorization_eq, bounded, if_pos hboundary]
  refine opened_eq_some.2 ⟨_, _, hname, hspace, hrun, ?_⟩
  have htext : credential tok ++ post = "Bearer" ++ (" " ++ (tok ++ post)) := by
    rw [credential, List.append_assoc, List.append_assoc]
  rw [htext, upTo_append]

private theorem hides_credential (ha : Spaced a) (hpost : Blocks post) :
    Hides (IsCredential post) fun x => substitute authorization none 0 (a ++ (x ++ post)) := by
  refine hides_of_match isRule_authorization (fun _ => isWord_last_of_credential) (fun _ s hs => ?_)
    fun x hx => authorization_credential ha hpost hx
  refine local_authorization (fun _ => border_of_followed ha) hs fun n v hopen => ?_
  have hv : v <:+ a := ((consumes_schemeName.reads.bind reads_space) s v (bind_of_opening hopen)).trans hs.1
  by_cases hne : v = []
  · -- The name of the scheme is too short for a token.
    subst hne
    refine settles_nil rfl ?_
    rintro t ⟨x, ⟨tok, -, rfl⟩, rfl⟩
    rw [credential, List.append_assoc, List.append_assoc]
    rfl
  · refine settles_run (ha.pauses.settled hv hne fun c hc => ?_) fun _ => isPayloadChar_of_not_token
    by_contra htoken
    rw [isSpace_of_isTokenChar (Bool.not_eq_false _ ▸ htoken)] at hc
    cases hc

/-- All tokens look alike after redaction. -/
theorem redact_hides_credential (ha : Spaced a) (hfree : Untaken a) (hpost : Blocks post) :
    Hides (IsCredential post) fun x => redact (a ++ (x ++ post)) := by
  let run : Text → Text := fun x => beforeSchemes.foldl (fun t p => substitute p none 0 t) (a ++ (x ++ post))
  have hearlier : Stays (IsCredential post) a post run := by
    refine Stays.run (Or.inr ⟨_, post, .refl _, .refl _, fun _ _ => rfl⟩) fun p hp a' post' hmasked hstart => ?_
    rw [← isCredential_congr hstart]
    exact stays_before_credential (ha.of_masked hmasked) (hfree.of_masked hmasked) (hpost.of_sameStart hstart) hp
  have hscheme : Hides (IsCredential post) fun x => substitute authorization none 0 (run x) := by
    rcases hearlier with hhides | ⟨a', post', hmasked, hstart, hkept⟩
    · exact hhides.map _
    · have hbehind : Hides (IsCredential post) fun x => substitute authorization none 0 (a' ++ (x ++ post')) := by
        rw [← isCredential_congr hstart]
        exact hides_credential (ha.of_masked hmasked) (hpost.of_sameStart hstart)
      obtain ⟨z, hz⟩ := hbehind
      exact ⟨z, fun x hx => (congrArg _ (hkept x hx)).trans (hz x hx)⟩
  exact hscheme.map (substitute privateKey none 0)

end Hiding

end Custody.Redaction
