import Custody.Proofs.Redaction.Borders
import Custody.Proofs.Redaction.Rules

/-! When the matches of a rule stay before a border. -/
namespace Custody.Redaction

theorem isSpace_of_isPayloadChar {c : CodePoint} (h : isPayloadChar c = true) : c.isSpace = false := by
  simp only [isPayloadChar, Bool.or_eq_true, decide_eq_true_eq] at h
  rcases h with ((h | rfl) | rfl) | rfl
  · simp only [CodePoint.isAsciiAlnum, CodePoint.isDigit, CodePoint.isUpper, CodePoint.isLower, Bool.or_eq_true,
      Bool.and_eq_true, decide_eq_true_eq] at h
    simp only [CodePoint.isSpace, Bool.or_eq_false_iff, Bool.and_eq_false_iff, decide_eq_false_iff_not, beq_eq_false_iff_ne]
    omega
  · rfl
  · rfl
  · rfl

theorem isPayloadChar_of_isSpace {c : CodePoint} (h : c.isSpace = true) : isPayloadChar c = false := by
  by_contra hc
  rw [isSpace_of_isPayloadChar (Bool.not_eq_false _ ▸ hc)] at h
  cases h

theorem isPayloadChar_of_not_bare {c : CodePoint} (h : isBareChar c = false) : isPayloadChar c = false := by
  simp only [isBareChar, Bool.and_eq_false_iff, Bool.not_eq_false', Bool.or_eq_true, decide_eq_true_eq] at h
  rcases h with h | ((rfl | rfl) | rfl) | rfl
  · exact isPayloadChar_of_isSpace h
  all_goals rfl

theorem isPayloadChar_of_not_token {c : CodePoint} (h : isTokenChar c = false) : isPayloadChar c = false := by
  simp only [isTokenChar, Bool.or_eq_false_iff] at h
  simp only [isPayloadChar, Bool.or_eq_false_iff]
  exact ⟨⟨⟨h.1.1.1.1.1.1.1.1.1.1, h.1.1.1.1.1.1.2⟩, h.1.1.1.1.1.2⟩, h.1.1.1.1.2⟩

theorem isPayloadChar_of_not_word {c : CodePoint} (h : (!c.isSpace) = false) : isPayloadChar c = false :=
  isPayloadChar_of_isSpace (by simpa using h)

theorem isSpace_of_isTokenChar {c : CodePoint} (h : isTokenChar c = true) : c.isSpace = false := by
  have hletters : ∀ l ∈ ['i', 's', 'k'], c.isLetter l = true → c.isSpace = false := by
    intro l hl hc
    have hlower : l.isLower = true := by
      simp only [List.mem_cons, List.not_mem_nil, or_false] at hl
      rcases hl with rfl | rfl | rfl <;> rfl
    refine isSpace_of_fits (Or.inl hlower) ?_
    rw [Fits, if_pos hlower]
    exact hc
  simp only [isTokenChar, Bool.or_eq_true, decide_eq_true_eq] at h
  rcases h with (((((((((h | rfl) | rfl) | rfl) | rfl) | rfl) | rfl) | rfl) | h) | h) | h
  · refine isSpace_of_isPayloadChar ?_
    rw [isPayloadChar, h]
    rfl
  · rfl
  · rfl
  · rfl
  · rfl
  · rfl
  · rfl
  · rfl
  · exact hletters 'i' (by decide) h
  · exact hletters 's' (by decide) h
  · exact hletters 'k' (by decide) h

/-- What is left behind it begins with a character that ends values. -/
def Ends (r : Text) : Prop := ∃ c u, r = c :: u ∧ isPayloadChar c = false

theorem ends_of_registryPipe? {r q : Text} (h : registryPipe? r = some q) : Ends r := by
  rw [registryPipe?_eq] at h
  simp only [Option.bind_eq_some_iff, Option.map_eq_some_iff] at h
  obtain ⟨_, ⟨_, ⟨_, ⟨_, hpipe, -⟩, -⟩, -⟩, -⟩ := h
  cases r with
  | nil => cases hpipe
  | cons c r =>
    refine ⟨c, r, rfl, ?_⟩
    by_cases hc : c.isSpace = true
    · exact isPayloadChar_of_isSpace hc
    · have hskip : skipSpace (c :: r) = c :: r := List.dropWhile_cons_of_neg hc
      rw [hskip, literal?_cons (d := '|') rfl] at hpipe
      obtain ⟨rfl, -⟩ := Option.ite_none_right_eq_some.1 hpipe
      rfl

theorem registryPipe?_of_skipSpace {t : Text} (h : ∀ c ∈ (skipSpace t).head?, c ≠ '|') : registryPipe? t = none := by
  have hpipe : literal? "|" (skipSpace t) = none := by
    cases hskip : skipSpace t with
    | nil => rfl
    | cons c u => rw [literal?_cons (d := '|') rfl, if_neg (h c (by rw [hskip]; rfl)).symm]
  rw [registryPipe?_eq, hpipe]
  rfl

theorem registryPipe?_of_head {c : CodePoint} {t : Text} (hc : c.isSpace = false) (hsign : c ≠ '|') :
    registryPipe? (c :: t) = none := by
  have hskip : skipSpace (c :: t) = c :: t := List.dropWhile_cons_of_neg (by simp [hc])
  refine registryPipe?_of_skipSpace ?_
  rw [hskip]
  intro d hd
  cases hd
  exact hsign

/-- A value that ends before the border, if there is one at all. -/
structure Settles (value : Text → Option Text) (X : Text → Prop) (v : Text) : Prop where
  same : ∀ t, X t → value (v ++ t) = (value v).map (· ++ t)
  ends : ∀ r, value v = some r → Ends r

section Settles
variable {value : Text → Option Text} {X : Text → Prop} {p : CodePoint → Bool} {n : Nat} {a v : Text}

theorem settles_nil (hnil : value [] = none) (h : ∀ t, X t → value t = none) : Settles value X [] where
  same t ht := by
    rw [List.nil_append, h t ht, hnil]
    rfl
  ends r hr := by
    rw [hnil] at hr
    cases hr

theorem settles_run (h : v.dropWhile p ≠ []) (hp : ∀ c, p c = false → isPayloadChar c = false) :
    Settles (run? n p) X v where
  same t _ := run?_append_of_ended h n t
  ends r hr := by
    obtain ⟨c, u, hru, hc⟩ := head_of_run? h hr
    exact ⟨c, u, hru, hp c hc⟩

theorem settles_optionValue (h : v.dropWhile (fun c => !c.isSpace) ≠ []) : Settles optionValue? X v := by
  have hne : v ≠ [] := by
    rintro rfl
    exact h rfl
  obtain ⟨c, v, rfl⟩ := List.exists_cons_of_ne_nil hne
  have hrun : Settles (run? 1 fun c => !c.isSpace) X (c :: v) := settles_run h fun _ => isPayloadChar_of_not_word
  constructor
  · intro t ht
    rw [List.cons_append]
    unfold optionValue?
    rw [List.head?_cons, List.head?_cons]
    split
    · rfl
    · exact hrun.same t ht
  · intro r hr
    unfold optionValue? at hr
    split at hr
    · cases hr
    · exact hrun.ends r hr

/-- What is piped into a login ends before the border, or on the same line behind it. -/
theorem Border.piped_append {t : Text} (h : Border a t) (hv : v <:+ a) : piped? (v ++ t) =
    ((piped? v).map (· ++ t)).or (if v.all (fun c => c ≠ ('\n' : CodePoint)) then piped? t else none) := by
  have hsame : ∀ u, u <:+ v → u ≠ [] → registryPipe? (u ++ t) = (registryPipe? u).map (· ++ t) := fun u hu hne =>
    h.steady_registryPipe.same u ⟨hu.trans hv, hne⟩
  rw [piped?, piped?, piped?, seek?_append rfl hsame]
  cases seek? (fun c => decide (c ≠ ('\n' : CodePoint))) registryPipe? v with
  | some m => rfl
  | none => split <;> rfl

theorem settles_piped (hX : ∀ t, X t → Border a t) (hv : v <:+ a)
    (h : piped? v = none → v.all (fun c => c ≠ ('\n' : CodePoint)) = true → ∀ t, X t → piped? t = none) :
    Settles piped? X v where
  same t ht := by
    rw [(hX t ht).piped_append hv]
    cases hp : piped? v with
    | some r => rfl
    | none =>
      rw [Option.map_none, Option.none_or]
      split
      · next hall => exact h hp hall t ht
      · rfl
  ends r hr := by
    obtain ⟨⟨s, q⟩, hm, rfl⟩ := Option.map_eq_some_iff.1 hr
    exact ends_of_registryPipe? (seek?_eq_some hm).2

/-- A text that is empty or ends in white space. -/
def Pauses (a : Text) : Prop := ∀ e ∈ a.getLast?, e.isSpace = true

/-- Behind white space no run is open, unless it has not begun yet. -/
theorem Pauses.settled (ha : Pauses a) (hv : v <:+ a) (hne : v ≠ []) (hp : ∀ c, c.isSpace = true → p c = false) :
    v.dropWhile p ≠ [] := by
  have hlast : v.getLast? = some (v.getLast hne) := List.getLast?_eq_some_getLast hne
  have hspace : (v.getLast hne).isSpace = true := ha _ (by rw [← getLast?_of_suffix hv hne]; exact hlast)
  exact dropWhile_ne_nil_of_last hlast (hp _ hspace)

end Settles

section Local
variable {name way value : Text → Option Text} {gap : Text} {X P Q R : Text → Prop} {a s : Text} {b : Option CodePoint}

theorem opening_append {t : Text} (hn : Steady t P name Q) (hw : Steady t Q way R) (hs : P s) :
    opening name way (s ++ t) = (opening name way s).map fun m => (m.1 ++ t, m.2 ++ t) := by
  rw [opening, opening, hn.same s hs]
  cases hr : name s with
  | none => rfl
  | some n =>
    rw [Option.map_some, Option.bind_some, Option.bind_some, hw.same n (hn.rest s n hs hr)]
    cases way n <;> rfl

theorem local_opened (hread : Reads name) (hn : ∀ t, X t → Steady t P name Q) (hw : ∀ t, X t → Steady t Q way R)
    (hs : P s) (hv : ∀ n v, opening name way s = some (n, v) → Settles value X v) :
    Local (fun _ => opened name way value gap) b s X where
  here t ht := by
    rw [opened, opened, opening_append (hn t ht) (hw t ht) hs]
    cases hopen : opening name way s with
    | none => rfl
    | some m =>
      obtain ⟨n, v⟩ := m
      have hsuffix : n <:+ s := hread s n (opening_eq_some.1 hopen).1
      rw [Option.map_some, Option.bind_some, Option.bind_some, (hv n v hopen).same t ht, upTo_append_append hsuffix]
      cases value v <;> rfl
  ends m hm := by
    obtain ⟨n, v, hname, hway, hvalue, -⟩ := opened_eq_some.1 hm
    exact (hv n v (opening_eq_some.2 ⟨hname, hway⟩)).ends m.rest hvalue

theorem local_bounded {p : Text → Option Found} (hne : s ≠ []) (h : Local (fun _ => p) b s X) : Local (bounded p) b s X where
  here t ht := by
    rw [bounded, bounded, isBoundary_append b hne]
    split
    · exact h.here t ht
    · rfl
  ends m hm := h.ends m (Option.ite_none_right_eq_some.1 hm).2

variable (hX : ∀ t, X t → Border a t) (hs : Solid a s)
include hX hs

theorem local_pipedSecret (hv : ∀ n v, opening printer? space? s = some (n, v) → Settles piped? X v) :
    Local pipedSecret b s X := by
  rw [pipedSecret_eq]
  exact local_bounded hs.2 (local_opened consumes_printer.reads (fun t ht => (hX t ht).steady_printer)
    (fun t ht => (hX t ht).steady_space) hs hv)

theorem local_passwordOption
    (hv : ∀ n v, opening (optionName? "--password") optionWay? s = some (n, v) → Settles optionValue? X v) :
    Local passwordOption b s X := by
  rw [passwordOption_eq]
  exact local_opened (reads_optionName _) (fun t ht => (hX t ht).steady_optionName (by decide))
    (fun t ht => (hX t ht).steady_optionWay) hs hv

theorem local_namedSecret (hv : ∀ v, namedValue? s = some v → Settles (run? 1 isBareChar) X v) :
    Local namedSecret b s X := by
  rw [namedSecret_eq]
  refine local_opened (R := (· <:+ a)) consumes_namedValue.reads (fun t ht => (hX t ht).steady_namedValue)
    (fun t _ => ?_) hs ?_
  · exact ⟨fun _ _ => rfl, fun _ _ hs hr => Option.some.inj hr ▸ hs⟩
  · intro n v hopen
    obtain ⟨hname, hway⟩ := opening_eq_some.1 hopen
    cases hway
    exact hv n hname

theorem local_authorization (hv : ∀ n v, opening schemeName? space? s = some (n, v) → Settles (run? 8 isTokenChar) X v) :
    Local authorization b s X := by
  rw [authorization_eq]
  exact local_bounded hs.2 (local_opened consumes_schemeName.reads (fun t ht => (hX t ht).steady_schemeName)
    (fun t ht => (hX t ht).steady_space) hs hv)

/-- A login looks for an option in the rest of its command, which may go beyond the border. -/
theorem local_loginOption
    (hv : ∀ u n v, u <:+ a → opening (optionName? "-p") space? u = some (n, v) → Settles optionValue? X v)
    (hpass : ∀ after, loginWord? s = some after → after.all isCommandChar = true →
      ∀ t, X t → seek? isCommandChar shortOption? t = none) : Local loginOption b s X := by
  rw [loginOption_eq]
  refine local_bounded hs.2 ⟨fun t ht => ?_, fun m hm => ?_⟩
  · have h := hX t ht
    rw [openedLogin, openedLogin, h.steady_loginWord.same s hs.within]
    cases hlogin : loginWord? s with
    | none => rfl
    | some after =>
      have hafter : after <:+ a := (h.steady_loginWord.rest s after hs.within hlogin).1
      have hoption : ∀ u, u <:+ after → u ≠ [] →
          shortOption? (u ++ t) = (shortOption? u).map fun m => (m.1 ++ t, m.2 ++ t) := by
        intro u hu hne
        have hopen := opening_append (h.steady_optionName (w := "-p") (by decide)) h.steady_space
          (s := u) ⟨hu.trans hafter, hne⟩
        rw [shortOption?_eq, shortOption?_eq, hopen]
        cases hm : opening (optionName? "-p") space? u with
        | none => rfl
        | some m =>
          obtain ⟨n, v⟩ := m
          rw [Option.map_some, Option.bind_some, Option.bind_some, (hv u n v (hu.trans hafter) hm).same t ht]
          cases optionValue? v <;> rfl
      rw [Option.map_some, Option.bind_some, Option.bind_some, seek?_append rfl hoption]
      cases hseek : seek? isCommandChar shortOption? after with
      | some m =>
        obtain ⟨u, n, r⟩ := m
        have hn : n <:+ s := (suffix_of_seek hseek).1.trans (consumes_loginWord.reads s after hlogin)
        rw [Option.map_some, Option.some_or, Option.map_some, upTo_append_append hn]
        rfl
      | none =>
        rw [Option.map_none, Option.none_or]
        split
        · next hall =>
          rw [hpass after hlogin hall t ht]
          rfl
        · rfl
  · obtain ⟨after, u, n, hlogin, hseek, -⟩ := openedLogin_eq_some.1 hm
    obtain ⟨hu, hoption⟩ := seek?_eq_some hseek
    obtain ⟨v, hopen, hvalue⟩ := shortOption?_eq_some.1 hoption
    have hafter : after <:+ a := (consumes_loginWord.reads s after hlogin).trans hs.1
    exact (hv u n v (hu.trans hafter) hopen).ends m.rest hvalue

omit hX in
/-- A payload has no white space in it. -/
theorem local_encryptedPayload (ha : Pauses a) : Local encryptedPayload b s X := by
  obtain ⟨e, hend⟩ : ∃ e, a.getLast? = some e :=
    ⟨s.getLast hs.2, by rw [← getLast?_of_suffix hs.1 hs.2, List.getLast?_eq_some_getLast hs.2]⟩
  have he : e.isSpace = true := ha e hend
  have hlast : ∀ u, Solid a u → u.getLast? = some e := fun u hu => (getLast?_of_suffix hu.1 hu.2).trans hend
  have hsolid : ∀ u r, Solid a u → r <:+ u → r.getLast? = some e → Solid a r := by
    rintro u r hu hr hr'
    refine ⟨hr.trans hu.1, ?_⟩
    rintro rfl
    cases hr'
  have hrun : ∀ u, Solid a u → u.dropWhile isPayloadChar ≠ [] := fun u hu =>
    ha.settled hu.1 hu.2 fun _ => isPayloadChar_of_isSpace
  have hliteral : ∀ lead, e ∉ Text.ofString lead → ∀ t, Steady t (Solid a) (literal? lead) (Solid a) := fun lead h t =>
    ⟨fun u hu => literal?_append_of_last h (hlast u hu) t,
      fun u r hu hr => hsolid u r hu (suffix_literal? hr) (getLast?_of_literal? h (hlast u hu) hr)⟩
  have hfield : ∀ t, Steady t (Solid a) field? (Solid a) := fun t =>
    ⟨fun u hu => run?_append_of_ended (hrun u hu) 1 t, fun u r hu hr => by
      obtain ⟨c, w, rfl, -⟩ := head_of_run? (hrun u hu) hr
      exact ⟨(suffix_run? hr).trans hu.1, List.cons_ne_nil c w⟩⟩
  have hsigns : ∀ lead ∈ ["encrypted:", ":"], e ∉ Text.ofString lead := by
    have hnone : ∀ lead ∈ ["encrypted:", ":"], ∀ c ∈ Text.ofString lead, c.isSpace = false := by decide
    intro lead hlead hmem
    rw [hnone lead hlead e hmem] at he
    cases he
  have hlead := hliteral "encrypted:" (hsigns _ (by decide))
  have hcolon := hliteral ":" (hsigns _ (by decide))
  have hfields : ∀ t, Steady t (Solid a) (fun u => ((((literal? "encrypted:" u).bind field?).bind (literal? ":")).bind
      field?).bind (literal? ":")) (Solid a) := fun t =>
    ((((hlead t).bind (hfield t)).bind (hcolon t)).bind (hfield t)).bind (hcolon t)
  rw [encryptedPayload_eq]
  constructor
  · intro t _
    have hsame : payload? (s ++ t) = (payload? s).map (· ++ t) := ((hfields t).bind (hfield t)).same s hs
    rw [hsame, Option.map_map, Option.map_map]
    rfl
  · intro m hm
    obtain ⟨r, hr, rfl⟩ := Option.map_eq_some_iff.1 hm
    obtain ⟨q, hq, hr⟩ := Option.bind_eq_some_iff.1 hr
    exact head_of_run? (hrun q ((hfields []).rest s q hs hq)) hr

end Local

end Custody.Redaction
