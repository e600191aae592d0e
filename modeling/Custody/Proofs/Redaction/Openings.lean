import Custody.Proofs.Redaction.Masking

/-! Most rules read an opening, which says that a secret follows, and then a value, which is masked. -/
namespace Custody.Redaction

section Readers
variable {b : Option CodePoint} {n r s t u v : Text}

theorem upTo_append (u n : Text) : upTo (u ++ n) n = u := by
  rw [upTo, List.length_append, Nat.add_sub_cancel, List.take_left']
  rfl

theorem upTo_append_append (h : n <:+ s) (t : Text) : upTo (s ++ t) (n ++ t) = upTo s n := by
  obtain ⟨u, rfl⟩ := h
  rw [List.append_assoc, upTo_append, upTo_append]

theorem isBoundary_append (b : Option CodePoint) (hs : s ≠ []) (t : Text) : isBoundary b (s ++ t) = isBoundary b s := by
  obtain ⟨c, s, rfl⟩ := List.exists_cons_of_ne_nil hs
  rfl

/-- A name and the way from it to the value: what follows the name, and the value with all that follows it. -/
def opening (name way : Text → Option Text) (t : Text) : Option (Text × Text) :=
  (name t).bind fun n => (way n).map (n, ·)

def optionName? (w : String) : Text → Option Text
  | [] => none
  | c :: t => if c.isSpace then word? w.toList t else none

def optionWay? (n : Text) : Option Text := (space? n).or (literal? "=" n)

def loginWord? (t : Text) : Option Text := (word? "login".toList t).filter (isBoundary (some ('n' : CodePoint)))

def valueSign? : Text → Option Text
  | [] => none
  | c :: t => if c = ':' ∨ c = '=' then some t else none

/-- The name of a secret up to its value. -/
def namedValue? (t : Text) : Option Text :=
  ((secretName? t).bind fun n => valueSign? (skipSpace n)).map skipSpace

def schemeName? (t : Text) : Option Text := (word? "bearer".toList t).or (word? "basic".toList t)

/-- What a command prints, up to a pipe into a login on the same line. -/
def piped? (t : Text) : Option Text := (seek? (fun c => c ≠ ('\n' : CodePoint)) registryPipe? t).map Prod.fst

/-- A character that ends neither a command nor a line. -/
def isCommandChar (c : CodePoint) : Bool :=
  !(c = ('|' : CodePoint)) && !(c = (';' : CodePoint)) && !(c = ('&' : CodePoint)) && !(c = ('\n' : CodePoint))

/-- What a rule makes of an opening and the value behind it, with `gap` before the mark. -/
def opened (name way value : Text → Option Text) (gap t : Text) : Option Found :=
  (opening name way t).bind fun m => (value m.2).map fun rest => ⟨upTo t m.1 ++ gap ++ mark, rest⟩

/-- The same for the first short password option behind a login. -/
def openedLogin (t : Text) : Option Found :=
  (loginWord? t).bind fun after =>
    (seek? isCommandChar shortOption? after).map fun m => ⟨upTo t m.2.1 ++ " " ++ mark, m.2.2⟩

/-- A match must begin where a word begins or ends. -/
def bounded (p : Text → Option Found) : Pattern := fun b t => if isBoundary b t then p t else none

/-- A result that is made from what was read is the last step of the reading. -/
theorem map_eq_bind_some {α β : Type} (o : Option α) (f : α → β) : o.map f = o.bind fun x => some (f x) := by
  cases o <;> rfl

theorem printer?_eq (t : Text) : printer? t = (word? "echo".toList t).or
    (((word? "printf".toList t).bind space?).bind (word? "'%s\\n'".toList)) := by
  unfold printer?
  cases word? "echo".toList t with
  | some r => rfl
  | none => cases word? "printf".toList t <;> rfl

theorem registryPipe?_eq (t : Text) : registryPipe? t =
    ((((literal? "|" (skipSpace t)).map skipSpace).bind (word? "docker".toList)).bind space?).bind loginWord? := by
  unfold registryPipe? loginWord?
  cases literal? "|" (skipSpace t) with
  | none => rfl
  | some r =>
    simp only [Option.map_some, Option.bind_some, Option.bind_eq_bind, Option.bind_assoc]
    refine Option.bind_congr fun u _ => Option.bind_congr fun v _ => ?_
    cases word? "login".toList v <;> rfl

theorem pipedSecret_eq : pipedSecret = bounded (opened printer? space? piped? " ") := by
  funext b t
  unfold pipedSecret bounded opened opening piped?
  cases isBoundary b t <;> simp [map_eq_bind_some, Option.bind_assoc]

theorem passwordOption_eq : passwordOption = fun _ => opened (optionName? "--password") optionWay? optionValue? " " := by
  funext b t
  unfold passwordOption opened opening optionName? optionWay?
  generalize "--password".toList = letters
  cases t with
  | nil => rfl
  | cons c t => cases hc : c.isSpace <;> simp [hc, map_eq_bind_some, Option.bind_assoc]

theorem shortOption?_eq (t : Text) : shortOption? t =
    (opening (optionName? "-p") space? t).bind fun m => (optionValue? m.2).map (m.1, ·) := by
  unfold shortOption? opening optionName?
  cases t with
  | nil => rfl
  | cons c t => cases hc : c.isSpace <;> simp [hc, map_eq_bind_some, Option.bind_assoc]

theorem loginOption_eq : loginOption = bounded openedLogin := by
  funext b t
  unfold loginOption bounded openedLogin loginWord?
  cases isBoundary b t
  · rfl
  cases word? "login".toList t with
  | none => rfl
  | some after =>
    cases hb : isBoundary (some ('n' : CodePoint)) after
    · simp [Option.filter, hb]
    · simp [Option.filter, hb, map_eq_bind_some]
      rfl

theorem namedSecret_eq : namedSecret = fun _ => opened namedValue? some (run? 1 isBareChar) [] := by
  funext b t
  unfold namedSecret opened opening namedValue?
  cases secretName? t with
  | none => rfl
  | some name =>
    simp only [Option.bind_eq_bind, Option.bind_some]
    unfold valueSign?
    cases skipSpace name with
    | nil => rfl
    | cons c after => by_cases hc : c = ':' ∨ c = '=' <;> simp [hc, map_eq_bind_some]

theorem authorization_eq : authorization = bounded (opened schemeName? space? (run? 8 isTokenChar) " ") := by
  funext b t
  unfold authorization bounded opened opening schemeName?
  cases isBoundary b t <;> simp [map_eq_bind_some, Option.bind_assoc]

def nameReaders : List (Text → Option Text) :=
  [joined? "api" "key", word? "secret".toList, word? "password".toList, word? "passwd".toList,
    word? "passphrase".toList, joined? "master" "key", word? "token".toList]

theorem secretName?_eq (t : Text) : secretName? t = nameReaders.findSome? fun f => f t := by
  simp only [secretName?, nameReaders, List.findSome?_cons, List.findSome?_nil]
  cases joined? "api" "key" t <;> cases word? "secret".toList t <;> cases word? "password".toList t <;>
    cases word? "passwd".toList t <;> cases word? "passphrase".toList t <;> cases joined? "master" "key" t <;>
    cases word? "token".toList t <;> rfl

end Readers

/-- A reader leaves an end of what it is given. -/
def Reads (f : Text → Option Text) : Prop := ∀ t r, f t = some r → r <:+ t

/-- A reader takes something other than white space. -/
def Consumes (f : Text → Option Text) : Prop := ∀ t r, f t = some r → ∃ u, t = u ++ r ∧ ∃ c ∈ u, c.isSpace = false

/-- A letter that does not stand for white space. -/
def Shows (l : Char) : Prop := l.isLower = true ∨ CodePoint.isSpace l = false

instance (l : Char) : Decidable (Shows l) := inferInstanceAs (Decidable (_ ∨ _))

def Visible (letters : List Char) : Prop := ∃ l ∈ letters, Shows l

instance (letters : List Char) : Decidable (Visible letters) := List.decidableBEx Shows letters

section Reading
variable {f g : Text → Option Text} {name way value : Text → Option Text} {gap n r s t u v : Text} {m : Found}
  {c : CodePoint}

theorem Reads.bind (hf : Reads f) (hg : Reads g) : Reads fun t => (f t).bind g := by
  intro t r h
  obtain ⟨s, hs, hr⟩ := Option.bind_eq_some_iff.1 h
  exact (hg s r hr).trans (hf t s hs)

theorem Reads.or (hf : Reads f) (hg : Reads g) : Reads fun t => (f t).or (g t) := by
  intro t r h
  rcases Option.or_eq_some_iff.1 h with h | ⟨-, h⟩
  · exact hf t r h
  · exact hg t r h

theorem consumes_of_suffix (h : t = u ++ s) (hu : ∃ c ∈ u, c.isSpace = false) (hr : r <:+ s) :
    ∃ u, t = u ++ r ∧ ∃ c ∈ u, c.isSpace = false := by
  obtain ⟨w, rfl⟩ := hr
  obtain ⟨c, hmem, hc⟩ := hu
  exact ⟨u ++ w, by rw [h, List.append_assoc], c, List.mem_append_left w hmem, hc⟩

theorem Consumes.bind (hf : Consumes f) (hg : Reads g) : Consumes fun t => (f t).bind g := by
  intro t r h
  obtain ⟨s, hs, hr⟩ := Option.bind_eq_some_iff.1 h
  obtain ⟨u, ht, hu⟩ := hf t s hs
  exact consumes_of_suffix ht hu (hg s r hr)

theorem Consumes.or (hf : Consumes f) (hg : Consumes g) : Consumes fun t => (f t).or (g t) := by
  intro t r h
  rcases Option.or_eq_some_iff.1 h with h | ⟨-, h⟩
  · exact hf t r h
  · exact hg t r h

theorem Consumes.reads (h : Consumes f) : Reads f := by
  intro t r hr
  obtain ⟨u, rfl, -⟩ := h t r hr
  exact List.suffix_append u r

theorem Consumes.exists_cons (h : Consumes f) (hr : f t = some r) : ∃ c u, t = c :: u ++ r := by
  obtain ⟨u, rfl, c, hmem, -⟩ := h t r hr
  obtain ⟨d, u, rfl⟩ := List.exists_cons_of_ne_nil (List.ne_nil_of_mem hmem)
  exact ⟨d, u, rfl⟩

theorem reads_word (letters : List Char) : Reads (word? letters) := fun _ _ => suffix_word?

theorem reads_space : Reads space? := fun _ _ => suffix_space?

theorem suffix_skipSpace (t : Text) : skipSpace t <:+ t := List.dropWhile_suffix _

theorem suffix_skipJoint (t : Text) : skipJoint t <:+ t := by
  cases t with
  | nil => exact List.suffix_refl _
  | cons c t =>
    unfold skipJoint
    dsimp only
    split
    · exact List.suffix_cons c t
    · exact List.suffix_refl _

theorem isSpace_of_fits {l : Char} (hl : Shows l) (h : Fits l c) : c.isSpace = false := by
  by_cases hlower : l.isLower = true
  · rw [Fits, if_pos hlower] at h
    have hrange : (decide (l.val ≥ 'a'.val) && decide (l.val ≤ 'z'.val)) = true := hlower
    simp only [Bool.and_eq_true, decide_eq_true_eq, UInt32.le_iff_toNat_le] at hrange
    have hlow : 0x61 ≤ l.toNat := hrange.1
    have hhigh : l.toNat ≤ 0x7A := hrange.2
    simp only [CodePoint.isLetter, Bool.or_eq_true, Bool.and_eq_true, beq_iff_eq] at h
    simp only [CodePoint.isSpace, Bool.or_eq_false_iff, Bool.and_eq_false_iff, decide_eq_false_iff_not, beq_eq_false_iff_ne]
    omega
  · rw [Fits, if_neg hlower, decide_eq_true_eq] at h
    exact h ▸ hl.resolve_left hlower

theorem consumes_word {letters : List Char} (h : Visible letters) : Consumes (word? letters) := by
  intro t r hr
  obtain ⟨u, hu, rfl⟩ := word?_eq_some.1 hr
  refine ⟨u, rfl, ?_⟩
  clear hr
  induction hu with
  | nil =>
    obtain ⟨l, hmem, -⟩ := h
    cases hmem
  | @cons l c letters u hfirst _ ih =>
    obtain ⟨m, hmem, hm⟩ := h
    rcases List.mem_cons.1 hmem with rfl | hmem
    · exact ⟨c, List.mem_cons_self, isSpace_of_fits hm hfirst⟩
    · obtain ⟨d, hd, hspace⟩ := ih ⟨m, hmem, hm⟩
      exact ⟨d, List.mem_cons_of_mem c hd, hspace⟩

theorem consumes_joined {first second : String} (h : Visible first.toList) : Consumes (joined? first second) :=
  (consumes_word h).bind fun s _ hr => (suffix_word? hr).trans (suffix_skipJoint s)

theorem consumes_secretName : Consumes secretName? := by
  have hall : ∀ f ∈ nameReaders, Consumes f := by
    intro f hf
    simp only [nameReaders, List.mem_cons, List.not_mem_nil, or_false] at hf
    rcases hf with rfl | rfl | rfl | rfl | rfl | rfl | rfl
    · exact consumes_joined (by decide)
    · exact consumes_word (by decide)
    · exact consumes_word (by decide)
    · exact consumes_word (by decide)
    · exact consumes_word (by decide)
    · exact consumes_joined (by decide)
    · exact consumes_word (by decide)
  intro t r hr
  rw [secretName?_eq] at hr
  obtain ⟨f, hf, hr⟩ := List.exists_of_findSome?_eq_some hr
  exact hall f hf t r hr

theorem consumes_printer : Consumes printer? := by
  have hprintf : Consumes fun t => ((word? "printf".toList t).bind space?).bind (word? "'%s\\n'".toList) :=
    ((consumes_word (by decide)).bind reads_space).bind (reads_word _)
  intro t r hr
  rw [printer?_eq] at hr
  exact (consumes_word (by decide)).or hprintf t r hr

theorem consumes_optionName {w : String} (hw : Visible w.toList) : Consumes (optionName? w) := by
  intro t r h
  cases t with
  | nil => cases h
  | cons c t =>
    obtain ⟨-, h⟩ := Option.ite_none_right_eq_some.1 h
    obtain ⟨u, rfl, d, hd, hspace⟩ := consumes_word hw t r h
    exact ⟨c :: u, rfl, d, List.mem_cons_of_mem c hd, hspace⟩

theorem reads_optionName (w : String) : Reads (optionName? w) := by
  intro t r h
  cases t with
  | nil => cases h
  | cons c t =>
    obtain ⟨-, h⟩ := Option.ite_none_right_eq_some.1 h
    exact (suffix_word? h).trans (List.suffix_cons c t)

theorem reads_valueSign : Reads valueSign? := by
  intro t r h
  cases t with
  | nil => cases h
  | cons c t =>
    obtain ⟨-, h⟩ := Option.ite_none_right_eq_some.1 h
    cases h
    exact List.suffix_cons c _

theorem consumes_namedValue : Consumes namedValue? := by
  intro t r h
  obtain ⟨s, hs, rfl⟩ := Option.map_eq_some_iff.1 h
  have hsign : Reads fun n => valueSign? (skipSpace n) := fun n r hr =>
    (reads_valueSign _ r hr).trans (suffix_skipSpace n)
  obtain ⟨u, ht, hu⟩ := consumes_secretName.bind hsign t s hs
  exact consumes_of_suffix ht hu (suffix_skipSpace s)

theorem consumes_schemeName : Consumes schemeName? := (consumes_word (by decide)).or (consumes_word (by decide))

theorem reads_optionWay : Reads optionWay? := reads_space.or fun _ _ => suffix_literal?

theorem reads_piped : Reads piped? := by
  intro t r h
  obtain ⟨m, hm, rfl⟩ := Option.map_eq_some_iff.1 h
  exact (seek?_eq_some hm).1

theorem reads_optionValue : Reads optionValue? := by
  intro t r h
  unfold optionValue? at h
  split at h
  · cases h
  · exact suffix_run? h

theorem opening_eq_some : opening name way t = some (n, v) ↔ name t = some n ∧ way n = some v := by
  rw [opening, Option.bind_eq_some_iff]
  constructor
  · rintro ⟨n', hn, h⟩
    obtain ⟨v', hv, heq⟩ := Option.map_eq_some_iff.1 h
    cases heq
    exact ⟨hn, hv⟩
  · rintro ⟨hn, hv⟩
    exact ⟨n, hn, by rw [hv]; rfl⟩

theorem opened_eq_some : opened name way value gap t = some m ↔ ∃ n v, name t = some n ∧ way n = some v ∧
    value v = some m.rest ∧ m.output = upTo t n ++ gap ++ mark := by
  rw [opened, Option.bind_eq_some_iff]
  constructor
  · rintro ⟨⟨n, v⟩, hopen, h⟩
    obtain ⟨rest, hrest, rfl⟩ := Option.map_eq_some_iff.1 h
    obtain ⟨hn, hv⟩ := opening_eq_some.1 hopen
    exact ⟨n, v, hn, hv, hrest, rfl⟩
  · rintro ⟨n, v, hn, hv, hrest, hout⟩
    refine ⟨(n, v), opening_eq_some.2 ⟨hn, hv⟩, ?_⟩
    rw [hrest, Option.map_some, ← hout]

theorem isRule_opened (hn : Consumes name) (hw : Reads way) (hv : Reads value) (hgap : gap = [] ∨ gap = " ") :
    IsRule fun _ => opened name way value gap where
  reads h := by
    obtain ⟨n, v, hname, hway, hvalue, -⟩ := opened_eq_some.1 h
    obtain ⟨c, u, ht⟩ := hn.exists_cons hname
    obtain ⟨w, hrest⟩ := (hv v _ hvalue).trans (hw n v hway)
    exact ⟨c, u ++ w, by rw [ht, ← hrest, ← List.append_assoc, List.cons_append]⟩
  marks h := by
    obtain ⟨n, v, hname, -, -, hm⟩ := opened_eq_some.1 h
    obtain ⟨u, rfl, -⟩ := hn _ n hname
    exact ⟨u, gap, by rw [hm, upTo_append], List.prefix_append u n, hgap⟩
  blind _ _ := rfl

theorem keepsStart_opened (hn : Consumes name) : KeepsStart fun _ => opened name way value gap := by
  intro b t m h
  obtain ⟨n, v, hname, -, -, hm⟩ := opened_eq_some.1 h
  obtain ⟨u, rfl, hu⟩ := hn t n hname
  refine ⟨u, gap ++ mark, ?_, List.prefix_append u n, hu⟩
  rw [hm, upTo_append, List.append_assoc]

theorem isRule_bounded {p : Text → Option Found} (h : IsRule fun _ => p) : IsRule (bounded p) where
  reads hm := h.reads (b := none) (Option.ite_none_right_eq_some.1 hm).2
  marks hm := h.marks (b := none) (Option.ite_none_right_eq_some.1 hm).2
  blind t hb := by rw [bounded, bounded, isBoundary, isBoundary, hb]

theorem keepsStart_bounded {p : Text → Option Found} (h : KeepsStart fun _ => p) : KeepsStart (bounded p) :=
  fun _ t m hm => h none t m (Option.ite_none_right_eq_some.1 hm).2

end Reading

end Custody.Redaction
