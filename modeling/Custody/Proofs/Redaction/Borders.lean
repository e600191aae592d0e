import Custody.Proofs.Redaction.Openings

/-! Borders in a text that openings do not cross. -/
namespace Custody.Redaction

/-- The words of the rules. -/
def words : List String :=
  ["docker", "login", "echo", "printf", "'%s\\n'", "--password", "-p", "api", "key", "secret", "password", "passwd",
    "passphrase", "master", "token", "bearer", "basic"]

def innerWords : List String := ["docker", "login", "'%s\\n'", "--password", "-p"]

def Edge (e : CodePoint) : Prop := e = ' ' ∨ e = '\n' ∨ e = '='

theorem Edge.unfit {e : CodePoint} (h : Edge e) {w : String} (hw : w ∈ words) : Unfit w.toList e := by
  revert w
  rcases h with rfl | rfl | rfl <;> decide

/-- Nothing that is read as one, apart from a value, begins in `a` and ends in `t`. -/
structure Border (a t : Text) : Prop where
  edge : ∀ e ∈ a.getLast?, Edge e
  starts : Starts t
  signs : ∀ c ∈ t.head?, c ≠ '|' ∧ c ≠ ':' ∧ c ≠ '='
  inner : (∃ e ∈ a.getLast?, e.isSpace = true) → ∀ w ∈ innerWords, word? w.toList t = none

/-- An end of `a` with something in it. -/
def Solid (a s : Text) : Prop := s <:+ a ∧ s ≠ []

/-- An end of `a` that is empty only behind white space. -/
def Within (a s : Text) : Prop := s <:+ a ∧ (s = [] → ∃ e ∈ a.getLast?, e.isSpace = true)

/-- A reader reads the ends of a text for which `P` holds in the same way when `t` is behind them, and leaves ends for
which `Q` holds. -/
structure Steady (t : Text) (P : Text → Prop) (f : Text → Option Text) (Q : Text → Prop) : Prop where
  same : ∀ s, P s → f (s ++ t) = (f s).map (· ++ t)
  rest : ∀ s r, P s → f s = some r → Q r

section Ends
variable {a r s : Text} {c : CodePoint}

theorem getLast?_of_suffix (hs : s <:+ a) (hne : s ≠ []) : s.getLast? = a.getLast? := by
  obtain ⟨u, rfl⟩ := hs
  obtain ⟨c, s, rfl⟩ := List.exists_cons_of_ne_nil hne
  rw [List.getLast?_append, List.getLast?_cons]
  rfl

theorem Solid.within (h : Solid a s) : Within a s := ⟨h.1, fun hnil => absurd hnil h.2⟩

theorem Solid.skipSpace (h : Solid a s) : Within a (skipSpace s) := by
  refine ⟨(suffix_skipSpace s).trans h.1, fun hnil => ?_⟩
  have hall := List.dropWhile_eq_nil_iff.1 hnil
  rw [← getLast?_of_suffix h.1 h.2, List.getLast?_eq_some_getLast h.2]
  exact ⟨_, rfl, hall _ (List.getLast_mem h.2)⟩

theorem within_tail (hs : c :: s <:+ a) (hc : c.isSpace = true) : Within a s := by
  refine ⟨(List.suffix_cons c s).trans hs, fun hnil => ⟨c, ?_, hc⟩⟩
  rw [← getLast?_of_suffix hs (List.cons_ne_nil c s), hnil]
  rfl

theorem within_space? (hs : s <:+ a) (h : space? s = some r) : Within a r := by
  cases s with
  | nil => cases h
  | cons c s =>
    obtain ⟨hc, h⟩ := Option.ite_none_right_eq_some.1 h
    cases h
    by_cases hne : s = []
    · subst hne
      exact within_tail hs hc
    · exact Solid.skipSpace ⟨(List.suffix_cons c s).trans hs, hne⟩

end Ends

namespace Steady
variable {a t : Text} {f g : Text → Option Text} {P Q R : Text → Prop}

theorem bind (hf : Steady t P f Q) (hg : Steady t Q g R) : Steady t P (fun s => (f s).bind g) R where
  same s hs := by
    rw [hf.same s hs]
    cases hr : f s with
    | none => rfl
    | some r => exact hg.same r (hf.rest s r hs hr)
  rest s r hs h := by
    obtain ⟨q, hq, hr⟩ := Option.bind_eq_some_iff.1 h
    exact hg.rest q r (hf.rest s q hs hq) hr

theorem or (hf : Steady t P f Q) (hg : Steady t P g Q) : Steady t P (fun s => (f s).or (g s)) Q where
  same s hs := by
    rw [hf.same s hs, hg.same s hs]
    cases f s <;> rfl
  rest s r hs h := by
    rcases Option.or_eq_some_iff.1 h with h | ⟨-, h⟩
    · exact hf.rest s r hs h
    · exact hg.rest s r hs h

theorem skipBefore (ht : Starts t) (hf : Steady t (Within a) f Q) : Steady t (Solid a) (fun s => f (skipSpace s)) Q where
  same s hs := by
    rw [skipSpace_append ht]
    exact hf.same _ hs.skipSpace
  rest s r hs h := hf.rest _ r hs.skipSpace h

theorem skipAfter (ht : Starts t) (hf : Steady t P f (Solid a)) :
    Steady t P (fun s => (f s).map skipSpace) (Within a) where
  same s hs := by
    rw [hf.same s hs, Option.map_map, Option.map_map]
    exact Option.map_congr fun r _ => skipSpace_append ht r
  rest s r hs h := by
    obtain ⟨q, hq, rfl⟩ := Option.map_eq_some_iff.1 h
    exact (hf.rest s q hs hq).skipSpace

end Steady

theorem literal?_cons {lead : String} {c d : CodePoint} (hd : Text.ofString lead = [d]) (s : Text) :
    literal? lead (c :: s) = if d = c then some s else none := by
  rw [literal?, hd]
  unfold Text.dropPrefix?
  split
  · cases s <;> rfl
  · rfl

namespace Border
variable {a r s t : Text} {w : String}

theorem steady_word (h : Border a t) (hw : w ∈ words) : Steady t (Solid a) (word? w.toList) (Solid a) where
  same s hs := by
    obtain ⟨u, e, rfl⟩ : ∃ u e, s = u ++ [e] := ⟨_, _, (List.dropLast_append_getLast hs.2).symm⟩
    have he : e ∈ a.getLast? := by
      rw [← getLast?_of_suffix hs.1 hs.2]
      exact List.getLast?_concat
    exact word?_append_of_last ((h.edge e he).unfit hw) u t
  rest s r hs hr := by
    -- The last character before the border is left, since it fits no letter.
    obtain ⟨u, e, rfl⟩ : ∃ u e, s = u ++ [e] := ⟨_, _, (List.dropLast_append_getLast hs.2).symm⟩
    have he : e ∈ a.getLast? := by
      rw [← getLast?_of_suffix hs.1 hs.2]
      exact List.getLast?_concat
    have hlast := getLast?_of_word? ((h.edge e he).unfit hw) List.getLast?_concat hr
    refine ⟨(suffix_word? hr).trans hs.1, ?_⟩
    rintro rfl
    cases hlast

theorem steady_inner (h : Border a t) (hw : w ∈ innerWords) : Steady t (Within a) (word? w.toList) (Solid a) := by
  have hsub : ∀ w ∈ innerWords, w ∈ words ∧ word? w.toList [] = none := by decide
  have hword := h.steady_word (hsub w hw).1
  constructor
  · intro s hs
    by_cases hne : s = []
    · subst hne
      rw [List.nil_append, h.inner (hs.2 rfl) w hw, (hsub w hw).2]
      rfl
    · exact hword.same s ⟨hs.1, hne⟩
  · intro s r hs hr
    by_cases hne : s = []
    · subst hne
      rw [(hsub w hw).2] at hr
      cases hr
    · exact hword.rest s r ⟨hs.1, hne⟩ hr

theorem steady_space (h : Border a t) : Steady t (Solid a) space? (Within a) where
  same s _ := space?_append h.starts s
  rest _ _ hs hr := within_space? hs.1 hr

theorem steady_pipe (h : Border a t) : Steady t (Within a) (literal? "|") (Solid a) where
  same s hs := by
    cases s with
    | nil =>
      cases t with
      | nil => rfl
      | cons c t =>
        rw [List.nil_append, literal?_cons (d := '|') rfl, if_neg (h.signs c rfl).1.symm]
        rfl
    | cons c s =>
      rw [List.cons_append, literal?_cons (d := '|') rfl, literal?_cons (d := '|') rfl]
      split <;> rfl
  rest s r hs hr := by
    cases s with
    | nil => cases hr
    | cons c s =>
      rw [literal?_cons (d := '|') rfl, Option.ite_none_right_eq_some, Option.some.injEq] at hr
      obtain ⟨rfl, rfl⟩ := hr
      refine ⟨(List.suffix_cons _ s).trans hs.1, ?_⟩
      rintro rfl
      have hlast := getLast?_of_suffix hs.1 (List.cons_ne_nil _ _)
      rcases h.edge _ hlast.symm with he | he | he <;> cases he

theorem steady_loginWord (h : Border a t) : Steady t (Within a) loginWord? (Solid a) := by
  have hword := h.steady_inner (w := "login") (by decide)
  constructor
  · intro s hs
    rw [loginWord?, loginWord?, hword.same s hs]
    cases hr : word? "login".toList s with
    | none => rfl
    | some r =>
      rw [Option.map_some, Option.filter_some, Option.filter_some, isBoundary_append _ (hword.rest s r hs hr).2]
      split <;> rfl
  · intro s r hs hr
    exact hword.rest s r hs (Option.filter_eq_some_iff.1 hr).1

theorem steady_registryPipe (h : Border a t) : Steady t (Solid a) registryPipe? (Solid a) := by
  have hpipe := (h.steady_pipe.skipBefore h.starts).skipAfter h.starts
  have hdocker := (hpipe.bind (h.steady_inner (w := "docker") (by decide))).bind h.steady_space
  rw [show registryPipe? = _ from funext registryPipe?_eq]
  exact hdocker.bind h.steady_loginWord

theorem steady_printer (h : Border a t) : Steady t (Solid a) printer? (Solid a) := by
  have hprintf := ((h.steady_word (w := "printf") (by decide)).bind h.steady_space).bind
    (h.steady_inner (w := "'%s\\n'") (by decide))
  rw [show printer? = _ from funext printer?_eq]
  exact (h.steady_word (w := "echo") (by decide)).or hprintf

theorem steady_optionName (h : Border a t) (hw : w ∈ innerWords) :
    Steady t (Solid a) (optionName? w) (Solid a) := by
  have hword := h.steady_inner hw
  constructor
  · intro s hs
    obtain ⟨c, s, rfl⟩ := List.exists_cons_of_ne_nil hs.2
    rw [List.cons_append]
    unfold optionName?
    dsimp only
    split
    · next hc => exact hword.same s (within_tail hs.1 hc)
    · rfl
  · intro s r hs hr
    obtain ⟨c, s, rfl⟩ := List.exists_cons_of_ne_nil hs.2
    obtain ⟨hc, hr⟩ := Option.ite_none_right_eq_some.1 hr
    exact hword.rest s r (within_tail hs.1 hc) hr

theorem steady_optionWay (h : Border a t) : Steady t (Solid a) optionWay? (· <:+ a) := by
  have hspace : Steady t (Solid a) space? (· <:+ a) := ⟨h.steady_space.same, fun s r hs hr => (suffix_space? hr).trans hs.1⟩
  refine hspace.or ⟨fun s hs => ?_, fun s r hs hr => (suffix_literal? hr).trans hs.1⟩
  obtain ⟨c, s, rfl⟩ := List.exists_cons_of_ne_nil hs.2
  rw [List.cons_append, literal?_cons (d := '=') rfl, literal?_cons (d := '=') rfl]
  split <;> rfl

theorem steady_schemeName (h : Border a t) : Steady t (Solid a) schemeName? (Solid a) :=
  (h.steady_word (w := "bearer") (by decide)).or (h.steady_word (w := "basic") (by decide))

theorem steady_joined {first second : String} (h : Border a t) (hfirst : first ∈ words) (hsecond : second ∈ words) :
    Steady t (Solid a) (joined? first second) (Solid a) := by
  have hjoint : Steady t (Solid a) (fun s => word? second.toList (skipJoint s)) (Solid a) := by
    have hskip : ∀ s, Solid a s → Solid a (skipJoint s) ∧ skipJoint (s ++ t) = skipJoint s ++ t := by
      intro s hs
      obtain ⟨c, s, rfl⟩ := List.exists_cons_of_ne_nil hs.2
      rw [List.cons_append]
      unfold skipJoint
      dsimp only
      split
      · next hc =>
        refine ⟨⟨(List.suffix_cons c s).trans hs.1, ?_⟩, rfl⟩
        rintro rfl
        have hlast := getLast?_of_suffix hs.1 (List.cons_ne_nil _ _)
        rcases h.edge _ hlast.symm with rfl | rfl | rfl <;> rcases hc with hc | hc <;> cases hc
      · exact ⟨hs, rfl⟩
    constructor
    · intro s hs
      rw [(hskip s hs).2]
      exact (h.steady_word hsecond).same _ (hskip s hs).1
    · intro s r hs hr
      exact (h.steady_word hsecond).rest _ r (hskip s hs).1 hr
  exact (h.steady_word hfirst).bind hjoint

theorem steady_secretName (h : Border a t) : Steady t (Solid a) secretName? (Solid a) := by
  have hall : ∀ f ∈ nameReaders, Steady t (Solid a) f (Solid a) := by
    intro f hf
    simp only [nameReaders, List.mem_cons, List.not_mem_nil, or_false] at hf
    rcases hf with rfl | rfl | rfl | rfl | rfl | rfl | rfl
    · exact h.steady_joined (by decide) (by decide)
    · exact h.steady_word (by decide)
    · exact h.steady_word (by decide)
    · exact h.steady_word (by decide)
    · exact h.steady_word (by decide)
    · exact h.steady_joined (by decide) (by decide)
    · exact h.steady_word (by decide)
  rw [show secretName? = _ from funext secretName?_eq]
  generalize nameReaders = readers at hall
  induction readers with
  | nil => exact ⟨fun _ _ => rfl, fun _ _ _ hr => by cases hr⟩
  | cons f readers ih =>
    have hrest := ih fun g hg => hall g (List.mem_cons_of_mem _ hg)
    have hor : (fun s => List.findSome? (fun f => f s) (f :: readers)) =
        fun s : Text => (f s).or (readers.findSome? fun f => f s) := by
      funext s
      rw [List.findSome?_cons]
      cases f s <;> rfl
    rw [hor]
    exact (hall f List.mem_cons_self).or hrest

theorem steady_valueSign (h : Border a t) : Steady t (Within a) valueSign? (· <:+ a) where
  same s hs := by
    cases s with
    | nil =>
      cases t with
      | nil => rfl
      | cons c t => exact if_neg fun hc => hc.elim (h.signs c rfl).2.1 (h.signs c rfl).2.2
    | cons c s =>
      rw [List.cons_append]
      unfold valueSign?
      dsimp only
      split <;> rfl
  rest s r hs hr := (reads_valueSign s r hr).trans hs.1

theorem steady_namedValue (h : Border a t) : Steady t (Solid a) namedValue? (· <:+ a) := by
  have hsign := h.steady_secretName.bind (h.steady_valueSign.skipBefore h.starts)
  constructor
  · intro s hs
    rw [namedValue?, namedValue?, hsign.same s hs, Option.map_map, Option.map_map]
    exact Option.map_congr fun r _ => skipSpace_append h.starts r
  · intro s r hs hr
    obtain ⟨q, hq, rfl⟩ := Option.map_eq_some_iff.1 hr
    exact (suffix_skipSpace q).trans (hsign.rest s q hs hq)

end Border

section Blocks
variable {s t : Text} {w first second : String}

/-- A text into which no word goes on: it is empty, or it begins with a space or a line feed. -/
def Blocks (t : Text) : Prop := ∀ c ∈ t.head?, c = ' ' ∨ c = '\n'

theorem Blocks.of_sameStart {t' : Text} (h : Blocks t) (hstart : SameStart t t') : Blocks t' := by
  rw [Blocks, hstart.1]
  exact h

theorem Blocks.edge (h : Blocks t) {c : CodePoint} (hc : c ∈ t.head?) : Edge c := (h c hc).imp_right Or.inl

theorem Blocks.word?_append (h : Blocks t) (hw : w ∈ words) (s : Text) :
    word? w.toList (s ++ t) = (word? w.toList s).map (· ++ t) := by
  cases t with
  | nil => simp
  | cons c t => exact word?_append_of_head ((h.edge rfl).unfit hw) s t

theorem Blocks.joined?_append (h : Blocks t) (hfirst : first ∈ words) (hsecond : second ∈ words) (s : Text) :
    joined? first second (s ++ t) = (joined? first second s).map (· ++ t) := by
  have hbind : ∀ s, joined? first second s = (word? first.toList s).bind fun r => word? second.toList (skipJoint r) :=
    fun _ => rfl
  rw [hbind, hbind, h.word?_append hfirst]
  cases word? first.toList s with
  | none => rfl
  | some r =>
    rw [Option.map_some, Option.bind_some, Option.bind_some]
    have hjoint : skipJoint (r ++ t) = skipJoint r ++ t := by
      cases r with
      | nil =>
        cases t with
        | nil => rfl
        | cons c t =>
          refine if_neg fun hc => ?_
          rcases h c rfl with rfl | rfl <;> rcases hc with hc | hc <;> cases hc
      | cons c r =>
        rw [List.cons_append]
        unfold skipJoint
        dsimp only
        split <;> rfl
    rw [hjoint, h.word?_append hsecond]

theorem Blocks.secretName?_append (h : Blocks t) (s : Text) :
    secretName? (s ++ t) = (secretName? s).map (· ++ t) := by
  have hall : ∀ f ∈ nameReaders, f (s ++ t) = (f s).map (· ++ t) := by
    intro f hf
    simp only [nameReaders, List.mem_cons, List.not_mem_nil, or_false] at hf
    rcases hf with rfl | rfl | rfl | rfl | rfl | rfl | rfl
    · exact h.joined?_append (by decide) (by decide) s
    · exact h.word?_append (by decide) s
    · exact h.word?_append (by decide) s
    · exact h.word?_append (by decide) s
    · exact h.word?_append (by decide) s
    · exact h.joined?_append (by decide) (by decide) s
    · exact h.word?_append (by decide) s
  rw [secretName?_eq, secretName?_eq]
  generalize nameReaders = readers at hall
  induction readers with
  | nil => rfl
  | cons f readers ih =>
    have hrest := ih fun g hg => hall g (List.mem_cons_of_mem f hg)
    rw [List.findSome?_cons, List.findSome?_cons, hall f List.mem_cons_self]
    cases f s with
    | none => exact hrest
    | some r => rfl

end Blocks

end Custody.Redaction
