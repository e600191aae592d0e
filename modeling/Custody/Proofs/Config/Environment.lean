import Custody.Config.Load
import Custody.Proofs.Config.Section
import Custody.Proofs.Text.Splitting

/-! What the environment says about a section: the variables that name the section and a field are gathered in a record,
and each field is found in it under its own name. -/
namespace Custody.Config
open Value (lookup_append lookup_insertField mem_map_fst_insertField nodup_insertField)

section Lowered
variable (env : List (Text × Text))

theorem nodup_lowered : ((lowered env).map Prod.fst).Nodup := by
  apply Value.nodup_setAll
  exact List.nodup_nil

theorem settled_lowered {k : Text} (h : k ∈ (lowered env).map Prod.fst) : Text.Settled k := by
  have hmem : k ∈ (Value.setAll [] (env.map fun e => (e.1.lower, e.2))).map Prod.fst := h
  rw [Value.mem_map_fst_setAll, List.map_map] at hmem
  rcases hmem with hmem | hmem
  · cases hmem
  · obtain ⟨e, -, rfl⟩ := List.mem_map.1 hmem
    exact Text.settled_lower e.1

end Lowered

section Names

theorem nestedNames_ne_nil (t : Text) : nestedNames t ≠ [] := by
  unfold nestedNames
  split
  · nofun
  · nofun
  · split
    · nofun
    · split <;> nofun

/-- The names in a text are made of what is in the text. -/
theorem mem_of_mem_nestedNames {t n : Text} (hn : n ∈ nestedNames t) {c : CodePoint} (hc : c ∈ n) : c ∈ t := by
  induction t using nestedNames.induct generalizing n with
  | case1 =>
    rw [nestedNames, List.mem_singleton] at hn
    rwa [hn] at hc
  | case2 d =>
    rw [nestedNames, List.mem_singleton] at hn
    rwa [hn] at hc
  | case3 d e rest hbar ih =>
    rw [nestedNames, if_pos hbar] at hn
    rcases List.mem_cons.1 hn with rfl | hn
    · cases hc
    · exact List.mem_cons_of_mem _ (List.mem_cons_of_mem _ (ih hn hc))
  | case4 d e rest hbar name more hnames ih =>
    rw [nestedNames, if_neg hbar, hnames] at hn
    rw [hnames] at ih
    rcases List.mem_cons.1 hn with rfl | hn
    · rcases List.mem_cons.1 hc with rfl | hc
      · exact List.mem_cons_self
      · exact List.mem_cons_of_mem _ (ih List.mem_cons_self hc)
    · exact List.mem_cons_of_mem _ (ih (List.mem_cons_of_mem _ hn) hc)
  | case5 d e rest hbar hnames => exact absurd hnames (nestedNames_ne_nil _)

/-- A text that holds one name is that name. -/
theorem eq_of_nestedNames {t n : Text} (h : nestedNames t = [n]) : t = n := by
  induction t using nestedNames.induct generalizing n with
  | case1 =>
    rw [nestedNames] at h
    exact List.singleton_injective h
  | case2 d =>
    rw [nestedNames] at h
    exact List.singleton_injective h
  | case3 d e rest hbar ih =>
    rw [nestedNames, if_pos hbar, List.cons.injEq] at h
    exact absurd h.2 (nestedNames_ne_nil _)
  | case4 d e rest hbar name more hnames ih =>
    rw [nestedNames, if_neg hbar, hnames, List.cons.injEq] at h
    obtain ⟨rfl, rfl⟩ := h
    rw [ih hnames]
  | case5 d e rest hbar hnames => exact absurd hnames (nestedNames_ne_nil _)

end Names

section Gathering

/-- A variable that begins with a lead text sets a value under the names that follow. -/
def gather (lead : Text) (acc : Fields) (e : Text × Text) : Fields :=
  match Text.dropPrefix? lead e.1 with
  | some rest => insertAt (nestedNames rest) (.text e.2) acc
  | none => acc

theorem mem_map_fst_insertAt {names : List Text} {v : Value} {fields : Fields} {k : Text}
    (h : k ∈ (insertAt names v fields).map Prod.fst) : k ∈ names ∨ k ∈ fields.map Prod.fst := by
  unfold insertAt at h
  split at h
  · exact Or.inr h
  · exact (mem_map_fst_insertField.1 h).imp List.mem_singleton.2 id
  · split at h
    · exact (mem_map_fst_insertField.1 h).imp (fun hk => List.mem_cons.2 (Or.inl hk)) id
    · exact (mem_map_fst_insertField.1 h).imp (fun hk => List.mem_cons.2 (Or.inl hk)) id
    · exact Or.inr h

theorem nodup_insertAt (names : List Text) (v : Value) {fields : Fields} (h : (fields.map Prod.fst).Nodup) :
    ((insertAt names v fields).map Prod.fst).Nodup := by
  unfold insertAt
  split
  · exact h
  · exact nodup_insertField h
  · split
    · exact nodup_insertField h
    · exact nodup_insertField h
    · exact h

/-- There is no value of a field: nothing, or a record of further names. -/
def Valueless (value? : Option Value) : Prop := value? = none ∨ ∃ r, value? = some (.record r)

/-- What a field becomes when a value is set under other names: it stays, or it had no value and has none. -/
def Beside (before after : Option Value) : Prop := after = before ∨ Valueless before ∧ Valueless after

/-- A value under several names makes the field of the first one a record, unless it is something else already. -/
theorem beside_insertAt_cons (n m : Text) (more : List Text) (v : Value) (fields : Fields) (k : Text) :
    Beside (fields.lookup k) ((insertAt (n :: m :: more) v fields).lookup k) := by
  rw [insertAt.eq_def]
  dsimp only
  by_cases hk : k = n
  · subst hk
    cases hl : fields.lookup k with
    | none =>
      dsimp only
      rw [lookup_insertField, if_pos rfl]
      exact Or.inr ⟨Or.inl rfl, Or.inr ⟨_, rfl⟩⟩
    | some w =>
      cases w with
      | record inner =>
        dsimp only
        rw [lookup_insertField, if_pos rfl]
        exact Or.inr ⟨Or.inr ⟨inner, rfl⟩, Or.inr ⟨_, rfl⟩⟩
      | _ => exact Or.inl hl
  · refine Or.inl ?_
    split
    · rw [lookup_insertField, if_neg hk]
    · rw [lookup_insertField, if_neg hk]
    · rfl

theorem beside_insertAt {rest name : Text} (hne : rest ≠ name) (v : Value) (fields : Fields) :
    Beside (fields.lookup name) ((insertAt (nestedNames rest) v fields).lookup name) := by
  cases hnames : nestedNames rest with
  | nil => exact absurd hnames (nestedNames_ne_nil rest)
  | cons n more =>
    cases more with
    | nil =>
      rw [eq_of_nestedNames hnames] at hne
      refine Or.inl ?_
      rw [insertAt, lookup_insertField, if_neg hne.symm]
    | cons m more => exact beside_insertAt_cons n m more v fields name

theorem nodup_gather (lead : Text) {acc : Fields} (e : Text × Text) (h : (acc.map Prod.fst).Nodup) :
    ((gather lead acc e).map Prod.fst).Nodup := by
  unfold gather
  split
  · exact nodup_insertAt _ _ h
  · exact h

theorem settled_gather {lead : Text} {acc : Fields} {e : Text × Text} (h : ∀ k ∈ acc.map Prod.fst, Text.Settled k)
    (settled : Text.Settled e.1) : ∀ k ∈ (gather lead acc e).map Prod.fst, Text.Settled k := by
  intro k hk
  unfold gather at hk
  split at hk
  · next rest hrest =>
    rcases mem_map_fst_insertAt hk with hk | hk
    · intro c hc
      apply settled c
      rw [Text.dropPrefix?_eq_some.1 hrest]
      exact List.mem_append_right _ (mem_of_mem_nestedNames hk hc)
    · exact h k hk
  · exact h k hk

/-- What has been gathered for a field: its own variable, if there is one; or else at most a record. -/
structure Gathered (lead name : Text) (vars : List (Text × Text)) (acc : Fields) : Prop where
  own : ∀ v, vars.lookup (lead ++ name) = some v → acc.lookup name = some (.text v)
  other : vars.lookup (lead ++ name) = none → Valueless (acc.lookup name)

variable {lead name : Text} {vars : List (Text × Text)} {acc : Fields}

/-- A further variable that is not the field's own does not take its value from it. -/
theorem Gathered.keep (h : Gathered lead name vars acc) {k v : Text} (hk : lead ++ name ≠ k) {acc' : Fields}
    (hbeside : Beside (acc.lookup name) (acc'.lookup name)) : Gathered lead name (vars ++ [(k, v)]) acc' := by
  have hvars : (vars ++ [(k, v)]).lookup (lead ++ name) = vars.lookup (lead ++ name) := by
    rw [lookup_append, List.lookup_cons, beq_eq_false_iff_ne.2 hk]
    simp
  constructor
  · intro w hw
    rw [hvars] at hw
    have hacc := h.own w hw
    rcases hbeside with hsame | ⟨hbefore, -⟩
    · rw [hsame, hacc]
    · rw [hacc] at hbefore
      rcases hbefore with hbefore | ⟨r, hbefore⟩ <;> cases hbefore
  · intro hnone
    rw [hvars] at hnone
    rcases hbeside with hsame | ⟨-, hafter⟩
    · rw [hsame]
      exact h.other hnone
    · exact hafter

theorem Gathered.step (h : Gathered lead name vars acc) (hname : nestedNames name = [name]) {k v : Text}
    (hk : k ∉ vars.map Prod.fst) : Gathered lead name (vars ++ [(k, v)]) (gather lead acc (k, v)) := by
  unfold gather
  cases hdrop : Text.dropPrefix? lead k with
  | none =>
    refine h.keep ?_ (Or.inl rfl)
    rintro rfl
    rw [Text.dropPrefix?_eq_some.2 rfl] at hdrop
    cases hdrop
  | some rest =>
    have hrest := Text.dropPrefix?_eq_some.1 hdrop
    dsimp only
    by_cases hsame : rest = name
    · rw [hsame] at hrest ⊢
      have hvars : (vars ++ [(k, v)]).lookup (lead ++ name) = some v := by
        rw [lookup_append, ← hrest, Value.lookup_of_not_mem hk]
        simp
      rw [hname, insertAt]
      constructor
      · intro w hw
        cases hvars.symm.trans hw
        rw [lookup_insertField, if_pos rfl]
      · intro hnone
        cases hvars.symm.trans hnone
    · refine h.keep ?_ (beside_insertAt hsame _ _)
      rw [hrest]
      exact fun heq => hsame (List.append_cancel_left heq).symm

theorem gathered_foldl (hname : nestedNames name = [name]) (hvars : (vars.map Prod.fst).Nodup) :
    Gathered lead name vars (vars.foldl (gather lead) []) := by
  induction vars using List.reverseRecOn with
  | nil =>
    constructor
    · rintro v ⟨⟩
    · exact fun _ => Or.inl rfl
  | append_singleton vars e ih =>
    rw [List.map_append, List.map_singleton] at hvars
    obtain ⟨hnodup, -, hdisjoint⟩ := List.nodup_append'.1 hvars
    rw [List.foldl_append]
    exact (ih hnodup).step hname fun hk => hdisjoint hk (List.mem_singleton_self _)

end Gathering

section Sections

/-- The names of fields: each is one name, in small letters and in ASCII. -/
structure FieldNames (names : List Text) : Prop where
  nodup : names.Nodup
  single : ∀ n ∈ names, nestedNames n = [n]
  small : ∀ n ∈ names, n.lower = n
  ascii : ∀ n ∈ names, ∀ c ∈ n, c.val < 0x80

def wholeName (section_ : Text) : Text := "mail_factory_" ++ section_

/-- The variable that names a section and one of its fields. -/
def nestedName (section_ n : Text) : Text := wholeName section_ ++ "__" ++ n

/-- What the environment sets under a name in small letters. -/
def set? (env : List (Text × Text)) (name : Text) : Option Value := ((lowered env).lookup name).map Value.text

variable {env : List (Text × Text)} {section_ : Text} {names : List Text}

/-- What the variables that name a section gather to. -/
def nestedFields (env : List (Text × Text)) (section_ : Text) : Fields :=
  (lowered env).foldl (gather (wholeName section_ ++ "__")) []

theorem nodup_nestedFields (env : List (Text × Text)) (section_ : Text) :
    ((nestedFields env section_).map Prod.fst).Nodup := by
  apply List.foldlRecOn (motive := fun acc : Fields => (acc.map Prod.fst).Nodup)
  · exact List.nodup_nil
  · exact fun acc h e _ => nodup_gather _ e h

private theorem settled_nestedFields {e : Text × Value} (he : e ∈ nestedFields env section_) :
    Text.Settled e.1 := by
  have hall : ∀ k ∈ (nestedFields env section_).map Prod.fst, Text.Settled k := by
    apply List.foldlRecOn (motive := fun acc : Fields => ∀ k ∈ acc.map Prod.fst, Text.Settled k)
    · exact fun k hk => absurd hk List.not_mem_nil
    · exact fun acc h e he => settled_gather h (settled_lowered env (List.mem_map_of_mem he))
  exact hall _ (List.mem_map_of_mem he)

theorem plain_nestedFields (hnames : FieldNames names) : Plain names (nestedFields env section_) :=
  fun _ he n hn hlower => Text.eq_of_lower_eq (settled_nestedFields he) (hnames.ascii n hn) hlower

/-- None of the names changes when it is brought to the letters of a field. -/
theorem named_nestedFields (hnames : FieldNames names) :
    ((nestedFields env section_).map fun e => ((names.find? (· = e.1.lower)).getD e.1, e.2)) =
      nestedFields env section_ := by
  have hsame : ∀ e ∈ nestedFields env section_, ((names.find? (· = e.1.lower)).getD e.1, e.2) = e := by
    intro e he
    cases hfind : names.find? (· = e.1.lower) with
    | none => rfl
    | some n =>
      have hn : n = e.1.lower := by simpa using List.find?_some hfind
      rw [Option.getD_some, ← plain_nestedFields hnames e he n (List.mem_of_find?_eq_some hfind) hn.symm]
  exact (List.map_congr_left hsame).trans (List.map_id' _)

/-- A record says of a field what its variable does. Without one it says nothing, or something that is no field's value. -/
structure Speaks (env : List (Text × Text)) (section_ n : Text) (fields : Fields) : Prop where
  own : ∀ v, set? env (nestedName section_ n) = some v → fields.lookup n = some v
  other : set? env (nestedName section_ n) = none → Valueless (fields.lookup n)

theorem speaks_nestedFields (env : List (Text × Text)) (section_ : Text) {n : Text} (hn : nestedNames n = [n]) :
    Speaks env section_ n (nestedFields env section_) := by
  have hgathered : Gathered (wholeName section_ ++ "__") n (lowered env) (nestedFields env section_) :=
    gathered_foldl hn (nodup_lowered env)
  constructor
  · intro v hv
    obtain ⟨t, ht, rfl⟩ := Option.map_eq_some_iff.1 hv
    exact hgathered.own t ht
  · exact fun hnone => hgathered.other (Option.map_eq_none_iff.1 hnone)

/-- Without a variable for all of it, the environment says of a section what it says of each field. -/
theorem sectionFromEnvironment_eq (hnames : FieldNames names) (hwhole : set? env (wholeName section_) = none) :
    sectionFromEnvironment env section_ names =
      .ok (if nestedFields env section_ = [] then none else some (.record (nestedFields env section_))) := by
  have hrun : sectionFromEnvironment env section_ names = .ok (if nestedFields env section_ = [] then none
      else some (.record (Value.recordOf ((nestedFields env section_).map fun e =>
        ((names.find? (· = e.1.lower)).getD e.1, e.2))))) := by
    unfold sectionFromEnvironment
    dsimp only
    split
    · rfl
    · next t ht =>
      cases ht.symm.trans (Option.map_eq_none_iff.1 hwhole)
  rw [hrun, named_nestedFields hnames, Value.recordOf_of_nodup (nodup_nestedFields env section_)]

end Sections

end Custody.Config
