import Custody.Data.Value
import Custody.Proofs.Act
import Custody.Proofs.Text.Digits

/-! What a value is made of, and which values have a text. -/
namespace Custody.Value

/-- What a value is made of, with its names if they are fields. -/
def parts : Value → List (Option Text × Value)
  | list items => items.map fun v => (none, v)
  | record fields => fields.map fun f => (some f.1, f.2)
  | _ => []

section Parts
variable {P : Value → Prop}

private theorem sizeOf_lt_of_mem_parts {v : Value} {p : Option Text × Value} (h : p ∈ v.parts) :
    sizeOf p.2 < sizeOf v := by
  cases v with
  | list items =>
    obtain ⟨item, hitem, rfl⟩ := List.mem_map.1 h
    have hlt := List.sizeOf_lt_of_mem hitem
    rw [list.sizeOf_spec]
    dsimp only
    omega
  | record fields =>
    obtain ⟨⟨name, part⟩, hfield, rfl⟩ := List.mem_map.1 h
    have hlt := List.sizeOf_lt_of_mem hfield
    rw [Prod.mk.sizeOf_spec] at hlt
    rw [record.sizeOf_spec]
    dsimp only
    omega
  | _ => exact absurd h List.not_mem_nil

/-- What holds of a value once it holds of its parts holds of every value. -/
@[elab_as_elim]
theorem induction_parts (step : ∀ v, (∀ p ∈ v.parts, P p.2) → P v) (v : Value) : P v :=
  step v fun p _ => induction_parts step p.2
termination_by sizeOf v
decreasing_by exact sizeOf_lt_of_mem_parts ‹_›

end Parts

/-- One value stands within another, at any depth. -/
inductive Occurs (u : Value) : Value → Prop
  | here : Occurs u u
  | part {v : Value} {p : Option Text × Value} (mem : p ∈ v.parts) (inside : Occurs u p.2) : Occurs u v

/-- No integer of too many digits stands within a value. -/
def HasText (v : Value) : Prop := ∀ i, Occurs (.int i) v → i.natAbs < Nat.pow 10 Text.maxIntegerDigits

section HasText
variable {v : Value}

/-- A value has a text if all its parts have, unless it is an integer itself. -/
theorem hasText_iff : v.HasText ↔
    (∀ i, v = .int i → i.natAbs < Nat.pow 10 Text.maxIntegerDigits) ∧ ∀ p ∈ v.parts, p.2.HasText := by
  constructor
  · intro h
    refine ⟨fun i hi => h i (hi ▸ .here), fun p hp i hi => h i (.part hp hi)⟩
  · rintro ⟨hself, hparts⟩ i hi
    cases hi with
    | here => exact hself i rfl
    | part mem inside => exact hparts _ mem i inside

theorem hasText_int (i : Int) : (int i).HasText ↔ i.natAbs < Nat.pow 10 Text.maxIntegerDigits := by
  rw [hasText_iff]
  constructor
  · exact fun h => h.1 i rfl
  · intro h
    refine ⟨fun j hj => ?_, nofun⟩
    cases hj
    exact h

theorem hasText_text (t : Text) : (text t).HasText := hasText_iff.2 ⟨nofun, nofun⟩

/-- There is a text if something holds, and otherwise a failure that tells of a bad value. -/
def ShownIf (holds : Prop) (r : Except Failure Text) : Prop :=
  holds ∧ (∃ t, r = .ok t) ∨ ¬holds ∧ r = .error .badValue

theorem ShownIf.of_ok {p : Prop} (hp : p) (t : Text) : ShownIf p (.ok t) := Or.inl ⟨hp, t, rfl⟩

theorem ShownIf.bind {p q : Prop} {r : Except Failure Text} {f : Text → Except Failure Text} (hr : ShownIf p r)
    (hf : ∀ t, ShownIf q (f t)) : ShownIf (p ∧ q) (r >>= f) := by
  rcases hr with ⟨hp, t, rfl⟩ | ⟨hp, rfl⟩
  · rcases hf t with ⟨hq, h⟩ | ⟨hq, h⟩
    · exact Or.inl ⟨⟨hp, hq⟩, h⟩
    · exact Or.inr ⟨fun hpq => hq hpq.2, h⟩
  · exact Or.inr ⟨fun hpq => hp hpq.1, rfl⟩

theorem ShownIf.congr {p q : Prop} {r : Except Failure Text} (hr : ShownIf p r) (h : p ↔ q) : ShownIf q r := by
  rwa [← h]

/-- What is put around a text makes no difference. -/
theorem ShownIf.map {p : Prop} {r : Except Failure Text} (hr : ShownIf p r) (f : Text → Text) :
    ShownIf p (r >>= fun t => pure (f t)) :=
  (hr.bind fun t => .of_ok trivial (f t)).congr (iff_of_eq (and_true p))

theorem intText_shown (i : Int) : ShownIf (int i).HasText (intText i) := by
  have hlength := Text.length_ofNat_le_iff (n := i.natAbs) (w := Text.maxIntegerDigits) (by decide)
  rw [hasText_int, ← hlength, intText]
  split
  · next h => exact Or.inr ⟨Nat.not_le.2 h, rfl⟩
  · next h => exact .of_ok (Nat.not_lt.1 h) _

private theorem innerItems_shown {items : List Value} (h : ∀ v ∈ items, ShownIf v.HasText (inner v)) :
    ShownIf (∀ v ∈ items, v.HasText) (innerItems items) := by
  induction items with
  | nil => exact .of_ok nofun []
  | cons v rest ih =>
    have hv := h v List.mem_cons_self
    cases rest with
    | nil => exact hv.congr (by simp)
    | cons w rest =>
      have hrest := ih fun u hu => h u (List.mem_cons_of_mem _ hu)
      exact (hv.bind fun first => hrest.map fun others => first ++ ", " ++ others).congr List.forall_mem_cons.symm

private theorem innerFields_shown {fields : List (Text × Value)}
    (h : ∀ f ∈ fields, ShownIf f.2.HasText (inner f.2)) :
    ShownIf (∀ f ∈ fields, f.2.HasText) (innerFields fields) := by
  induction fields with
  | nil => exact .of_ok nofun []
  | cons f rest ih =>
    obtain ⟨k, v⟩ := f
    have hv := h (k, v) List.mem_cons_self
    cases rest with
    | nil => exact (hv.map fun first => k.quoted ++ ": " ++ first).congr (by simp)
    | cons g rest =>
      have hrest := ih fun u hu => h u (List.mem_cons_of_mem _ hu)
      refine (hv.bind fun first => hrest.map fun others => k.quoted ++ ": " ++ first ++ ", " ++ others).congr ?_
      rw [List.forall_mem_cons (a := (k, v))]

theorem inner_shown (v : Value) : ShownIf v.HasText (inner v) := by
  have leaf {v : Value} (hint : ∀ i, v ≠ .int i) (hparts : v.parts = []) (t : Text) : ShownIf v.HasText (.ok t) :=
    .of_ok (hasText_iff.2 ⟨fun i hi => absurd hi (hint i), by rw [hparts]; nofun⟩) t
  induction v using induction_parts with
  | step v ih =>
    cases v with
    | int i => exact intText_shown i
    | list items =>
      have hitems : ∀ v ∈ items, ShownIf v.HasText (inner v) := fun v hv => ih (none, v) (List.mem_map_of_mem hv)
      refine ((innerItems_shown hitems).map fun body => "[" ++ body ++ "]").congr ?_
      rw [hasText_iff, parts, List.forall_mem_map]
      exact (and_iff_right nofun).symm
    | record fields =>
      have hfields : ∀ f ∈ fields, ShownIf f.2.HasText (inner f.2) :=
        fun f hf => ih (some f.1, f.2) (List.mem_map_of_mem hf)
      refine ((innerFields_shown hfields).map fun body => "\x7b" ++ body ++ "\x7d").congr ?_
      rw [hasText_iff, parts, List.forall_mem_map]
      exact (and_iff_right nofun).symm
    | null => exact leaf (by nofun) rfl _
    | bool b => exact leaf (by nofun) rfl _
    | float x => exact leaf (by nofun) rfl _
    | text t => exact leaf (by nofun) rfl _
    | foreign => exact leaf (by nofun) rfl _

/-- Just the values without an integer of too many digits can be shown. -/
theorem display_shown (v : Value) : ShownIf v.HasText v.display := by
  cases v with
  | text t => exact .of_ok (hasText_text t) t
  | _ => exact inner_shown _

theorem display_eq_ok_iff (v : Value) : (∃ t, v.display = .ok t) ↔ v.HasText := by
  rcases display_shown v with ⟨hv, h⟩ | ⟨hv, h⟩
  · exact iff_of_true h hv
  · rw [h]
    exact iff_of_false nofun hv

theorem display_eq_error {f : Failure} (h : v.display = .error f) : f = .badValue := by
  rcases display_shown v with ⟨-, t, ht⟩ | ⟨-, ht⟩
  · rw [ht] at h
    cases h
  · rw [ht] at h
    cases h
    rfl

end HasText

end Custody.Value
