import Custody.Data.Value
import Mathlib.Data.List.Induction
import Mathlib.Data.List.Nodup

/-! Fields as a dictionary: each name keeps its first place and takes its last value. -/
namespace Custody.Value

variable {α : Type} {name : Text} {v : α} {fields : List (Text × α)}

theorem lookup_append (l l' : List (Text × α)) (n : Text) : (l ++ l').lookup n = (l.lookup n).or (l'.lookup n) := by
  induction l with
  | nil => rfl
  | cons e rest ih =>
    rw [List.cons_append, List.lookup_cons, List.lookup_cons, ih]
    split <;> rfl

theorem lookup_of_not_mem {k : Text} (h : k ∉ fields.map Prod.fst) : fields.lookup k = none := by
  rw [List.lookup_eq_none_iff]
  intro e he
  rw [bne_iff_ne]
  rintro rfl
  exact h (List.mem_map_of_mem he)

theorem lookup_map {β : Type} (f : Text → α → β) (l : List (Text × α)) (n : Text) :
    (l.map fun e => (e.1, f e.1 e.2)).lookup n = (l.lookup n).map (f n) := by
  induction l with
  | nil => rfl
  | cons e rest ih =>
    rw [List.map_cons, List.lookup_cons, List.lookup_cons, ih, beq_eq_decide]
    by_cases hn : n = e.1 <;> simp [hn]

theorem lookup_insertField (name : Text) (v : α) (fields : List (Text × α)) (k : Text) :
    (insertField name v fields).lookup k = if k = name then some v else fields.lookup k := by
  induction fields with
  | nil =>
    rw [insertField, List.lookup_cons, beq_eq_decide]
    by_cases hk : k = name <;> simp [hk]
  | cons f rest ih =>
    obtain ⟨j, w⟩ := f
    unfold insertField
    by_cases hj : j = name
    · subst hj
      by_cases hk : k = j <;> simp [List.lookup_cons, beq_eq_decide, hk]
    · rw [if_neg hj, List.lookup_cons, List.lookup_cons, ih]
      by_cases hk : k = j
      · subst hk
        simp [hj]
      · simp [beq_eq_decide, hk]

theorem map_fst_insertField (name : Text) (v : α) (fields : List (Text × α)) :
    (insertField name v fields).map Prod.fst =
      if name ∈ fields.map Prod.fst then fields.map Prod.fst else fields.map Prod.fst ++ [name] := by
  induction fields with
  | nil => rfl
  | cons f rest ih =>
    obtain ⟨j, w⟩ := f
    unfold insertField
    by_cases hj : j = name
    · simp [hj]
    · have hmem : name ∈ ((j, w) :: rest).map Prod.fst ↔ name ∈ rest.map Prod.fst := by
        rw [List.map_cons, List.mem_cons]
        exact or_iff_right fun h => hj h.symm
      rw [if_neg hj, List.map_cons, ih, if_congr hmem rfl rfl]
      split
      · rfl
      · rfl

def setAll (before : List (Text × α)) (pairs : List (Text × α)) : List (Text × α) :=
  pairs.foldl (fun fields pair => insertField pair.1 pair.2 fields) before

theorem setAll_concat (before pairs : List (Text × α)) (pair : Text × α) :
    setAll before (pairs ++ [pair]) = insertField pair.1 pair.2 (setAll before pairs) := by
  simp [setAll]

theorem lookup_setAll (before pairs : List (Text × α)) (k : Text) :
    (setAll before pairs).lookup k = (pairs.reverse.lookup k).or (before.lookup k) := by
  induction pairs using List.reverseRecOn with
  | nil => simp [setAll]
  | append_singleton pairs pair ih =>
    obtain ⟨name, v⟩ := pair
    rw [setAll_concat, lookup_insertField, ih, List.reverse_concat, List.lookup_cons]
    by_cases hk : k = name
    · simp [hk]
    · simp [beq_eq_decide, hk]

/-- What is done to all values is done to those that count. -/
theorem setAll_map {β : Type} (f : α → β) (before pairs : List (Text × α)) :
    setAll (before.map fun e => (e.1, f e.2)) (pairs.map fun e => (e.1, f e.2)) =
      (setAll before pairs).map fun e => (e.1, f e.2) := by
  have insert : ∀ (name : Text) (v : α) (l : List (Text × α)),
      insertField name (f v) (l.map fun e => (e.1, f e.2)) = (insertField name v l).map fun e => (e.1, f e.2) := by
    intro name v l
    induction l with
    | nil => rfl
    | cons e rest ih =>
      rw [List.map_cons, insertField, insertField]
      split
      · rfl
      · rw [ih, List.map_cons]
  induction pairs using List.reverseRecOn with
  | nil => rfl
  | append_singleton pairs pair ih =>
    rw [List.map_append, List.map_singleton, setAll_concat, setAll_concat, ih]
    exact insert _ _ _

theorem map_fst_setAll (pairs : List (Text × α)) :
    (setAll [] pairs).map Prod.fst = (pairs.map Prod.fst).eraseDups := by
  induction pairs using List.reverseRecOn with
  | nil => simp [setAll]
  | append_singleton pairs pair ih =>
    rw [setAll_concat, map_fst_insertField, ih, List.map_append, List.eraseDups_append]
    simp only [List.mem_eraseDups, List.map_cons, List.map_nil]
    split
    · next h => simp [List.removeAll, h]
    · next h => simp [List.removeAll, h, List.eraseDups_cons]

theorem mem_map_fst_insertField {k : Text} :
    k ∈ (insertField name v fields).map Prod.fst ↔ k = name ∨ k ∈ fields.map Prod.fst := by
  rw [map_fst_insertField]
  split
  · next h => exact ⟨Or.inr, fun hk => hk.elim (fun hk => hk ▸ h) id⟩
  · rw [List.mem_append, List.mem_singleton, or_comm]

theorem nodup_insertField (h : (fields.map Prod.fst).Nodup) : ((insertField name v fields).map Prod.fst).Nodup := by
  rw [map_fst_insertField]
  split
  · exact h
  · next hnot =>
    apply h.append (List.nodup_singleton name)
    rwa [List.disjoint_singleton]

theorem mem_map_fst_setAll {before pairs : List (Text × α)} {k : Text} :
    k ∈ (setAll before pairs).map Prod.fst ↔ k ∈ before.map Prod.fst ∨ k ∈ pairs.map Prod.fst := by
  induction pairs using List.reverseRecOn with
  | nil => simp [setAll]
  | append_singleton pairs pair ih =>
    rw [setAll_concat, mem_map_fst_insertField, ih, List.map_append, List.mem_append, List.map_singleton,
      List.mem_singleton, or_comm, or_assoc]

theorem nodup_setAll {before : List (Text × α)} (h : (before.map Prod.fst).Nodup) (pairs : List (Text × α)) :
    ((setAll before pairs).map Prod.fst).Nodup := by
  induction pairs using List.reverseRecOn with
  | nil => exact h
  | append_singleton pairs pair ih =>
    rw [setAll_concat]
    exact nodup_insertField ih

/-- Pairs set behind others bring the names that these do not have, in the order in which they would stand alone. -/
theorem map_fst_setAll_append (before pairs : List (Text × α)) :
    (setAll before pairs).map Prod.fst =
      before.map Prod.fst ++ ((setAll [] pairs).map Prod.fst).filter (· ∉ before.map Prod.fst) := by
  induction pairs using List.reverseRecOn with
  | nil => simp [setAll]
  | append_singleton pairs pair ih =>
    have hmem : pair.1 ∈ (setAll before pairs).map Prod.fst ↔
        pair.1 ∈ before.map Prod.fst ∨ pair.1 ∈ (setAll [] pairs).map Prod.fst := by
      rw [mem_map_fst_setAll, mem_map_fst_setAll, List.map_nil, or_iff_right List.not_mem_nil]
    rw [setAll_concat, setAll_concat, map_fst_insertField, map_fst_insertField, if_congr hmem rfl rfl, ih]
    by_cases hnew : pair.1 ∈ (setAll [] pairs).map Prod.fst
    · rw [if_pos (Or.inr hnew), if_pos hnew]
    · rw [if_neg hnew, List.filter_append, ← List.append_assoc]
      by_cases hold : pair.1 ∈ before.map Prod.fst
      · rw [if_pos (Or.inl hold), List.filter_cons_of_neg (by simpa using hold), List.filter_nil, List.append_nil]
      · rw [if_neg (not_or.2 ⟨hold, hnew⟩), List.filter_cons_of_pos (by simpa using hold), List.filter_nil]

/-- Where no name is repeated it does not matter from which end a value is looked up. -/
theorem lookup_reverse (h : (fields.map Prod.fst).Nodup) (k : Text) : fields.reverse.lookup k = fields.lookup k := by
  induction fields with
  | nil => rfl
  | cons e rest ih =>
    obtain ⟨j, v⟩ := e
    obtain ⟨hnot, hnodup⟩ := List.nodup_cons.1 h
    rw [List.reverse_cons, lookup_append, ih hnodup, List.lookup_cons, List.lookup_cons, beq_eq_decide]
    by_cases hk : k = j
    · rw [lookup_of_not_mem (hk ▸ hnot)]
      simp [hk]
    · simp [hk]

private theorem insertField_of_not_mem (h : name ∉ fields.map Prod.fst) :
    insertField name v fields = fields ++ [(name, v)] := by
  induction fields with
  | nil => rfl
  | cons e rest ih =>
    rw [List.map_cons, List.mem_cons, not_or] at h
    rw [insertField, if_neg (Ne.symm h.1), ih h.2, List.cons_append]

/-- A dictionary already is one. -/
theorem recordOf_of_nodup (h : (fields.map Prod.fst).Nodup) : recordOf fields = fields := by
  change setAll [] fields = fields
  induction fields using List.reverseRecOn with
  | nil => rfl
  | append_singleton fields e ih =>
    rw [List.map_append, List.map_singleton] at h
    obtain ⟨hnodup, -, hdisjoint⟩ := List.nodup_append'.1 h
    rw [setAll_concat, ih hnodup]
    apply insertField_of_not_mem
    exact fun he => hdisjoint he (List.mem_singleton_self _)

end Custody.Value
