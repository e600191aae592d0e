import Custody.Proofs.Audit.Naming
import Custody.Proofs.Calendar.Order

/-! The names of files that are opened one after the other, and when a dictionary has them in that order. -/
namespace Custody.Audit
open Text

/-- What stands behind the stamp in the names of an instant. -/
def further : Nat → Text
  | 0 => fileSuffix
  | n + 1 => "_" ++ ofNat (n + 1) ++ fileSuffix

theorem logName_eq (m : Moment) (n : Nat) : logName m n = filePrefix ++ (m.stamp ++ further n) := by
  cases n with
  | zero => exact List.append_assoc _ _ _
  | succ n =>
    unfold logName further
    simp only [List.append_assoc]

theorem isLogName_logName (m : Moment) (n : Nat) : isLogName (logName m n) = true := by
  have hsuffix : fileSuffix <:+ further n := by
    cases n with
    | zero => exact List.suffix_refl _
    | succ n => exact List.suffix_append _ _
  rw [isLogName, Bool.and_eq_true, List.isPrefixOf_iff_prefix, List.isSuffixOf_iff_suffix, logName_eq]
  exact ⟨List.prefix_append _ _, (hsuffix.trans (List.suffix_append _ _)).trans (List.suffix_append _ _)⟩

section Order
variable {m m' : Moment} {i j : Nat}

/-- The names of a later instant come later, whatever their numbers are. -/
theorem ahead_logName (hm : 1000 ≤ m.date.year) (h : m.micros < m'.micros) (i j : Nat) :
    Ahead (logName m i) (logName m' j) := by
  rw [logName_eq, logName_eq]
  exact ((Moment.ahead_stamp hm h).append _ _).prepend _

theorem le_logName_iff (m : Moment) (i j : Nat) :
    le (logName m i) (logName m j) = true ↔ le (further i) (further j) = true := by
  rw [logName_eq, logName_eq, le_append_append, le_append_append]

/-- Up to nine the names of one instant are in the order of their numbers. -/
theorem le_further : ∀ j ≤ 9, ∀ i < j, le (further i) (further j) = true := by
  decide +kernel

/-- The tenth number has two digits and comes before the second. -/
theorem not_le_further : ¬le (further 2) (further 10) = true := by
  decide +kernel

theorem logName_inj_of_year (hm : 1000 ≤ m.date.year) (hm' : 1000 ≤ m'.date.year) (h : logName m i = logName m' j) :
    m = m' ∧ i = j := by
  rcases Nat.lt_trichotomy m.micros m'.micros with hlt | heq | hgt
  · exact absurd h (ahead_logName hm hlt i j).ne
  · obtain rfl := Moment.eq_of_micros heq
    exact ⟨rfl, logName_inj m h⟩
  · exact absurd h.symm (ahead_logName hm' hgt j i).ne

end Order

/-- The names of files that are opened at some instants. The latest comes first; each gets the number of those that were
opened before it at the same instant. -/
def numbered : List Moment → List Text
  | [] => []
  | m :: before => logName m (before.count m) :: numbered before

/-- Instants at which files are opened, the latest first: they do not go back, and their years have four digits. -/
structure Successive (ms : List Moment) : Prop where
  sorted : ms.Pairwise fun m before => before.micros ≤ m.micros
  year : ∀ m ∈ ms, 1000 ≤ m.date.year

section Numbered
variable {ms : List Moment} {m : Moment} {n : Text}

theorem Successive.tail (h : Successive (m :: ms)) : Successive ms :=
  ⟨h.sorted.tail, fun m' hm' => h.year m' (List.mem_cons_of_mem m hm')⟩

theorem length_numbered (ms : List Moment) : (numbered ms).length = ms.length := by
  induction ms with
  | nil => rfl
  | cons m before ih => rw [numbered, List.length_cons, List.length_cons, ih]

theorem mem_numbered : n ∈ numbered ms ↔ ∃ m i, i < ms.count m ∧ n = logName m i := by
  induction ms with
  | nil => simp [numbered]
  | cons m before ih =>
    rw [numbered, List.mem_cons, ih]
    constructor
    · rintro (rfl | ⟨m', i, hi, rfl⟩)
      · exact ⟨m, before.count m, by rw [List.count_cons_self]; exact Nat.lt_succ_self _, rfl⟩
      · exact ⟨m', i, Nat.lt_of_lt_of_le hi List.count_le_count_cons, rfl⟩
    · rintro ⟨m', i, hi, rfl⟩
      by_cases hm : m' = m
      · rw [hm, List.count_cons_self] at hi
        rw [hm]
        rcases Nat.lt_succ_iff_lt_or_eq.1 hi with hi | rfl
        · exact Or.inr ⟨m, i, hi, rfl⟩
        · exact Or.inl rfl
      · rw [List.count_cons_of_ne (Ne.symm hm)] at hi
        exact Or.inr ⟨m', i, hi, rfl⟩

/-- A name stands for its instant and its number. -/
theorem logName_mem_numbered {i : Nat} (h : Successive ms) (hm : 1000 ≤ m.date.year) :
    logName m i ∈ numbered ms ↔ i < ms.count m := by
  rw [mem_numbered]
  constructor
  · rintro ⟨m', j, hj, heq⟩
    have hm' : m' ∈ ms := List.count_pos_iff.1 (Nat.zero_lt_of_lt hj)
    obtain ⟨rfl, rfl⟩ := logName_inj_of_year hm (h.year m' hm') heq
    exact hj
  · intro hi
    exact ⟨m, i, hi, rfl⟩

theorem nodup_numbered (h : Successive ms) : (numbered ms).Nodup := by
  induction ms with
  | nil => exact List.nodup_nil
  | cons m before ih =>
    refine List.nodup_cons.2 ⟨?_, ih h.tail⟩
    rw [logName_mem_numbered h.tail (h.year m List.mem_cons_self)]
    exact Nat.lt_irrefl _

/-- The names are in order just when no more than ten files are opened at any instant. -/
theorem ordered_numbered_iff (h : Successive ms) :
    (numbered ms).reverse.Pairwise (fun s t => le s t = true) ↔ ∀ m, ms.count m ≤ 10 := by
  rw [List.pairwise_reverse]
  induction ms with
  | nil => exact iff_of_true .nil fun m => Nat.zero_le 10
  | cons m before ih =>
    have hyear := h.year m List.mem_cons_self
    rw [numbered, List.pairwise_cons, ih h.tail]
    constructor
    · rintro ⟨hhead, hbefore⟩ m'
      by_cases hm : m' = m
      · rw [hm, List.count_cons_self]
        -- The eleventh name would have to come after the third.
        have hten : before.count m ≠ 10 := by
          intro heq
          have hthird := hhead _ ((logName_mem_numbered (i := 2) h.tail hyear).2 (by omega))
          rw [heq, le_logName_iff] at hthird
          exact not_le_further hthird
        have := hbefore m
        omega
      · rw [List.count_cons_of_ne (Ne.symm hm)]
        exact hbefore m'
    · intro hcount
      refine ⟨fun n hn => ?_, fun m' => Nat.le_trans List.count_le_count_cons (hcount m')⟩
      obtain ⟨m', i, hi, rfl⟩ := mem_numbered.1 hn
      have hm' : m' ∈ before := List.count_pos_iff.1 (Nat.zero_lt_of_lt hi)
      rcases Nat.lt_or_ge m'.micros m.micros with hlt | hge
      · exact (ahead_logName (h.tail.year m' hm') hlt _ _).le
      · obtain rfl := Moment.eq_of_micros (Nat.le_antisymm (List.rel_of_pairwise_cons h.sorted hm') hge)
        have := hcount m'
        rw [List.count_cons_self] at this
        exact (le_logName_iff m' i _).2 (le_further _ (by omega) i hi)

end Numbered

end Custody.Audit
