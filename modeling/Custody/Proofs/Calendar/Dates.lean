import Custody.Proofs.Calendar.Order

/-! Days and dates: every day of the calendar has a date that the calendar has, and the date counts the days before it. -/
namespace Custody.Date

def total (lengths : List Nat) : Nat := lengths.foldl (· + ·) 0

theorem total_nil : total [] = 0 := rfl

theorem total_cons (length : Nat) (rest : List Nat) : total (length :: rest) = length + total rest := by
  rw [total, List.foldl_cons, Nat.zero_add, ← Nat.add_zero length, List.foldl_assoc]
  rfl

section Years

/-- A year takes as many days as its months have. -/
theorem daysBeforeYear_succ {year : Nat} (h : 1 ≤ year) :
    daysBeforeYear (year + 1) = daysBeforeYear year + total (months (isLeap year)) := by
  obtain ⟨past, rfl⟩ : ∃ past, year = past + 1 := ⟨year - 1, by omega⟩
  have hsum (leap : Bool) : total (months leap) = if leap then 366 else 365 := by cases leap <;> rfl
  have hleap : isLeap (past + 1) = true ↔ 4 ∣ past + 1 ∧ (¬100 ∣ past + 1 ∨ 400 ∣ past + 1) := by
    simp [isLeap, Nat.dvd_iff_mod_eq_zero]
  have hfour : 100 ∣ past + 1 → 4 ∣ past + 1 := Nat.dvd_trans (by decide)
  have hcentury : 400 ∣ past + 1 → 100 ∣ past + 1 := Nat.dvd_trans (by decide)
  have hle : past / 100 ≤ past := Nat.div_le_self past 100
  rw [hsum, if_congr hleap rfl rfl]
  unfold daysBeforeYear
  simp only [Nat.add_sub_cancel, Nat.succ_div]
  -- Each of the three counts goes up at its own multiples, and those of one are among those of the one before.
  by_cases h4 : 4 ∣ past + 1
  · by_cases h100 : 100 ∣ past + 1
    · by_cases h400 : 400 ∣ past + 1
      · simp only [h4, h100, h400, if_true, true_and, or_true]
        omega
      · simp only [h4, h100, h400, if_true, if_false, not_true, false_or, and_false]
        omega
    · have h400 : ¬400 ∣ past + 1 := mt hcentury h100
      simp only [h4, h100, h400, if_true, if_false, not_false_iff, true_or, true_and]
      omega
  · have h100 : ¬100 ∣ past + 1 := mt hfour h4
    have h400 : ¬400 ∣ past + 1 := mt hcentury h100
    simp only [h4, h100, h400, if_false, false_and]
    omega

theorem splitYears_year_pos (day : Nat) : 1 ≤ (splitYears day).1 := Nat.le_add_left ..

/-- The day of the year is one that the year has. -/
theorem splitYears_day_lt (day : Nat) : (splitYears day).2 < total (months (isLeap (splitYears day).1)) := by
  obtain ⟨hday, hend, -⟩ := splitYears_spec day
  rw [daysBeforeYear_succ (splitYears_year_pos day)] at hend
  omega

end Years

section Months

/-- The months before a day and the days of its month up to it make up the days before it. -/
theorem splitMonths_spec (month : Nat) {lengths : List Nat} {days : Nat} (h : days < total lengths) :
    ∃ before length, lengths[before]? = some length ∧
      splitMonths month lengths days = (month + before, days - total (lengths.take before) + 1) ∧
      total (lengths.take before) ≤ days ∧ days < total (lengths.take before) + length := by
  induction lengths generalizing month days with
  | nil => exact absurd h (Nat.not_lt_zero days)
  | cons length rest ih =>
    rw [total_cons] at h
    rw [splitMonths]
    split
    · next hfirst => exact ⟨0, length, rfl, rfl, Nat.zero_le days, by simpa [total_nil] using hfirst⟩
    · next hlater =>
      have hrest : days - length < total rest := by omega
      obtain ⟨before, length', hlength, hsplit, hle, hlt⟩ := ih (month + 1) hrest
      have hbefore : total ((length :: rest).take (before + 1)) = length + total (rest.take before) := by
        rw [List.take_succ_cons, total_cons]
      refine ⟨before + 1, length', hlength, ?_, ?_, ?_⟩
      · simp only [hsplit, hbefore, Prod.mk.injEq]
        omega
      · omega
      · omega

private theorem daysBeforeMonth_eq (leap : Bool) (before : Nat) :
    daysBeforeMonth leap (1 + before) = total ((months leap).take before) := by
  rw [daysBeforeMonth, Nat.add_sub_cancel_left, total]

end Months

/-- The date of a day is in a month of its year, on one of the days of that month, and has the day's number of days
before it. -/
theorem ofDay_spec (day : Nat) :
    ∃ before length, (months (isLeap (ofDay day).year))[before]? = some length ∧ (ofDay day).month = before + 1 ∧
      1 ≤ (ofDay day).day ∧ (ofDay day).day ≤ length ∧ (ofDay day).toDay = day := by
  obtain ⟨before, length, hlength, hsplit, hle, hlt⟩ := splitMonths_spec 1 (splitYears_day_lt day)
  have hdate : ofDay day = ⟨(splitYears day).1, 1 + before,
      (splitYears day).2 - total ((months (isLeap (splitYears day).1)).take before) + 1⟩ := by
    unfold ofDay
    dsimp only
    rw [hsplit]
  obtain ⟨hday, -, -⟩ := splitYears_spec day
  rw [hdate]
  refine ⟨before, length, hlength, Nat.add_comm 1 before, by dsimp only; omega, by dsimp only; omega, ?_⟩
  rw [toDay, daysBeforeMonth_eq]
  dsimp only
  omega

theorem toDay_ofDay (day : Nat) : (ofDay day).toDay = day := by
  obtain ⟨-, -, -, -, -, -, h⟩ := ofDay_spec day
  exact h

/-- The days of the calendar have dates of the calendar. -/
theorem isValid_ofDay {day : Nat} (h : day < dayCount) : (ofDay day).isValid = true := by
  obtain ⟨before, length, hlength, hmonth, hfirst, hlast, -⟩ := ofDay_spec day
  have hyear : 1 ≤ (ofDay day).year := splitYears_year_pos day
  have hyear' := ofDay_year_le h
  have hbefore : before < 12 := by
    obtain ⟨hlt, -⟩ := List.getElem?_eq_some_iff.1 hlength
    exact hlt
  have hlength' : (months (isLeap (ofDay day).year)).getD ((ofDay day).month - 1) 0 = length := by
    rw [hmonth, Nat.add_sub_cancel, List.getD_eq_getElem?_getD, hlength]
    rfl
  simp only [isValid, Bool.and_eq_true, decide_eq_true_eq, hlength']
  omega

end Custody.Date
