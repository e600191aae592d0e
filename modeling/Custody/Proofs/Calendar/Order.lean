import Custody.Calendar.Moment
import Custody.Proofs.Text.Digits
import Mathlib.Order.Monotone.Basic

/-! The calendar keeps the order of time: a later day has a later date, and a later instant has a later stamp. -/
namespace Custody

namespace Date

section Years

theorem daysBeforeYear_mono : Monotone daysBeforeYear := by
  refine monotone_nat_of_le_succ fun y => ?_
  unfold daysBeforeYear
  dsimp only
  omega

/-- The days before a year that lies some centuries, groups of four and single years into a cycle. -/
theorem daysBeforeYear_eq {q c f s : Nat} (hc : c ≤ 3) (hf : f ≤ 24) (hs : s ≤ 3) :
    daysBeforeYear (400 * q + 100 * c + 4 * f + s + 1) = 146097 * q + 36524 * c + 1461 * f + 365 * s := by
  unfold daysBeforeYear
  dsimp only
  omega

/-- The year of a day has begun, and it has not ended. -/
theorem splitYears_spec (day : Nat) : daysBeforeYear (splitYears day).1 + (splitYears day).2 = day ∧
    day < daysBeforeYear ((splitYears day).1 + 1) ∧ (splitYears day).2 ≤ 365 := by
  obtain ⟨q, c, f, s, r, hc, hf, hs, hsplit, hday, hr, hsingle, hcentury, hcycle⟩ : ∃ q c f s r, c ≤ 3 ∧ f ≤ 24 ∧ s ≤ 3 ∧
      splitYears day = (400 * q + 100 * c + 4 * f + s + 1, r) ∧
      day = 146097 * q + 36524 * c + 1461 * f + 365 * s + r ∧ r ≤ 365 ∧ (s < 3 → r < 365) ∧
      (c < 3 → 1461 * f + 365 * s + r < 36524) ∧ 36524 * c + 1461 * f + 365 * s + r < 146097 := by
    refine ⟨_, _, _, _, _, ?_, ?_, ?_, rfl, ?_⟩ <;> omega
  rw [hsplit]
  dsimp only
  refine ⟨by rw [daysBeforeYear_eq hc hf hs, hday], ?_, hr⟩
  -- The next year is the next one of the four, or the first of the next group, century or cycle.
  rcases Nat.lt_or_ge s 3 with h | h
  · have hnext := daysBeforeYear_eq (q := q) (s := s + 1) hc hf h
    rw [show 400 * q + 100 * c + 4 * f + s + 1 + 1 = 400 * q + 100 * c + 4 * f + (s + 1) + 1 by omega, hnext]
    omega
  · rcases Nat.lt_or_ge f 24 with h' | h'
    · have hnext := daysBeforeYear_eq (q := q) (f := f + 1) (s := 0) hc h' (Nat.zero_le 3)
      rw [show 400 * q + 100 * c + 4 * f + s + 1 + 1 = 400 * q + 100 * c + 4 * (f + 1) + 0 + 1 by omega, hnext]
      omega
    · rcases Nat.lt_or_ge c 3 with h'' | h''
      · have hnext := daysBeforeYear_eq (q := q) (c := c + 1) (f := 0) (s := 0) h'' (Nat.zero_le 24) (Nat.zero_le 3)
        rw [show 400 * q + 100 * c + 4 * f + s + 1 + 1 = 400 * q + 100 * (c + 1) + 4 * 0 + 0 + 1 by omega, hnext]
        omega
      · have hnext := daysBeforeYear_eq (q := q + 1) (c := 0) (f := 0) (s := 0) (Nat.zero_le 3) (Nat.zero_le 24)
          (Nat.zero_le 3)
        rw [show 400 * q + 100 * c + 4 * f + s + 1 + 1 = 400 * (q + 1) + 100 * 0 + 4 * 0 + 0 + 1 by omega, hnext]
        omega

/-- A later day is in a later year, or it is later in the same year. -/
theorem splitYears_lt {m n : Nat} (h : m < n) : (splitYears m).1 < (splitYears n).1 ∨
    (splitYears m).1 = (splitYears n).1 ∧ (splitYears m).2 < (splitYears n).2 := by
  obtain ⟨hm, -, -⟩ := splitYears_spec m
  obtain ⟨hn, hend, -⟩ := splitYears_spec n
  rcases Nat.lt_trichotomy (splitYears m).1 (splitYears n).1 with hlt | heq | hgt
  · exact Or.inl hlt
  · rw [← heq] at hn
    exact Or.inr ⟨heq, by omega⟩
  · have hnext : daysBeforeYear ((splitYears n).1 + 1) ≤ daysBeforeYear (splitYears m).1 := daysBeforeYear_mono hgt
    omega

end Years

section Months

private theorem le_splitMonths (month : Nat) (lengths : List Nat) (days : Nat) :
    month ≤ (splitMonths month lengths days).1 := by
  induction lengths generalizing month days with
  | nil => exact Nat.le_refl month
  | cons length rest ih =>
    rw [splitMonths]
    split
    · exact Nat.le_refl month
    · exact Nat.le_of_succ_le (ih (month + 1) (days - length))

theorem splitMonths_lt {month : Nat} {lengths : List Nat} {m n : Nat} (h : m < n) :
    (splitMonths month lengths m).1 < (splitMonths month lengths n).1 ∨
    (splitMonths month lengths m).1 = (splitMonths month lengths n).1 ∧
      (splitMonths month lengths m).2 < (splitMonths month lengths n).2 := by
  induction lengths generalizing month m n with
  | nil => exact Or.inr ⟨rfl, Nat.succ_lt_succ h⟩
  | cons length rest ih =>
    rw [splitMonths, splitMonths]
    by_cases hn : n < length
    · rw [if_pos hn, if_pos (Nat.lt_trans h hn)]
      exact Or.inr ⟨rfl, Nat.succ_lt_succ h⟩
    · rw [if_neg hn]
      by_cases hm : m < length
      · rw [if_pos hm]
        exact Or.inl (le_splitMonths (month + 1) rest (n - length))
      · rw [if_neg hm]
        exact ih (by omega)

theorem splitMonths_le (leap : Bool) : ∀ days ≤ 365, (splitMonths 1 (months leap) days).1 ≤ 13 ∧
    (splitMonths 1 (months leap) days).2 ≤ 31 := by
  cases leap <;> decide +kernel

end Months

def Before (d d' : Date) : Prop :=
  d.year < d'.year ∨ d.year = d'.year ∧ (d.month < d'.month ∨ d.month = d'.month ∧ d.day < d'.day)

theorem ofDay_before {m n : Nat} (h : m < n) : (ofDay m).Before (ofDay n) := by
  unfold ofDay
  dsimp only
  rcases splitYears_lt h with hyear | ⟨hyear, hdays⟩
  · exact Or.inl hyear
  · rw [← hyear]
    exact Or.inr ⟨rfl, splitMonths_lt hdays⟩

theorem ofDay_le (day : Nat) : (ofDay day).month ≤ 13 ∧ (ofDay day).day ≤ 31 :=
  splitMonths_le _ _ (splitYears_spec day).2.2

/-- No day of the calendar is behind its last year. -/
theorem ofDay_year_le {day : Nat} (h : day < dayCount) : (ofDay day).year ≤ maxYear := by
  obtain ⟨hday, -, -⟩ := splitYears_spec day
  have hlast : daysBeforeYear 10000 = dayCount := by decide
  by_contra hyear
  have : 10000 ≤ (splitYears day).1 := Nat.lt_of_not_le hyear
  have := daysBeforeYear_mono this
  omega

end Date

namespace Moment
open Text

variable {m m' : Moment} {s t : Text}

theorem eq_of_micros (h : m.micros = m'.micros) : m = m' := by
  cases m
  cases m'
  cases h
  rfl

theorem ahead_two {a b : Nat} (hb : b < 100) (h : a < b) : Ahead (two a) (two b) := ahead_ofNatPadded h hb

private theorem ahead_year {a b : Nat} (ha : 1000 ≤ a) (hb : b ≤ Date.maxYear) (h : a < b) :
    Ahead (ofNat a) (ofNat b) := by
  rw [← ofNatPadded_of_le (w := 3) ha, ← ofNatPadded_of_le (w := 3) (Nat.le_of_lt (Nat.lt_of_le_of_lt ha h))]
  exact ahead_ofNatPadded h (Nat.lt_succ_of_le hb)

theorem year_le (m : Moment) : m.date.year ≤ Date.maxYear :=
  Date.ofDay_year_le (Nat.div_lt_of_lt_mul (Nat.mul_comm _ _ ▸ m.micros_lt))

/-- A date of a year with four digits decides the order of two texts that begin with it, or what follows does. -/
theorem ahead_date (hm : 1000 ≤ m.date.year) (h : m.date.Before m'.date ∨ m.date = m'.date ∧ Ahead s t) :
    Ahead (ofNat m.date.year ++ monthDay m.date ++ s) (ofNat m'.date.year ++ monthDay m'.date ++ t) := by
  obtain ⟨hmonth, hday⟩ := Date.ofDay_le (m'.micros / microsPerDay)
  have month : m.date.month < m'.date.month → Ahead (two m.date.month) (two m'.date.month) :=
    ahead_two (Nat.lt_of_le_of_lt hmonth (by decide))
  have day : m.date.day < m'.date.day → Ahead (two m.date.day) (two m'.date.day) :=
    ahead_two (Nat.lt_of_le_of_lt hday (by decide))
  unfold monthDay
  simp only [List.append_assoc]
  refine .field (ahead_year hm m'.year_le) ?_
  rcases h with (hyear | ⟨hyear, hrest⟩) | ⟨hdate, hrest⟩
  · exact Or.inl hyear
  · refine Or.inr ⟨hyear, .prepend (.field month ?_) _⟩
    exact hrest.imp_right fun hrest => ⟨hrest.1, .prepend (.field day (Or.inl hrest.2)) _⟩
  · rw [hdate]
    exact Or.inr ⟨rfl, ((hrest.prepend _).prepend _).prepend _ |>.prepend _⟩

def Earlier (m m' : Moment) : Prop :=
  m.hour < m'.hour ∨ m.hour = m'.hour ∧
    (m.minute < m'.minute ∨ m.minute = m'.minute ∧ m.second < m'.second)

theorem ahead_time (sep : Text)
    (h : m.Earlier m' ∨ (m.hour = m'.hour ∧ m.minute = m'.minute ∧ m.second = m'.second) ∧ Ahead s t) :
    Ahead (m.timeOfDay sep ++ s) (m'.timeOfDay sep ++ t) := by
  have hour : m.hour < m'.hour → Ahead (two m.hour) (two m'.hour) :=
    ahead_two (Nat.lt_trans (Nat.mod_lt _ (by decide)) (by decide))
  have minute : m.minute < m'.minute → Ahead (two m.minute) (two m'.minute) :=
    ahead_two (Nat.lt_trans (Nat.mod_lt _ (by decide)) (by decide))
  have second : m.second < m'.second → Ahead (two m.second) (two m'.second) :=
    ahead_two (Nat.lt_trans (Nat.mod_lt _ (by decide)) (by decide))
  unfold timeOfDay
  simp only [List.append_assoc]
  refine .field hour ?_
  rcases h with (hhour | ⟨hhour, hrest⟩) | ⟨⟨hhour, hminute, hsecond⟩, hrest⟩
  · exact Or.inl hhour
  · refine Or.inr ⟨hhour, .prepend (.field minute ?_) _⟩
    exact hrest.imp_right fun hrest => ⟨hrest.1, .prepend (.field second (Or.inl hrest.2)) _⟩
  · rw [hminute, hsecond]
    exact Or.inr ⟨hhour, ((hrest.prepend _).prepend _).prepend _ |>.prepend _⟩

theorem day_eq (m : Moment) : m.micros / microsPerDay = m.micros / microsPerSecond / 60 / 60 / 24 := by
  rw [Nat.div_div_eq_div_mul, Nat.div_div_eq_div_mul, Nat.div_div_eq_div_mul]
  rfl

theorem hour_eq (m : Moment) : m.hour = m.micros / microsPerSecond / 60 / 60 % 24 := by
  rw [Nat.div_div_eq_div_mul, Nat.div_div_eq_div_mul]
  rfl

theorem minute_eq (m : Moment) : m.minute = m.micros / microsPerSecond / 60 % 60 := by
  rw [Nat.div_div_eq_div_mul]
  rfl

/-- A later instant is on a later date, or at a later time of the same date. -/
theorem fields_lt (h : m.micros < m'.micros) : m.date.Before m'.date ∨ m.date = m'.date ∧
    (m.Earlier m' ∨ (m.hour = m'.hour ∧ m.minute = m'.minute ∧ m.second = m'.second) ∧
      m.microsecond < m'.microsecond) := by
  rcases Nat.lt_or_ge (m.micros / microsPerDay) (m'.micros / microsPerDay) with hday | hday
  · exact Or.inl (Date.ofDay_before hday)
  · have hsame : m.micros / microsPerDay = m'.micros / microsPerDay :=
      Nat.le_antisymm (Nat.div_le_div_right (Nat.le_of_lt h)) hday
    refine Or.inr ⟨by rw [date, date, hsame], ?_⟩
    rw [day_eq, day_eq] at hsame
    unfold Earlier
    rw [hour_eq, hour_eq, minute_eq, minute_eq, second, second, microsecond, microsecond]
    unfold microsPerSecond at hsame ⊢
    omega

/-- Stamps of years with four digits are ordered like the instants. -/
theorem ahead_stamp (hm : 1000 ≤ m.date.year) (h : m.micros < m'.micros) : Ahead m.stamp m'.stamp := by
  have micros : m.microsecond < m'.microsecond → Ahead (ofNatPadded 6 m.microsecond) (ofNatPadded 6 m'.microsecond) :=
    fun h => ahead_ofNatPadded h (Nat.mod_lt _ (by decide))
  have hstamp : ∀ m : Moment, m.stamp = ofNat m.date.year ++ monthDay m.date ++
      ("_" ++ (m.timeOfDay [] ++ ("_" ++ ofNatPadded 6 m.microsecond))) := fun m => by
    rw [stamp, List.append_assoc, List.append_assoc, List.append_assoc _ _ (m.timeOfDay [] ++ _)]
  rw [hstamp, hstamp]
  refine ahead_date hm ((fields_lt h).imp_right fun h' => ⟨h'.1, .prepend (ahead_time [] ?_) _⟩)
  exact h'.2.imp_right fun h'' => ⟨h''.1, .prepend (micros h''.2) _⟩

end Moment

end Custody
