import Custody.Calendar.Timestamp
import Custody.Proofs.Calendar.Dates

/-! Time stamps in universal time: each is the instant of what it was written as, and to the millisecond their texts are
in the order of time. -/
namespace Custody

namespace Moment
open Text

variable {m m' : Moment}

section Fields

def clock (m : Moment) : Timestamp.Clock := ⟨[m.hour, m.minute, m.second], m.microsecond⟩

def reading (m : Moment) : Timestamp := ⟨m.date.toDay * microsPerDay + m.clock.total, some 0⟩

theorem ofMicros?_eq_some {n : Int} : ofMicros? n = some m ↔ (m.micros : Int) = n := by
  unfold ofMicros?
  split
  · next h =>
    have hnat : (n.toNat : Int) = n := Int.toNat_of_nonneg h.1
    rw [Option.some.injEq]
    exact ⟨fun hm => hm ▸ hnat, fun hm => eq_of_micros (Int.ofNat.inj (hnat.trans hm.symm))⟩
  · next h =>
    refine iff_of_false (fun hm => by cases hm) fun hm => h ?_
    rw [← hm, Int.toNat_natCast]
    exact ⟨Int.natCast_nonneg _, m.micros_lt⟩

theorem day_lt (m : Moment) : m.micros / microsPerDay < Date.dayCount :=
  Nat.div_lt_of_lt_mul (Nat.mul_comm _ _ ▸ m.micros_lt)

theorem clock_isValid (m : Moment) : m.clock.isValid = true := by
  have hhour : m.hour < 24 := Nat.mod_lt _ (by decide)
  have hminute : m.minute < 60 := Nat.mod_lt _ (by decide)
  have hsecond : m.second < 60 := Nat.mod_lt _ (by decide)
  simp [clock, Timestamp.Clock.isValid, hhour, hminute, hsecond]

private theorem total_clock (m : Moment) : m.clock.total = m.micros % microsPerDay := by
  have htotal : m.clock.total = (m.hour * 3600 + m.minute * 60 + m.second) * microsPerSecond + m.microsecond := rfl
  rw [htotal, hour_eq, minute_eq, second, microsecond]
  unfold microsPerDay microsPerSecond
  omega

/-- The date and the time of day of an instant name this instant. -/
theorem reading_instant (m : Moment) : m.reading.instant = m.micros := by
  have hlocal : m.reading.localMicros = m.micros := by
    rw [reading, total_clock, date, Date.toDay_ofDay, Nat.mul_comm]
    exact Nat.div_add_mod m.micros microsPerDay
  rw [Timestamp.instant, hlocal]
  exact Int.sub_zero _

/-- The fields of an instant are a date of the calendar and a time of day, and they name an instant. -/
structure Shows (m : Moment) (instant : Int) : Prop where
  date : m.date.isValid = true
  clock : m.clock.isValid = true
  fraction : m.microsecond < microsPerSecond
  instant : m.reading.instant = instant

theorem shows_iff {instant : Int} : m.Shows instant ↔ (m.micros : Int) = instant := by
  constructor
  · intro h
    rw [← m.reading_instant]
    exact h.instant
  · rintro rfl
    exact ⟨Date.isValid_ofDay m.day_lt, m.clock_isValid, Nat.mod_lt _ (by decide), m.reading_instant⟩

end Fields

section Milliseconds

/-- An instant without what is left of its last millisecond. -/
def toMillis (m : Moment) : Moment :=
  ⟨m.micros / 1000 * 1000, Nat.lt_of_le_of_lt (Nat.div_mul_le_self m.micros 1000) m.micros_lt⟩

theorem micros_toMillis_div (m : Moment) (k : Nat) : m.toMillis.micros / (1000 * k) = m.micros / (1000 * k) := by
  rw [toMillis, ← Nat.div_div_eq_div_mul, ← Nat.div_div_eq_div_mul, Nat.mul_div_cancel _ (by decide)]

theorem date_toMillis (m : Moment) : m.toMillis.date = m.date :=
  congrArg Date.ofDay (micros_toMillis_div m 86400000)

private theorem timeOfDay_toMillis (m : Moment) (sep : Text) :
    m.toMillis.timeOfDay sep = m.timeOfDay sep := by
  have hhour : m.toMillis.hour = m.hour := congrArg (· % 24) (micros_toMillis_div m 3600000)
  have hminute : m.toMillis.minute = m.minute := congrArg (· % 60) (micros_toMillis_div m 60000)
  have hsecond : m.toMillis.second = m.second := congrArg (· % 60) (micros_toMillis_div m 1000)
  rw [timeOfDay, timeOfDay, hhour, hminute, hsecond]

theorem microsecond_toMillis (m : Moment) : m.toMillis.microsecond = m.microsecond / 1000 * 1000 := by
  unfold toMillis microsecond microsPerSecond
  dsimp only
  omega

/-- Only the milliseconds of an instant are written. -/
theorem isoMillis_toMillis (m : Moment) : m.toMillis.isoMillis = m.isoMillis := by
  rw [isoMillis, isoMillis, date_toMillis, timeOfDay_toMillis, microsecond_toMillis, Nat.mul_div_cancel _ (by decide)]

/-- Texts of years with four digits are ordered like the instants, if these lie in different milliseconds. -/
theorem ahead_isoMillis (hm : 1000 ≤ m.date.year) (h : m.micros / 1000 < m'.micros / 1000) :
    Ahead m.isoMillis m'.isoMillis := by
  have hmillis : ∀ m : Moment, m.toMillis.microsecond / 1000 < 1000 := fun m =>
    Nat.div_lt_of_lt_mul (Nat.mod_lt _ (by decide))
  have hnumber : m.toMillis.microsecond < m'.toMillis.microsecond →
      Ahead (ofNatPadded 3 (m.toMillis.microsecond / 1000)) (ofNatPadded 3 (m'.toMillis.microsecond / 1000)) := by
    intro hlt
    refine ahead_ofNatPadded ?_ (hmillis m')
    rw [microsecond_toMillis, microsecond_toMillis] at hlt ⊢
    omega
  have htext : ∀ m : Moment, m.isoMillis = ofNat m.date.year ++ monthDay m.date ++
      ("T" ++ (m.timeOfDay ":" ++ ("." ++ (ofNatPadded 3 (m.microsecond / 1000) ++ "Z")))) := fun m => by
    simp only [isoMillis, List.append_assoc]
  have hlt : m.toMillis.micros < m'.toMillis.micros := Nat.mul_lt_mul_of_pos_right h (by decide)
  rw [← isoMillis_toMillis m, ← isoMillis_toMillis m', htext, htext]
  rw [← date_toMillis] at hm
  refine ahead_date hm ((fields_lt hlt).imp_right fun hsame => ⟨hsame.1, .prepend (ahead_time ":" ?_) _⟩)
  exact hsame.2.imp_right fun hsame => ⟨hsame.1, .prepend ((hnumber hsame.2).append _ _) _⟩

theorem isoMillis_congr (h : m.micros / 1000 = m'.micros / 1000) : m.isoMillis = m'.isoMillis := by
  have hsame : m.toMillis = m'.toMillis := eq_of_micros (congrArg (· * 1000) h)
  rw [← isoMillis_toMillis, hsame, isoMillis_toMillis]

/-- Texts of years with four digits are in the order of the milliseconds. -/
theorem le_isoMillis_iff (hm : 1000 ≤ m.date.year) (hm' : 1000 ≤ m'.date.year) :
    m.isoMillis.le m'.isoMillis = true ↔ m.micros / 1000 ≤ m'.micros / 1000 := by
  rcases Nat.lt_trichotomy (m.micros / 1000) (m'.micros / 1000) with hlt | heq | hgt
  · exact iff_of_true (ahead_isoMillis hm hlt).le (Nat.le_of_lt hlt)
  · rw [isoMillis_congr heq]
    exact iff_of_true (le_refl _) (Nat.le_of_eq heq)
  · have hahead := ahead_isoMillis hm' hgt
    exact iff_of_false (fun hle => hahead.ne (le_antisymm hahead.le hle)) (Nat.not_le_of_lt hgt)

theorem isoMillis_eq_iff (hm : 1000 ≤ m.date.year) (hm' : 1000 ≤ m'.date.year) :
    m.isoMillis = m'.isoMillis ↔ m.micros / 1000 = m'.micros / 1000 := by
  refine ⟨fun heq => Nat.le_antisymm ?_ ?_, isoMillis_congr⟩
  · rw [← le_isoMillis_iff hm hm', heq]
    exact le_refl _
  · rw [← le_isoMillis_iff hm' hm, heq]
    exact le_refl _

end Milliseconds

end Moment

namespace Timestamp
variable {t : Timestamp} {m : Moment} {year : Nat}

section Universal

theorem toUtc_eq_ok : t.toUtc = .ok m ↔ (m.micros : Int) = t.instant := by
  rw [← Moment.ofMicros?_eq_some, toUtc]
  cases Moment.ofMicros? t.instant with
  | none => exact iff_of_false (fun h => by cases h) (fun h => by cases h)
  | some m' => rw [Except.ok.injEq, Option.some.injEq]

theorem toUtc_error {f : Failure} (h : t.toUtc = .error f) : f = .overflow := by
  unfold toUtc at h
  split at h
  · cases h
  · cases h
    rfl

end Universal

section Years

/-- The instant of a time stamp lies in a year, counted in universal time. -/
def InYear (t : Timestamp) (year : Nat) : Prop :=
  (Date.daysBeforeYear year * microsPerDay : Nat) ≤ t.instant ∧
    t.instant < (Date.daysBeforeYear (year + 1) * microsPerDay : Nat)

/-- An instant lies in the year of its date and in no other. -/
theorem inYear_iff (h : t.toUtc = .ok m) : t.InYear year ↔ m.date.year = year := by
  have hinstant := toUtc_eq_ok.1 h
  obtain ⟨hday, hend, -⟩ := Date.splitYears_spec (m.micros / microsPerDay)
  have hyear : (Date.splitYears (m.micros / microsPerDay)).1 = m.date.year := rfl
  rw [hyear] at hday hend
  have hin : t.InYear year ↔ Date.daysBeforeYear year ≤ m.micros / microsPerDay ∧
      m.micros / microsPerDay < Date.daysBeforeYear (year + 1) := by
    rw [Nat.le_div_iff_mul_le (by decide), Nat.div_lt_iff_lt_mul (by decide), InYear, ← hinstant, Int.ofNat_le,
      Int.ofNat_lt]
  rw [hin]
  constructor
  · rintro ⟨hfirst, hlast⟩
    by_contra hne
    rcases Nat.lt_or_gt_of_ne hne with hlt | hgt
    · have : Date.daysBeforeYear (m.date.year + 1) ≤ Date.daysBeforeYear year := Date.daysBeforeYear_mono hlt
      omega
    · have : Date.daysBeforeYear (year + 1) ≤ Date.daysBeforeYear m.date.year := Date.daysBeforeYear_mono hgt
      omega
  · rintro rfl
    omega

/-- The instant lies in one of the years from the one to the other. -/
def InYears (t : Timestamp) (first last : Nat) : Prop := ∃ year, first ≤ year ∧ year ≤ last ∧ t.InYear year

/-- Instants of the years of the calendar, and only these, have a date and a time of day. -/
theorem exists_toUtc_iff : (∃ m, t.toUtc = .ok m) ↔ t.InYears 1 Date.maxYear := by
  constructor
  · rintro ⟨m, hm⟩
    exact ⟨m.date.year, Date.splitYears_year_pos _, m.year_le, (inYear_iff hm).2 rfl⟩
  · rintro ⟨year, -, hlast, hfirst, hend⟩
    have hlt : Date.daysBeforeYear (year + 1) * microsPerDay ≤ Date.dayCount * microsPerDay := by
      refine Nat.mul_le_mul_right _ ?_
      have hcount : Date.dayCount = Date.daysBeforeYear (Date.maxYear + 1) := by decide
      rw [hcount]
      exact Date.daysBeforeYear_mono (Nat.succ_le_succ hlast)
    have hnat : (t.instant.toNat : Int) = t.instant := Int.toNat_of_nonneg (by omega)
    exact ⟨⟨t.instant.toNat, by omega⟩, toUtc_eq_ok.2 hnat⟩

private theorem toUtc_eq_overflow : t.toUtc = .error .overflow ↔ ¬t.InYears 1 Date.maxYear := by
  rw [← exists_toUtc_iff]
  cases h : t.toUtc with
  | ok m => exact iff_of_false (fun h => by cases h) (not_not.2 ⟨m, rfl⟩)
  | error f =>
    rw [toUtc_error h]
    exact iff_of_true rfl fun ⟨m, hm⟩ => by cases hm

end Years

/-- Time stamps of any offset, or of none, are written in the order of time if their years in universal time take four
digits: two texts are ordered, or equal, like the milliseconds of the instants. The conversion to universal time keeps
the instant, which the date and the time of day in its result name, and overflows exactly where the calendar has no year
for the instant. -/
theorem texts_keep_time :
    (∀ s t : Timestamp, s.InYears 1000 9999 → t.InYears 1000 9999 → ∃ m n, s.toUtc = .ok m ∧ t.toUtc = .ok n ∧
      (m.isoMillis.le n.isoMillis = true ↔ s.instant / 1000 ≤ t.instant / 1000) ∧
      (m.isoMillis = n.isoMillis ↔ s.instant / 1000 = t.instant / 1000)) ∧
    (∀ (t : Timestamp) (m : Moment), t.toUtc = .ok m ↔ m.Shows t.instant) ∧
    ∀ t : Timestamp, (t.toUtc = .error .overflow ↔ ¬t.InYears 1 9999) ∧ ∀ f, t.toUtc = .error f → f = .overflow := by
  refine ⟨?_, fun t m => toUtc_eq_ok.trans Moment.shows_iff.symm, fun t => ⟨toUtc_eq_overflow, fun f => toUtc_error⟩⟩
  have hwritten : ∀ t : Timestamp, t.InYears 1000 9999 → ∃ m, t.toUtc = .ok m ∧ 1000 ≤ m.date.year := by
    rintro t ⟨year, hfirst, hlast, hyear⟩
    obtain ⟨m, hm⟩ := exists_toUtc_iff.2 ⟨year, Nat.le_trans (by decide) hfirst, hlast, hyear⟩
    exact ⟨m, hm, (inYear_iff hm).1 hyear ▸ hfirst⟩
  intro s t hs ht
  obtain ⟨m, hm, hyear⟩ := hwritten s hs
  obtain ⟨n, hn, hyear'⟩ := hwritten t ht
  refine ⟨m, n, hm, hn, ?_, ?_⟩
  · rw [Moment.le_isoMillis_iff hyear hyear', ← toUtc_eq_ok.1 hm, ← toUtc_eq_ok.1 hn]
    omega
  · rw [Moment.isoMillis_eq_iff hyear hyear', ← toUtc_eq_ok.1 hm, ← toUtc_eq_ok.1 hn]
    omega

/-- The last microsecond of a leap day, behind universal time by one more, and a time without an offset in the same
millisecond. The first microsecond of year 1 is too early for a time ahead of universal time. -/
theorem texts_keep_time_of_leap_day :
    let s : Timestamp := ⟨Date.toDay ⟨2024, 2, 29⟩ * microsPerDay + 86399999999, some (-1)⟩
    let t : Timestamp := ⟨Date.toDay ⟨2024, 3, 1⟩ * microsPerDay + 999, none⟩
    let u : Timestamp := ⟨0, some 1⟩
    s.InYears 1000 9999 ∧ t.InYears 1000 9999 ∧
    (∃ m n, s.toUtc = .ok m ∧ t.toUtc = .ok n ∧ m.Shows s.instant ∧ m.isoMillis = n.isoMillis ∧
      n.isoMillis = Text.ofString "2024-03-01T00:00:00.000Z") ∧
    u.toUtc = .error .overflow ∧ ¬u.InYears 1 9999 := by
  intro s t u
  have hs : s.InYears 1000 9999 := ⟨2024, by decide, by decide, by decide, by decide⟩
  have ht : t.InYears 1000 9999 := ⟨2024, by decide, by decide, by decide, by decide⟩
  have hu : u.toUtc = .error .overflow := by decide +kernel
  obtain ⟨m, n, hm, hn, -, hsame⟩ := texts_keep_time.1 s t hs ht
  refine ⟨hs, ht, ⟨m, n, hm, hn, (texts_keep_time.2.1 s m).1 hm, hsame.2 (by decide), ?_⟩, hu,
    (texts_keep_time.2.2 u).1.1 hu⟩
  have htext : (do return (← t.toUtc).isoMillis : Except Failure Text) =
      .ok (Text.ofString "2024-03-01T00:00:00.000Z") := by
    decide +kernel
  rw [hn] at htext
  exact Except.ok.inj htext

end Timestamp

end Custody
