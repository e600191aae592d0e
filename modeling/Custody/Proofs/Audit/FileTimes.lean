import Custody.Audit.Files
import Custody.Proofs.Numeric.Nearest

/-! The times of files as doubles, and where they are told apart to the microsecond. -/
namespace Custody.Audit
open Nearest

private theorem abs_billionth_sub_le :
    |Nearest.round (mkRat 1 1000000000) - 1 / 1000000000| ≤ 2 ^ (-83 : ℤ) := by
  have hsmall : |(1 / 1000000000 : ℚ)| < 2 ^ (-29 : ℤ) := by norm_num [abs_of_pos]
  have hmk : mkRat 1 1000000000 = 1 / 1000000000 := by
    rw [Rat.mkRat_eq_div]
    norm_num
  rw [hmk]
  exact abs_round_sub_le hsmall

/-- A fraction of a second, counted in microseconds, as a double. -/
theorem abs_fraction_sub_lt {r : ℤ} (h0 : 0 ≤ r) (h1 : r < microsPerSecond) :
    |Nearest.round (Nearest.round (mkRat 1 1000000000) * (r * 1000 : ℤ)) - r / microsPerSecond| <
      2 ^ (-52 : ℤ) := by
  have hsecond : (microsPerSecond : ℚ) = 1000000 := rfl
  have hlast : r ≤ 999999 := Int.le_sub_one_of_lt h1
  have h0' : (0 : ℚ) ≤ r := by exact_mod_cast h0
  have h1' : (r : ℚ) ≤ 999999 := by exact_mod_cast hlast
  have hproduct : Nearest.round (mkRat 1 1000000000) * (r * 1000 : ℤ) - r / microsPerSecond =
      (Nearest.round (mkRat 1 1000000000) - 1 / 1000000000) * (r * 1000) := by
    rw [hsecond]
    push_cast
    ring
  generalize hs : Nearest.round (mkRat 1 1000000000) * (r * 1000 : ℤ) = s at *
  have hscaled : |s - r / microsPerSecond| ≤ 1 / 2 ^ 53 := by
    calc |s - r / microsPerSecond| = |Nearest.round (mkRat 1 1000000000) - 1 / 1000000000| * (r * 1000) := by
          rw [hproduct, abs_mul, abs_of_nonneg (mul_nonneg h0' (by norm_num) : (0 : ℚ) ≤ r * 1000)]
      _ ≤ 2 ^ (-83 : ℤ) * (999999 * 1000) :=
          mul_le_mul abs_billionth_sub_le (by linarith) (by positivity) (by positivity)
      _ ≤ 1 / 2 ^ 53 := by norm_num
  have hround : |Nearest.round s - s| ≤ 2 ^ (0 - 54 : ℤ) := by
    refine abs_round_sub_le ?_
    obtain ⟨hlow, hhigh⟩ := abs_le.1 hscaled
    rw [hsecond] at hlow hhigh
    rw [zpow_zero, abs_lt]
    constructor <;> linarith
  calc |Nearest.round s - r / microsPerSecond| ≤ |Nearest.round s - s| + |s - r / microsPerSecond| :=
        abs_sub_le _ _ _
    _ ≤ 2 ^ (0 - 54 : ℤ) + 1 / 2 ^ 53 := add_le_add hround hscaled
    _ < 2 ^ (-52 : ℤ) := by norm_num

/-- Before its last rounding the time of a file is off by less than `2 ^ -52` seconds, and whole seconds are
exact. -/
theorem fileSeconds_eq (m : ℤ) :
    ∃ δ : ℚ, |δ| < 2 ^ (-52 : ℤ) ∧ ((microsPerSecond : ℤ) ∣ m → δ = 0) ∧
      fileSeconds m = Nearest.round ((m : ℚ) / microsPerSecond + δ) := by
  have hr0 : 0 ≤ m % microsPerSecond := Int.emod_nonneg m (by decide)
  have hr1 : m % microsPerSecond < microsPerSecond := Int.emod_lt_of_pos m (by decide)
  have hm : (m : ℚ) / microsPerSecond =
      (m / microsPerSecond : ℤ) + (m % microsPerSecond : ℤ) / microsPerSecond := by
    have hsplit : (m : ℚ) = microsPerSecond * (m / microsPerSecond : ℤ) + (m % microsPerSecond : ℤ) := by
      exact_mod_cast (Int.mul_ediv_add_emod m microsPerSecond).symm
    rw [hsplit, add_div, mul_div_cancel_left₀ _ (by decide)]
  refine ⟨_, abs_fraction_sub_lt hr0 hr1, ?_, ?_⟩
  · intro hdvd
    rw [Int.emod_eq_zero_of_dvd hdvd, zero_mul, Int.cast_zero, mul_zero, zero_div, sub_zero, Nearest.round_zero]
  · unfold fileSeconds
    rw [hm, add_assoc, add_sub_cancel]

/-- The times, in microseconds since 1970, that doubles tell from their neighbours: more than nine hours from the
start of 1970, and less than 272 years. -/
def Distinct (c : ℤ) : Prop := 2 ^ 15 * (microsPerSecond : ℤ) ≤ |c| ∧ |c| < 2 ^ 33 * (microsPerSecond : ℤ)

theorem abs_seconds (c : ℤ) : |(c : ℚ) / microsPerSecond| = (|c| : ℤ) / microsPerSecond := by
  have hsecond : (0 : ℚ) < microsPerSecond := by decide
  rw [abs_div, abs_of_pos hsecond, Int.cast_abs]

theorem seconds_ne_zero {c : ℤ} (hdvd : ¬(microsPerSecond : ℤ) ∣ c) : (c : ℚ) / microsPerSecond ≠ 0 := by
  refine div_ne_zero (fun h => hdvd ?_) (by decide)
  rw [Int.cast_eq_zero.1 h]
  exact dvd_zero _

/-- A number of microseconds that is no whole number of seconds stays between the same powers of two when it is
changed a little. -/
theorem log_near {c : ℤ} {δ : ℚ} (hk : 0 ≤ Int.log 2 |(c : ℚ) / microsPerSecond|) (hδ : |δ| < 2 ^ (-52 : ℤ))
    (hdvd : ¬(microsPerSecond : ℤ) ∣ c) :
    Int.log 2 |(c : ℚ) / microsPerSecond + δ| = Int.log 2 |(c : ℚ) / microsPerSecond| := by
  have hsecond : (microsPerSecond : ℚ) = 1000000 := rfl
  have hz := seconds_ne_zero hdvd
  have hlow := zpow_log_le hz
  have hhigh := lt_zpow_log ((c : ℚ) / microsPerSecond)
  obtain ⟨n, hn⟩ := Int.eq_ofNat_of_zero_le hk
  rw [hn] at hlow hhigh ⊢
  have habs := abs_seconds c
  have hne : ∀ p : ℤ, |c| ≠ p * microsPerSecond := fun p h => hdvd ((dvd_abs _ _).1 ⟨p, by rw [h, mul_comm]⟩)
  have hlow' : (2 : ℤ) ^ n * microsPerSecond + 1 ≤ |c| := by
    rw [habs, le_div_iff₀ (by norm_num [hsecond]), zpow_natCast] at hlow
    have h : (2 : ℤ) ^ n * microsPerSecond ≤ |c| := by exact_mod_cast hlow
    exact Int.add_one_le_of_lt (lt_of_le_of_ne h (hne _).symm)
  have hhigh' : |c| + 1 ≤ (2 : ℤ) ^ (n + 1) * microsPerSecond := by
    rw [habs, div_lt_iff₀ (by norm_num [hsecond])] at hhigh
    exact_mod_cast hhigh
  have hlow'' : (2 : ℚ) ^ n + 1 / 1000000 ≤ |(c : ℚ) / microsPerSecond| := by
    rw [habs, le_div_iff₀ (by norm_num [hsecond]), hsecond]
    have h : (2 : ℚ) ^ n * 1000000 + 1 ≤ (|c| : ℤ) := by exact_mod_cast hlow'
    linarith
  have hhigh'' : |(c : ℚ) / microsPerSecond| + 1 / 1000000 ≤ (2 : ℚ) ^ (n + 1) := by
    rw [habs, hsecond]
    have h : ((|c| : ℤ) : ℚ) + 1 ≤ 2 ^ (n + 1) * 1000000 := by exact_mod_cast hhigh'
    linarith
  have htri := abs_add_le ((c : ℚ) / microsPerSecond) δ
  have htri' := abs_sub_abs_le_abs_add ((c : ℚ) / microsPerSecond) δ
  norm_num at hδ
  have hpos : (0 : ℚ) < 2 ^ n := by positivity
  refine log_eq (by linarith) ?_ ?_
  · rw [zpow_natCast]
    linarith
  · exact_mod_cast (by linarith : |(c : ℚ) / microsPerSecond + δ| < 2 ^ (n + 1))

/-- A midpoint in binary digits is not close to a number of microseconds. -/
theorem midpoint_add_le {c n : ℤ} {N : ℕ} (hN : 7 ≤ N) (h : (n : ℚ) - 1 / 2 ≤ c / 1000000 * 2 ^ N) :
    (n : ℚ) - 1 / 2 + 1 / 31250 ≤ c / 1000000 * 2 ^ N := by
  obtain ⟨M, rfl⟩ := Nat.exists_eq_add_of_le' hN
  rw [pow_add] at *
  generalize hX : c * 2 ^ M = X
  have hX' : (c : ℚ) * 2 ^ M = X := by exact_mod_cast hX
  have hle : ((2 * n - 1) * 15625 : ℚ) ≤ 4 * X := by
    rw [← hX']
    linarith
  have hle' : (2 * n - 1) * 15625 ≤ 4 * X := by exact_mod_cast hle
  have hlt : (2 * n - 1) * 15625 + 1 ≤ 4 * X := by omega
  have hlt' : ((2 * n - 1) * 15625 + 1 : ℚ) ≤ 4 * X := by exact_mod_cast hlt
  rw [← hX'] at hlt'
  linarith

/-- In this range no midpoint between two doubles comes between a number of microseconds and one very near. -/
theorem round_le_round_of_near {c : ℤ} {δ : ℚ} (hc : Distinct c) (hδ : |δ| < 2 ^ (-52 : ℤ))
    (hdvd : ¬(microsPerSecond : ℤ) ∣ c) :
    Nearest.round ((c : ℚ) / microsPerSecond) ≤ Nearest.round ((c : ℚ) / microsPerSecond + δ) := by
  have hsecond : (microsPerSecond : ℚ) = 1000000 := rfl
  have hz := seconds_ne_zero hdvd
  have habs := abs_seconds c
  have hk15 : 15 ≤ Int.log 2 |(c : ℚ) / microsPerSecond| := by
    refine (Int.zpow_le_iff_le_log (b := 2) (by norm_num) (abs_pos.2 hz)).1 ?_
    rw [habs, le_div_iff₀ (by norm_num [hsecond])]
    exact_mod_cast hc.1
  have hk32 : Int.log 2 |(c : ℚ) / microsPerSecond| < 33 := by
    refine (Int.lt_zpow_iff_log_lt (b := 2) (by norm_num) (abs_pos.2 hz)).1 ?_
    rw [habs, div_lt_iff₀ (by norm_num [hsecond])]
    exact_mod_cast hc.2
  have hlog := log_near (by omega) hδ hdvd
  have hz' : (c : ℚ) / microsPerSecond + δ ≠ 0 := by
    intro h
    rw [h, abs_zero, Int.log_zero_right] at hlog
    omega
  obtain ⟨n, hn, hr⟩ := round_spec hz
  obtain ⟨n', hn', hr'⟩ := round_spec hz'
  have hdigit : lastDigit ((c : ℚ) / microsPerSecond + δ) = lastDigit ((c : ℚ) / microsPerSecond) := by
    rw [lastDigit, lastDigit, hlog]
  have hd := lastDigit_pos ((c : ℚ) / microsPerSecond)
  rw [hdigit] at hn' hr'
  rw [hr, hr']
  refine mul_le_mul_of_nonneg_right ?_ hd.le
  obtain ⟨N, hN⟩ : ∃ N : ℕ, Int.log 2 |(c : ℚ) / microsPerSecond| = 52 - N :=
    ⟨(52 - Int.log 2 |(c : ℚ) / microsPerSecond|).toNat, by omega⟩
  have hscale : ∀ x : ℚ, x / lastDigit ((c : ℚ) / microsPerSecond) = x * 2 ^ N := by
    intro x
    rw [lastDigit, hN, sub_sub_cancel_left, zpow_neg, div_inv_eq_mul, zpow_natCast]
  have hmid : (n : ℚ) - 1 / 2 ≤ c / 1000000 * 2 ^ N := by
    rw [← hsecond, ← hscale]
    exact hn.le
  have hfar := midpoint_add_le (by omega) hmid
  have hbelow := hn'.ge
  rw [hscale, hsecond, add_mul] at hbelow
  have hshift : |δ * 2 ^ N| < 1 / 31250 := by
    have hN' : (2 : ℚ) ^ N ≤ 2 ^ 37 := pow_le_pow_right₀ (by norm_num) (by omega)
    calc |δ * 2 ^ N| = |δ| * 2 ^ N := by rw [abs_mul, abs_of_pos (by positivity : (0 : ℚ) < 2 ^ N)]
      _ ≤ 2 ^ (-52 : ℤ) * 2 ^ 37 := mul_le_mul hδ.le hN' (by positivity) (by positivity)
      _ < 1 / 31250 := by norm_num
  have hlt : (n : ℚ) - 1 < n' := by linarith [(abs_lt.1 hshift).1]
  have hle : n - 1 < n' := by exact_mod_cast hlt
  exact_mod_cast (by omega : n ≤ n')

/-- In this range a file is judged by its time in microseconds, though the times are compared as doubles. -/
theorem round_le_fileSeconds_iff {c : ℤ} (hc : Distinct c) (m : ℤ) :
    Nearest.round ((c : ℚ) / microsPerSecond) ≤ fileSeconds m ↔ c ≤ m := by
  obtain ⟨δ, hδ, hwhole, hm⟩ := fileSeconds_eq m
  have hsecond : (microsPerSecond : ℚ) = 1000000 := rfl
  rw [hm]
  obtain ⟨hδ1, hδ2⟩ := abs_lt.1 hδ
  norm_num at hδ1 hδ2
  rcases lt_trichotomy m c with h | rfl | h
  · -- a microsecond is more than the last digit, and more than what the file's time is off by
    refine iff_of_false (not_le.2 ?_) (by omega)
    have hlow : -(2 ^ 33 * (microsPerSecond : ℤ)) + 1 ≤ c := Int.add_one_le_of_lt (abs_lt.1 hc.2).1
    have hlow' : -(2 ^ 33 * 1000000 : ℚ) + 1 ≤ c := by exact_mod_cast hlow
    have hhigh : (c : ℚ) < 2 ^ 33 * 1000000 := by exact_mod_cast (abs_lt.1 hc.2).2
    have hmc : (m : ℚ) ≤ c - 1 := by exact_mod_cast Int.le_sub_one_of_lt h
    rw [hsecond]
    calc Nearest.round ((m : ℚ) / 1000000 + δ) ≤ Nearest.round (((c : ℚ) - 1) / 1000000 + 1 / 2 ^ 52) :=
          round_mono (by norm_num; linarith)
      _ < Nearest.round ((c : ℚ) / 1000000) := by
          refine round_lt_round (k := 33) ?_ ?_ ?_
          · rw [abs_lt]
            norm_num
            constructor <;> linarith
          · rw [abs_lt]
            norm_num
            constructor <;> linarith
          · norm_num
            linarith
  · by_cases hd : (microsPerSecond : ℤ) ∣ m
    · rw [hwhole hd, add_zero]
      exact iff_of_true le_rfl le_rfl
    · exact iff_of_true (round_le_round_of_near hc hδ hd) le_rfl
  · refine iff_of_true (round_mono ?_) (by omega)
    have hcm : (c : ℚ) + 1 ≤ m := by exact_mod_cast h
    rw [hsecond]
    linarith

theorem seconds_le_fileSeconds_iff {cutoff : Moment} (hc : Distinct cutoff.sinceEpoch) (m : ℤ) :
    seconds cutoff ≤ fileSeconds m ↔ cutoff.sinceEpoch ≤ m := by
  rw [seconds, Rat.mkRat_eq_div]
  exact round_le_fileSeconds_iff hc m

end Custody.Audit
