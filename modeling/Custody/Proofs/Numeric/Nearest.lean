import Custody.Numeric.Nearest
import Mathlib.Algebra.Order.Field.Power
import Mathlib.Data.Int.Log
import Mathlib.Data.Rat.Floor
import Mathlib.Tactic.FieldSimp
import Mathlib.Tactic.Linarith
import Mathlib.Tactic.NormNum
import Mathlib.Tactic.Positivity
import Mathlib.Tactic.Ring

/-! Rounding to 53 binary digits over the rationals: it keeps the order, and it is off by half of the last
digit at most. -/
namespace Custody.Nearest

/-- An integer nearest to a rational, and the even one where there are two. -/
structure IsNearest (x : ℚ) (n : ℤ) : Prop where
  error : |(n : ℚ) - x| ≤ 1 / 2
  even : |(n : ℚ) - x| = 1 / 2 → Even n

namespace IsNearest
variable {x y : ℚ} {m n : ℤ}

theorem le (h : IsNearest x n) : (n : ℚ) - 1 / 2 ≤ x := by
  linarith [(abs_le.1 h.error).2]

theorem ge (h : IsNearest x n) : x ≤ (n : ℚ) + 1 / 2 := by
  linarith [(abs_le.1 h.error).1]

theorem neg (h : IsNearest x n) : IsNearest (-x) (-n) := by
  have hd : |((-n : ℤ) : ℚ) - -x| = |(n : ℚ) - x| := by
    rw [← abs_neg]
    congr 1
    push_cast
    ring
  exact ⟨hd ▸ h.error, fun he => (h.even (hd ▸ he)).neg⟩

/-- Neighbours that are both nearest lie around a midpoint, and only one of them is even. -/
theorem mono (hx : IsNearest x m) (hy : IsNearest y n) (h : x ≤ y) : m ≤ n := by
  by_contra hlt
  have hstep : (n : ℚ) + 1 ≤ m := by exact_mod_cast (by omega : n + 1 ≤ m)
  have hmx : (m : ℚ) - x = 1 / 2 := le_antisymm (abs_le.1 hx.error).2 (by linarith [hy.ge])
  have hny : (n : ℚ) - y = -(1 / 2) := le_antisymm (by linarith [hx.le]) (abs_le.1 hy.error).1
  have hm : Even m := hx.even (by rw [hmx]; norm_num)
  have hn : Even n := hy.even (by rw [hny]; norm_num)
  have hmn : (m : ℚ) ≤ n + 1 := by linarith
  have hsucc : m = n + 1 := le_antisymm (by exact_mod_cast hmn) (by omega)
  obtain ⟨a, rfl⟩ := hm
  obtain ⟨b, rfl⟩ := hn
  omega

theorem intCast (n : ℤ) : IsNearest n n := ⟨by norm_num, fun h => by norm_num at h⟩

/-- The integer stays between integers. -/
theorem le_of_le (h : IsNearest x n) (hx : (m : ℚ) ≤ x) : m ≤ n := (intCast m).mono h hx

theorem ge_of_ge (h : IsNearest x n) (hx : x ≤ m) : n ≤ m := h.mono (intCast m) hx

/-- A fraction that is no more than a half is dropped. -/
theorem down {q : ℤ} {f : ℚ} (h0 : 0 ≤ f) (h1 : f ≤ 1 / 2) (he : f = 1 / 2 → Even q) : IsNearest (q + f) q := by
  have hd : |(q : ℚ) - (q + f)| = f := by rw [sub_add_cancel_left, abs_neg, abs_of_nonneg h0]
  exact ⟨by rwa [hd], fun h => he (by rwa [hd] at h)⟩

/-- A fraction that is no less than a half is filled up. -/
theorem up {q : ℤ} {f : ℚ} (h1 : f < 1) (h2 : 1 / 2 ≤ f) (he : f = 1 / 2 → Even (q + 1)) :
    IsNearest (q + f) (q + 1 : ℤ) := by
  have hd : |((q + 1 : ℤ) : ℚ) - (q + f)| = 1 - f := by
    rw [Int.cast_add, Int.cast_one, add_sub_add_left_eq_sub, abs_of_pos (by linarith)]
  exact ⟨by rw [hd]; linarith, fun h => he (by rw [hd] at h; linarith)⟩

end IsNearest

theorem isNearest_roundDiv {num den : Nat} (h : 0 < den) : IsNearest ((num : ℚ) / den) (roundDiv num den) := by
  have hd : (0 : ℚ) < den := by exact_mod_cast h
  have hx : (num : ℚ) / den = ((num / den : Nat) : ℤ) + ((num % den : Nat) : ℚ) / den := by
    have hnum : (num : ℚ) = den * (num / den : Nat) + (num % den : Nat) := by
      exact_mod_cast (Nat.div_add_mod num den).symm
    rw [hnum, Int.cast_natCast]
    field_simp
  have h0 : 0 ≤ ((num % den : Nat) : ℚ) / den := by positivity
  have h1 : ((num % den : Nat) : ℚ) / den < 1 := by
    rw [div_lt_one hd]
    exact_mod_cast Nat.mod_lt num h
  have hlt : ((num % den : Nat) : ℚ) / den < 1 / 2 ↔ 2 * (num % den) < den := by
    rw [div_lt_div_iff₀ hd (by norm_num), one_mul, mul_comm]
    exact_mod_cast Iff.rfl
  have hgt : 1 / 2 < ((num % den : Nat) : ℚ) / den ↔ den < 2 * (num % den) := by
    rw [div_lt_div_iff₀ (by norm_num) hd, one_mul, mul_comm _ 2]
    exact_mod_cast Iff.rfl
  rw [hx]
  unfold roundDiv
  dsimp only
  split_ifs with hdown hup heven
  · exact .down h0 (hlt.2 hdown).le fun he => absurd he (hlt.2 hdown).ne
  · exact .up h1 (hgt.2 hup).le fun he => absurd he (hgt.2 hup).ne'
  · exact .down h0 (not_lt.1 fun hc => hup (hgt.1 hc)) fun _ => by
      rw [Int.even_coe_nat]
      exact Nat.even_iff.2 heven
  · exact .up h1 (not_lt.1 fun hc => hdown (hlt.1 hc)) fun _ => by
      rw [← Int.natCast_one, ← Int.natCast_add, Int.even_coe_nat, Nat.even_iff]
      omega

theorem shiftLeft_toNat {e : ℤ} (he : 0 ≤ e) (n : Nat) : ((n <<< e.toNat : Nat) : ℚ) = n * 2 ^ e := by
  obtain ⟨k, rfl⟩ := Int.eq_ofNat_of_zero_le he
  rw [Int.toNat_natCast, Nat.shiftLeft_eq, zpow_natCast]
  push_cast
  rfl

private theorem reached_iff (num : Nat) {den : Nat} (hd : 0 < den) (g : ℤ) :
    (if 0 ≤ g then den <<< g.toNat ≤ num else den ≤ num <<< (-g).toNat : Bool) = true ↔
      (2 : ℚ) ^ g ≤ num / den := by
  have hd' : (0 : ℚ) < den := by exact_mod_cast hd
  rw [le_div_iff₀ hd']
  split
  · next h =>
    rw [decide_eq_true_iff, ← Nat.cast_le (α := ℚ), shiftLeft_toNat h, mul_comm]
  · next h =>
    rw [decide_eq_true_iff, ← Nat.cast_le (α := ℚ), shiftLeft_toNat (by omega), zpow_neg, ← div_eq_mul_inv,
      le_div_iff₀ (by positivity), mul_comm]

/-- The exponent of a quotient: the quotient lies between two powers of two. -/
theorem log2Div_spec {num den : Nat} (hn : 0 < num) (hd : 0 < den) :
    (2 : ℚ) ^ log2Div num den ≤ num / den ∧ (num : ℚ) / den < 2 ^ (log2Div num den + 1) := by
  have hd' : (0 : ℚ) < den := by exact_mod_cast hd
  have two : (2 : ℚ) ≠ 0 := by norm_num
  have hnum : (2 : ℚ) ^ (Nat.log2 num : ℤ) ≤ num ∧ (num : ℚ) < 2 ^ (Nat.log2 num + 1 : ℤ) := by
    exact_mod_cast And.intro (Nat.log2_self_le hn.ne') (Nat.lt_log2_self (n := num))
  have hden : (2 : ℚ) ^ (Nat.log2 den : ℤ) ≤ den ∧ (den : ℚ) < 2 ^ (Nat.log2 den + 1 : ℤ) := by
    exact_mod_cast And.intro (Nat.log2_self_le hd.ne') (Nat.lt_log2_self (n := den))
  generalize hg : (Nat.log2 num : ℤ) - Nat.log2 den = g
  have hlow : (2 : ℚ) ^ (g - 1) ≤ num / den := by
    rw [le_div_iff₀ hd']
    calc (2 : ℚ) ^ (g - 1) * den ≤ 2 ^ (g - 1) * 2 ^ (Nat.log2 den + 1 : ℤ) :=
          mul_le_mul_of_nonneg_left hden.2.le (by positivity)
      _ = 2 ^ (Nat.log2 num : ℤ) := by rw [← zpow_add₀ two]; congr 1; omega
      _ ≤ num := hnum.1
  have hhigh : (num : ℚ) / den < 2 ^ (g + 1) := by
    rw [div_lt_iff₀ hd']
    calc (num : ℚ) < 2 ^ (Nat.log2 num + 1 : ℤ) := hnum.2
      _ = 2 ^ (g + 1) * 2 ^ (Nat.log2 den : ℤ) := by rw [← zpow_add₀ two]; congr 1; omega
      _ ≤ 2 ^ (g + 1) * den := mul_le_mul_of_nonneg_left hden.1 (by positivity)
  have hreached := reached_iff num hd g
  unfold log2Div
  dsimp only
  rw [hg]
  generalize (if 0 ≤ g then den <<< g.toNat ≤ num else den ≤ num <<< (-g).toNat : Bool) = reached at *
  cases reached with
  | true => exact ⟨hreached.1 rfl, hhigh⟩
  | false =>
    refine ⟨hlow, ?_⟩
    rw [if_neg (by decide), sub_add_cancel]
    exact not_le.1 fun hc => absurd (hreached.2 hc) (by decide)

theorem log_eq {x : ℚ} {k : ℤ} (hx : 0 < x) (hlow : 2 ^ k ≤ x) (hhigh : x < 2 ^ (k + 1)) : Int.log 2 x = k := by
  have h1 := (Int.zpow_le_iff_le_log (b := 2) (by norm_num) hx).1 (by exact_mod_cast hlow)
  have h2 := (Int.lt_zpow_iff_log_lt (b := 2) (by norm_num) hx).1 (by exact_mod_cast hhigh)
  omega

theorem log2Div_eq {num den : Nat} (hn : 0 < num) (hd : 0 < den) :
    log2Div num den = Int.log 2 ((num : ℚ) / den) := by
  have hpos : (0 : ℚ) < num / den := div_pos (by exact_mod_cast hn) (by exact_mod_cast hd)
  obtain ⟨hlow, hhigh⟩ := log2Div_spec hn hd
  exact (log_eq hpos hlow hhigh).symm

/-- What the last of 53 binary digits of a number stands for. -/
def lastDigit (x : ℚ) : ℚ := 2 ^ (Int.log 2 |x| - 52)

theorem lastDigit_pos (x : ℚ) : 0 < lastDigit x := by
  unfold lastDigit
  positivity

theorem lastDigit_neg (x : ℚ) : lastDigit (-x) = lastDigit x := by
  unfold lastDigit
  rw [abs_neg]

theorem roundQuotient_spec {num den : Nat} (hn : 0 < num) (hd : 0 < den) :
    ∃ n : ℤ, IsNearest ((num : ℚ) / den / lastDigit (num / den)) n ∧
      roundQuotient num den = n * lastDigit (num / den) := by
  have hd' : (0 : ℚ) < den := by exact_mod_cast hd
  have hpos : (0 : ℚ) < num / den := div_pos (by exact_mod_cast hn) hd'
  unfold roundQuotient lastDigit
  rw [if_neg hn.ne', abs_of_pos hpos, ← log2Div_eq hn hd]
  dsimp only
  generalize log2Div num den - 52 = e
  split
  · next h =>
    have hden : 0 < den <<< e.toNat := by
      rw [Nat.shiftLeft_eq]
      positivity
    refine ⟨_, ?_, by rw [shiftLeft_toNat h, Int.cast_natCast]⟩
    rw [div_div, ← shiftLeft_toNat h]
    exact isNearest_roundDiv hden
  · next h =>
    have he : 0 ≤ -e := by omega
    have hnum : (num : ℚ) / den / 2 ^ e = (num <<< (-e).toNat : Nat) / den := by
      rw [shiftLeft_toNat he, zpow_neg, div_right_comm, div_eq_mul_inv (num : ℚ)]
    refine ⟨_, hnum ▸ isNearest_roundDiv hd, ?_⟩
    rw [Rat.mkRat_eq_div, Int.cast_natCast, shiftLeft_toNat he, Nat.cast_one, one_mul, zpow_neg, div_inv_eq_mul]

theorem round_neg (x : ℚ) : round (-x) = -round x := by
  have hnum : (-x).num = -x.num := Rat.neg_num x
  have hden : (-x).den = x.den := Rat.neg_den x
  have habs : (-x).num.natAbs = x.num.natAbs := by rw [hnum, Int.natAbs_neg]
  unfold round
  rw [habs, hden]
  rcases lt_trichotomy x.num 0 with h | h | h
  · rw [if_neg (by omega), if_pos h, neg_neg]
  · rw [if_neg (by omega), if_neg (by omega), h]
    rfl
  · rw [if_pos (by omega), if_neg (by omega)]

/-- A double is a multiple of what its last digit stands for, and a nearest one. -/
theorem round_spec {x : ℚ} (hx : x ≠ 0) :
    ∃ n : ℤ, IsNearest (x / lastDigit x) n ∧ round x = n * lastDigit x := by
  have hpos : ∀ {y : ℚ}, 0 < y → ∃ n : ℤ, IsNearest (y / lastDigit y) n ∧ round y = n * lastDigit y := by
    intro y hy
    have hnum : 0 < y.num := Rat.num_pos.2 hy
    have hy' : (y.num.natAbs : ℚ) / y.den = y := by
      rw [← Int.cast_natCast, Int.natAbs_of_nonneg hnum.le, Rat.num_div_den]
    obtain ⟨n, hn, hr⟩ := roundQuotient_spec (Int.natAbs_pos.2 hnum.ne') y.den_pos
    rw [hy'] at hn hr
    exact ⟨n, hn, by rw [round, if_neg (by omega), hr]⟩
  rcases lt_or_gt_of_ne hx with h | h
  · obtain ⟨n, hn, hr⟩ := hpos (neg_pos.2 h)
    rw [lastDigit_neg] at hn hr
    refine ⟨-n, ?_, ?_⟩
    · rw [← neg_neg (x / lastDigit x), ← neg_div]
      exact hn.neg
    · rw [← neg_neg (round x), ← round_neg, hr, Int.cast_neg, neg_mul]
  · exact hpos h

theorem zpow_log_le {x : ℚ} (hx : x ≠ 0) : (2 : ℚ) ^ Int.log 2 |x| ≤ |x| := by
  exact_mod_cast Int.zpow_log_le_self (b := 2) (by norm_num) (abs_pos.2 hx)

theorem lt_zpow_log (x : ℚ) : |x| < (2 : ℚ) ^ (Int.log 2 |x| + 1) := by
  exact_mod_cast Int.lt_zpow_succ_log_self (b := 2) (by norm_num) |x|

/-- In the digits of a number the powers of two around it are whole. -/
theorem zpow_eq_mul_lastDigit (x : ℚ) (n : ℕ) :
    (2 : ℚ) ^ (Int.log 2 |x| - 52 + n) = ((2 ^ n : ℤ) : ℚ) * lastDigit x := by
  unfold lastDigit
  rw [zpow_add₀ (by norm_num), mul_comm, zpow_natCast]
  norm_cast

/-- A number does not leave the powers of two around it when it is rounded. -/
theorem round_mem {x : ℚ} (hx : 0 < x) :
    (2 : ℚ) ^ Int.log 2 |x| ≤ round x ∧ round x ≤ (2 : ℚ) ^ (Int.log 2 |x| + 1) := by
  obtain ⟨n, hn, hr⟩ := round_spec hx.ne'
  have hd := lastDigit_pos x
  have hlow := zpow_log_le hx.ne'
  have hhigh := (lt_zpow_log x).le
  rw [show Int.log 2 |x| = Int.log 2 |x| - 52 + (52 : ℕ) by omega, zpow_eq_mul_lastDigit, abs_of_pos hx,
    ← le_div_iff₀ hd] at hlow
  rw [show Int.log 2 |x| + 1 = Int.log 2 |x| - 52 + (53 : ℕ) by omega, zpow_eq_mul_lastDigit, abs_of_pos hx,
    ← div_le_iff₀ hd] at hhigh
  constructor
  · rw [show Int.log 2 |x| = Int.log 2 |x| - 52 + (52 : ℕ) by omega, zpow_eq_mul_lastDigit, hr]
    exact mul_le_mul_of_nonneg_right (by exact_mod_cast hn.le_of_le hlow) hd.le
  · rw [show Int.log 2 |x| + 1 = Int.log 2 |x| - 52 + (53 : ℕ) by omega, zpow_eq_mul_lastDigit, hr]
    exact mul_le_mul_of_nonneg_right (by exact_mod_cast hn.ge_of_ge hhigh) hd.le

theorem round_pos {x : ℚ} (hx : 0 < x) : 0 < round x :=
  lt_of_lt_of_le (by positivity) (round_mem hx).1

theorem round_zero : round 0 = 0 := rfl

private theorem round_le_round_of_pos {x y : ℚ} (hx : 0 < x) (h : x ≤ y) : round x ≤ round y := by
  have hy := hx.trans_le h
  have hlog : Int.log 2 |x| ≤ Int.log 2 |y| := by
    rw [abs_of_pos hx, abs_of_pos hy]
    exact Int.log_mono_right hx h
  rcases hlog.eq_or_lt with hlog | hlog
  · -- between the same powers of two both are multiples of the same digit
    have hdigit : lastDigit x = lastDigit y := by rw [lastDigit, lastDigit, hlog]
    obtain ⟨m, hm, hrx⟩ := round_spec hx.ne'
    obtain ⟨n, hn, hry⟩ := round_spec hy.ne'
    rw [hdigit] at hm hrx
    have hmn : m ≤ n := hm.mono hn (div_le_div_of_nonneg_right h (lastDigit_pos y).le)
    rw [hrx, hry]
    exact mul_le_mul_of_nonneg_right (by exact_mod_cast hmn) (lastDigit_pos y).le
  · calc round x ≤ (2 : ℚ) ^ (Int.log 2 |x| + 1) := (round_mem hx).2
      _ ≤ 2 ^ Int.log 2 |y| := zpow_le_zpow_right₀ (by norm_num) (by omega)
      _ ≤ round y := (round_mem hy).1

/-- Rounding keeps the order. -/
theorem round_mono {x y : ℚ} (h : x ≤ y) : round x ≤ round y := by
  have hneg : ∀ {z : ℚ}, z < 0 → round z < 0 := by
    intro z hz
    rw [← neg_pos, ← round_neg]
    exact round_pos (neg_pos.2 hz)
  rcases lt_trichotomy x 0 with hx | rfl | hx
  · rcases lt_trichotomy y 0 with hy | rfl | hy
    · rw [← neg_le_neg_iff, ← round_neg, ← round_neg]
      exact round_le_round_of_pos (neg_pos.2 hy) (neg_le_neg h)
    · exact (hneg hx).le
    · exact (hneg hx).le.trans (round_pos hy).le
  · rcases h.eq_or_lt with rfl | hy
    · exact le_rfl
    · exact (round_pos hy).le
  · exact round_le_round_of_pos hx h

/-- The error of rounding a number below a power of two. -/
theorem abs_round_sub_le {x : ℚ} {k : ℤ} (h : |x| < 2 ^ k) : |round x - x| ≤ 2 ^ (k - 54) := by
  rcases eq_or_ne x 0 with rfl | hx
  · rw [round_zero, sub_zero, abs_zero]
    positivity
  obtain ⟨n, hn, hr⟩ := round_spec hx
  have hd := lastDigit_pos x
  have hlog : Int.log 2 |x| < k :=
    (Int.lt_zpow_iff_log_lt (b := 2) (by norm_num) (abs_pos.2 hx)).1 (by exact_mod_cast h)
  have herr : |round x - x| = |(n : ℚ) - x / lastDigit x| * lastDigit x := by
    rw [← abs_of_pos hd, ← abs_mul, abs_of_pos hd, sub_mul, div_mul_cancel₀ x hd.ne', hr]
  calc |round x - x| ≤ 1 / 2 * lastDigit x := herr ▸ mul_le_mul_of_nonneg_right hn.error hd.le
    _ = 2 ^ (Int.log 2 |x| - 53) := by
      rw [lastDigit, show Int.log 2 |x| - 52 = Int.log 2 |x| - 53 + 1 by omega, zpow_add_one₀ (by norm_num)]
      ring
    _ ≤ 2 ^ (k - 54) := zpow_le_zpow_right₀ (by norm_num) (by omega)

/-- Numbers that are more than one digit apart are told apart. -/
theorem round_lt_round {x y : ℚ} {k : ℤ} (hx : |x| < 2 ^ k) (hy : |y| < 2 ^ k) (h : x + 2 ^ (k - 53) < y) :
    round x < round y := by
  have hex := (abs_le.1 (abs_round_sub_le hx)).2
  have hey := (abs_le.1 (abs_round_sub_le hy)).1
  rw [show k - 53 = k - 54 + 1 by omega, zpow_add_one₀ (by norm_num)] at h
  linarith

end Custody.Nearest
