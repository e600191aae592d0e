import Custody.Proofs.Text.Order

/-! Decimal numbers of one width are ordered as texts like the numbers, whatever stands behind them. -/
namespace Custody.Text

/-- One text comes before another at a place that both of them have. -/
def Ahead (s t : Text) : Prop :=
  ∃ (p : Text) (a b : CodePoint) (u v : Text), s = p ++ a :: u ∧ t = p ++ b :: v ∧ a.val < b.val

section Ahead
variable {s t : Text}

theorem ahead_concat (s : Text) {a b : CodePoint} (h : a.val < b.val) : Ahead (s ++ [a]) (s ++ [b]) :=
  ⟨s, a, b, [], [], rfl, rfl, h⟩

/-- What stands behind the two texts does not matter any more. -/
theorem Ahead.append (h : Ahead s t) (x y : Text) : Ahead (s ++ x) (t ++ y) := by
  obtain ⟨p, a, b, u, v, rfl, rfl, hab⟩ := h
  exact ⟨p, a, b, u ++ x, v ++ y, by simp, by simp, hab⟩

theorem Ahead.prepend (h : Ahead s t) (x : Text) : Ahead (x ++ s) (x ++ t) := by
  obtain ⟨p, a, b, u, v, rfl, rfl, hab⟩ := h
  exact ⟨x ++ p, a, b, u, v, by simp, by simp, hab⟩

theorem Ahead.le (h : Ahead s t) : le s t = true := by
  obtain ⟨p, a, b, u, v, rfl, rfl, hab⟩ := h
  exact (le_append_append p).2 (le_cons_cons.2 (Or.inl hab))

theorem Ahead.ne (h : Ahead s t) : s ≠ t := by
  obtain ⟨p, a, b, u, v, rfl, rfl, hab⟩ := h
  intro heq
  have hval : a.val = b.val := congrArg CodePoint.val (List.cons.inj (List.append_cancel_left heq)).1
  omega

/-- Texts that begin with a number each: the numbers decide, or what follows if they are the same. -/
theorem Ahead.field {f : Nat → Text} {m n : Nat} (number : m < n → Ahead (f m) (f n))
    (h : m < n ∨ m = n ∧ Ahead s t) : Ahead (f m ++ s) (f n ++ t) := by
  rcases h with h | ⟨rfl, h⟩
  · exact (number h).append s t
  · exact h.prepend (f m)

end Ahead

section Digits
variable {m n w : Nat}

theorem ofNat_of_lt (h : n < 10) : ofNat n = [.decDigit n] := by
  rw [ofNat, if_pos h]

theorem ofNat_of_le (h : 10 ≤ n) : ofNat n = ofNat (n / 10) ++ [.decDigit n] := by
  rw [ofNat, if_neg (Nat.not_lt.2 h)]

theorem val_decDigit (n : Nat) : (CodePoint.decDigit n).val = 0x30 + n % 10 := rfl

private theorem ofNatPadded_one (h : n < 10) : ofNatPadded 1 n = [.decDigit n] := by
  rw [ofNatPadded, padLeft, ofNat_of_lt h]
  rfl

/-- The last digit of a padded number stands apart. -/
theorem ofNatPadded_succ (hw : 0 < w) (n : Nat) : ofNatPadded (w + 1) n = ofNatPadded w (n / 10) ++ [.decDigit n] := by
  obtain ⟨v, rfl⟩ := Nat.exists_eq_succ_of_ne_zero (Nat.pos_iff_ne_zero.1 hw)
  unfold ofNatPadded padLeft
  rcases Nat.lt_or_ge n 10 with h | h
  · have hzero : [CodePoint.decDigit 0] = List.replicate 1 ('0' : CodePoint) := rfl
    rw [ofNat_of_lt h, Nat.div_eq_of_lt h, ofNat_of_lt (by decide), hzero, List.length_replicate, List.length_singleton,
      List.replicate_append_replicate]
    rfl
  · rw [ofNat_of_le h, List.length_append, List.length_singleton, Nat.add_sub_add_right, List.append_assoc]

/-- Numbers of one width are ordered like texts. -/
theorem ahead_ofNatPadded (hmn : m < n) (hn : n < Nat.pow 10 w) : Ahead (ofNatPadded w m) (ofNatPadded w n) := by
  -- By the digits: those before the last one decide, or they are the same.
  induction w generalizing m n with
  | zero =>
    have : Nat.pow 10 0 = 1 := rfl
    omega
  | succ w ih =>
    have hpow : Nat.pow 10 (w + 1) = Nat.pow 10 w * 10 := rfl
    have hlast : m % 10 < n % 10 → (CodePoint.decDigit m).val < (CodePoint.decDigit n).val := by
      rw [val_decDigit, val_decDigit]
      omega
    rcases Nat.eq_zero_or_pos w with rfl | hw
    · have hone : Nat.pow 10 0 = 1 := rfl
      rw [ofNatPadded_one (by omega), ofNatPadded_one (by omega)]
      exact ahead_concat [] (hlast (by omega))
    · rw [ofNatPadded_succ hw, ofNatPadded_succ hw]
      rcases Nat.lt_or_ge (m / 10) (n / 10) with h | h
      · exact (ih h (by omega)).append _ _
      · have hsame : m / 10 = n / 10 := by omega
        rw [hsame]
        exact ahead_concat _ (hlast (by omega))

theorem lt_length_ofNat (h : Nat.pow 10 w ≤ n) : w < (ofNat n).length := by
  induction w generalizing n with
  | zero => exact List.length_pos_iff.2 (by rw [ofNat]; split <;> simp)
  | succ w ih =>
    have hpow : Nat.pow 10 (w + 1) = Nat.pow 10 w * 10 := rfl
    have hpos : 0 < Nat.pow 10 w := Nat.pow_pos (by decide)
    have := ih (n := n / 10) (by omega)
    rw [ofNat_of_le (by omega), List.length_append, List.length_singleton]
    omega

/-- The numbers below a power of ten are those of so many digits at most. -/
theorem length_ofNat_le_iff (hw : 0 < w) : (ofNat n).length ≤ w ↔ n < Nat.pow 10 w := by
  refine ⟨fun h => Nat.not_le.1 fun hle => ?_, fun h => ?_⟩
  · have := lt_length_ofNat hle
    omega
  · induction w generalizing n with
    | zero => omega
    | succ w ih =>
      have hpow : Nat.pow 10 (w + 1) = Nat.pow 10 w * 10 := rfl
      rcases Nat.lt_or_ge n 10 with hn | hn
      · rw [ofNat_of_lt hn, List.length_singleton]
        omega
      · rw [ofNat_of_le hn, List.length_append, List.length_singleton]
        rcases Nat.eq_zero_or_pos w with rfl | hpos
        · have hone : Nat.pow 10 0 = 1 := rfl
          omega
        · have := ih hpos (n := n / 10) (by omega)
          omega

theorem ofNatPadded_of_le (h : Nat.pow 10 w ≤ n) : ofNatPadded (w + 1) n = ofNat n := by
  have := lt_length_ofNat h
  rw [ofNatPadded, padLeft, Nat.sub_eq_zero_of_le (by omega)]
  rfl

end Digits

end Custody.Text
