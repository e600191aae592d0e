import Custody.Text.Case
import Mathlib.Data.List.Basic

/-! Small letters: what is written in them is settled, and nothing but themselves becomes an ASCII text of them. -/
namespace Custody

namespace CodePoint

/-- A code point is not moved at all, or by the distance of a run that it lies in. -/
theorem lowerShift_cases (n : Nat) (ranges : List (Nat × Nat × Nat × Int)) :
    lowerShift n ranges = 0 ∨
      ∃ r ∈ ranges, r.1 ≤ n ∧ n ≤ r.2.1 ∧ lowerShift n ranges = r.2.2.2 := by
  induction ranges with
  | nil => exact Or.inl rfl
  | cons r rest ih =>
    obtain ⟨first, last, step, shift⟩ := r
    unfold lowerShift
    split
    · next h => exact Or.inr ⟨_, List.mem_cons_self, h.1, h.2.1, rfl⟩
    · rcases ih with h | ⟨r, hr, h⟩
      · exact Or.inl h
      · exact Or.inr ⟨r, List.mem_cons_of_mem _ hr, h⟩

/-- The sign of the unit Kelvin, the only capital beyond ASCII whose small letter is in ASCII. -/
def kelvin : Nat := 0x212A

/-- A run holds the Kelvin sign alone, or its small letters lie beyond ASCII. None of them is a Kelvin sign. -/
theorem lowerRanges_apart : ∀ r ∈ Text.lowerRanges, (r.1 = kelvin ∧ r.2.1 = kelvin ∨ 0x80 ≤ r.1 + r.2.2.2) ∧
    (r.2.1 + r.2.2.2 < kelvin ∨ kelvin < r.1 + r.2.2.2) := by
  decide +kernel

theorem lower_ascii {c : CodePoint} (hc : c.val < 0x80) :
    c.lower = [c] ∧ c.isUpper = false ∨ ∃ l, c.lower = [l] ∧ l.val < 0x80 ∧ l.isUpper = false := by
  unfold lower
  rw [if_pos hc]
  split
  · next h =>
    refine Or.inr ⟨_, rfl, ?_⟩
    simp only [isUpper, Bool.and_eq_true, decide_eq_true_eq] at h
    simp only [isUpper, Bool.and_eq_false_iff, decide_eq_false_iff_not]
    omega
  · next h => exact Or.inl ⟨rfl, Bool.eq_false_iff.2 h⟩

/-- A code point that stands for a small letter, or for no letter. -/
def Settled (c : CodePoint) : Prop := c.val ≠ kelvin ∧ c.isUpper = false

theorem settled_of_ascii {c : CodePoint} (hc : c.val < 0x80) (h : c.isUpper = false) : c.Settled := by
  refine ⟨?_, h⟩
  unfold kelvin
  omega

private theorem not_isUpper_of_le {c : CodePoint} (hc : 0x80 ≤ c.val) : c.isUpper = false := by
  simp only [isUpper, Bool.and_eq_false_iff, decide_eq_false_iff_not]
  omega

/-- Beyond ASCII a small letter lies beyond ASCII too, but for that of the Kelvin sign. -/
theorem lower_wide {c : CodePoint} (hc : 0x80 ≤ c.val) :
    c.lower = [⟨0x69, by omega⟩, ⟨0x307, by omega⟩] ∨
    ∃ l, c.lower = [l] ∧ l.Settled ∧ (l.val < 0x80 → c.val = kelvin) := by
  unfold lower
  rw [if_neg (by omega)]
  split
  · exact Or.inl rfl
  · refine Or.inr ?_
    have hkelvin : lowerShift kelvin Text.lowerRanges = -8383 := by decide +kernel
    have hnot (l : CodePoint) (hl : 0x80 ≤ l.val) (hne : l.val ≠ kelvin) :
        l.Settled ∧ (l.val < 0x80 → c.val = kelvin) := by
      refine ⟨⟨hne, not_isUpper_of_le hl⟩, fun h => ?_⟩
      omega
    have hsame : c.val ≠ kelvin → c.Settled ∧ (c.val < 0x80 → c.val = kelvin) := hnot c hc
    cases hl : ofNat? ((c.val : Int) + lowerShift c.val Text.lowerRanges).toNat with
    | none =>
      refine ⟨c, rfl, hsame fun h => ?_⟩
      rw [h, hkelvin] at hl
      revert hl
      decide
    | some l =>
      have hval : l.val = ((c.val : Int) + lowerShift c.val Text.lowerRanges).toNat := by
        unfold ofNat? at hl
        split at hl
        · cases hl
          rfl
        · cases hl
      refine ⟨l, rfl, ?_⟩
      by_cases hk : c.val = kelvin
      · rw [hk, hkelvin] at hval
        have hsmall : l.val = 0x6B := hval
        refine ⟨settled_of_ascii (by omega) ?_, fun _ => hk⟩
        simp [isUpper, hsmall]
      · rcases lowerShift_cases c.val Text.lowerRanges with h | ⟨r, hr, hfirst, hlast, h⟩
        · have hlc : l.val = c.val := by rw [hval, h]; omega
          exact hnot l (by omega) (by omega)
        · obtain ⟨hascii, hne⟩ := lowerRanges_apart r hr
          rw [h] at hval
          unfold kelvin at hk hascii hne
          apply hnot l
          · omega
          · unfold kelvin
            omega

theorem settled_of_mem_lower {c l : CodePoint} (h : l ∈ c.lower) : l.Settled := by
  by_cases hc : c.val < 0x80
  · rcases lower_ascii hc with ⟨hlower, hupper⟩ | ⟨l', hlower, hval, hupper⟩
    · rw [hlower, List.mem_singleton] at h
      exact h ▸ settled_of_ascii hc hupper
    · rw [hlower, List.mem_singleton] at h
      exact h ▸ settled_of_ascii hval hupper
  · rcases lower_wide (Nat.not_lt.1 hc) with hlower | ⟨l', hlower, hsettled, -⟩
    · rw [hlower] at h
      rcases List.mem_cons.1 h with rfl | h
      · simp [Settled, kelvin, isUpper]
      · rw [List.mem_singleton.1 h]
        simp [Settled, kelvin, isUpper]
    · rw [hlower, List.mem_singleton] at h
      exact h ▸ hsettled

/-- A settled code point whose small letters are ASCII is its own small letter. -/
theorem lower_of_settled {c : CodePoint} (hc : c.Settled) (h : ∀ l ∈ c.lower, l.val < 0x80) : c.lower = [c] := by
  by_cases hascii : c.val < 0x80
  · unfold lower
    rw [if_pos hascii, hc.2]
    rfl
  · rcases lower_wide (Nat.not_lt.1 hascii) with hlower | ⟨l, hlower, -, hkelvin⟩
    · have hwide : (0x307 : Nat) < 0x80 := h ⟨0x307, by omega⟩ (by rw [hlower]; simp)
      omega
    · have hl := h l (by rw [hlower]; exact List.mem_singleton_self l)
      exact absurd (hkelvin hl) hc.1

end CodePoint

namespace Text

/-- Text whose letters are all settled. -/
def Settled (t : Text) : Prop := ∀ c ∈ t, c.Settled

private theorem settled_lowerAfter (before t : Text) : Settled (lowerAfter before t) := by
  induction t generalizing before with
  | nil => nofun
  | cons c t ih =>
    intro l hl
    rw [lowerAfter] at hl
    rcases List.mem_append.1 hl with hl | hl
    · split at hl
      · rw [List.mem_singleton.1 hl]
        simp [CodePoint.Settled, CodePoint.kelvin, CodePoint.isUpper, CodePoint.finalSigma]
      · exact CodePoint.settled_of_mem_lower hl
    · exact ih _ l hl

theorem settled_lower (t : Text) : Settled t.lower := settled_lowerAfter [] t

private theorem eq_of_lowerAfter_eq {before t name : Text} (ht : Settled t) (hname : ∀ c ∈ name, c.val < 0x80)
    (h : lowerAfter before t = name) : t = name := by
  induction t generalizing before name with
  | nil => exact h
  | cons c t ih =>
    rw [lowerAfter] at h
    have hrest : t = lowerAfter (c :: before) t := by
      apply ih (fun d hd => ht d (List.mem_cons_of_mem _ hd)) _ rfl
      intro l hl
      exact hname l (h ▸ List.mem_append_right _ hl)
    rw [← hrest] at h
    split at h
    · -- The final sigma is no ASCII letter.
      have hmem : CodePoint.finalSigma ∈ name := by
        rw [← h]
        exact List.mem_cons_self
      have hwide : ¬CodePoint.finalSigma.val < 0x80 := by decide
      exact absurd (hname _ hmem) hwide
    · have hc : c.lower = [c] := by
        apply CodePoint.lower_of_settled (ht c List.mem_cons_self)
        intro l hl
        exact hname l (h ▸ List.mem_append_left _ hl)
      rw [hc] at h
      exact h

/-- Settled text that becomes ASCII text in small letters is that text. -/
theorem eq_of_lower_eq {t name : Text} (ht : Settled t) (hname : ∀ c ∈ name, c.val < 0x80) (h : t.lower = name) :
    t = name :=
  eq_of_lowerAfter_eq ht hname h

end Text

end Custody
