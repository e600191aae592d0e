import Custody.Data.Json.Writer
import Custody.Proofs.Act
import Custody.Text.Utf8

/-! Everything that is written as JSON is printable ASCII, so it has an encoding and fills one line. -/
namespace Custody

def CodePoint.IsPlain (c : CodePoint) : Prop := 0x20 ≤ c.val ∧ c.val < 0x7F

instance (c : CodePoint) : Decidable c.IsPlain := inferInstanceAs (Decidable (_ ∧ _))

theorem CodePoint.isPlain_decDigit (n : Nat) : (decDigit n).IsPlain := by
  change 0x20 ≤ 0x30 + n % 10 ∧ 0x30 + n % 10 < 0x7F
  omega

theorem CodePoint.isPlain_hexDigit (n : Nat) : (hexDigit n).IsPlain := by
  unfold hexDigit IsPlain
  split
  · dsimp only
    omega
  · dsimp only
    omega

namespace Text

def Plain (t : Text) : Prop := ∀ c ∈ t, c.IsPlain

instance (t : Text) : Decidable t.Plain := inferInstanceAs (Decidable (∀ c ∈ t, c.IsPlain))

namespace Plain
variable {s t : Text}

theorem nil : Plain [] := by
  rintro c ⟨⟩

theorem append (hs : s.Plain) (ht : t.Plain) : Plain (s ++ t) := by
  intro c hc
  rcases List.mem_append.1 hc with hc | hc
  · exact hs c hc
  · exact ht c hc

theorem sublist (ht : t.Plain) (h : s.Sublist t) : s.Plain := fun c hc => ht c (h.subset hc)

theorem replicate (n : Nat) {c : CodePoint} (hc : c.IsPlain) : Plain (List.replicate n c) := by
  intro d hd
  rw [List.eq_of_mem_replicate hd]
  exact hc

theorem ofNat (n : Nat) : Plain (Text.ofNat n) := by
  induction n using Nat.strongRecOn with
  | ind n ih =>
    have hdigit : Plain [.decDigit n] := by
      intro c hc
      rw [List.mem_singleton.1 hc]
      exact CodePoint.isPlain_decDigit n
    rw [Text.ofNat]
    split
    · exact hdigit
    · exact (ih (n / 10) (by omega)).append hdigit

theorem ofInt (i : Int) : Plain (Text.ofInt i) := by
  unfold Text.ofInt
  split
  · exact append (s := ['-']) (by decide) (ofNat i.natAbs)
  · exact ofNat i.natAbs

theorem ofNatPadded (width n : Nat) : Plain (Text.ofNatPadded width n) :=
  (replicate _ (by decide)).append (ofNat n)

theorem hex (width n : Nat) : Plain (Text.hex width n) := by
  induction width generalizing n with
  | zero => exact nil
  | succ width ih =>
    refine (ih (n / 16)).append ?_
    intro c hc
    rw [List.mem_singleton.1 hc]
    exact CodePoint.isPlain_hexDigit (n % 16)

/-- A line of printable ASCII has an encoding. -/
theorem encode_line (ht : t.Plain) : ∃ bytes, Utf8.encode? (t ++ "\n") = some bytes := by
  have hfeed : ∀ c ∈ ("\n" : Text), (!c.isSurrogate) = true := by decide
  have hscalar : (t ++ "\n" : Text).isScalar = true := by
    refine List.all_eq_true.2 fun c hc => ?_
    rcases List.mem_append.1 hc with hc | hc
    · obtain ⟨-, hlt⟩ := ht c hc
      have : ¬0xD800 ≤ c.val := by omega
      simp [CodePoint.isSurrogate, this]
    · exact hfeed c hc
  exact ⟨_, if_pos hscalar⟩

end Plain

end Text

namespace Shortest
open Text

theorem plain_renderDecimal (f : Layout) (d : Decimal) : (d.render f).Plain := by
  have hd : (Text.ofNat d.digits).Plain := .ofNat d.digits
  have hzeros : ∀ n, Plain (List.replicate n ('0' : CodePoint)) := fun n => .replicate n (by decide)
  have hpoint : Plain "." := by decide
  unfold Decimal.render
  dsimp only
  split
  · split
    · exact .append (.append (by decide) (hzeros _)) hd
    · have hpadded := hd.append (hzeros ((d.exponent + (Text.ofNat d.digits).length - 1).toNat + 1 -
        (Text.ofNat d.digits).length))
      refine .append (.append (hpadded.sublist (List.take_sublist _ _)) hpoint) ?_
      split
      · decide
      · exact hpadded.sublist (List.drop_sublist _ _)
  · refine .append (.append (.append (.append (hd.sublist (List.take_sublist _ _)) ?_) (by decide)) ?_)
      (.ofNatPadded _ _)
    · split
      · exact .nil
      · exact hpoint.append (hd.sublist (List.drop_sublist _ _))
    · split <;> decide

theorem plain_render (x : Float) : (render x).Plain := by
  have hsign : Plain (if signBit ≤ x.toBits.toNat then "-" else []) := by
    split
    · decide
    · exact .nil
  unfold render
  dsimp only
  split
  · exact hsign.append (by decide)
  · exact hsign.append (plain_renderDecimal _ _)

end Shortest

namespace Json
open Text

theorem plain_escapeUnits (n : Nat) : (escapeUnits n).Plain := by
  have hlead : Plain "\\u" := by decide
  unfold escapeUnits
  split
  · exact hlead.append (.hex 4 n)
  · exact ((hlead.append (.hex 4 _)).append hlead).append (.hex 4 _)

theorem plain_escape (c : CodePoint) : (escape c).Plain := by
  unfold escape
  split
  iterate 7 decide
  split
  · next hc =>
    intro d hd
    rw [List.mem_singleton.1 hd]
    exact hc
  · exact plain_escapeUnits _

theorem plain_quote (t : Text) : (quote t).Plain := by
  refine .append (.append (by decide) ?_) (by decide)
  intro c hc
  obtain ⟨d, -, hd⟩ := List.mem_flatMap.1 hc
  exact plain_escape d c hd

theorem plain_number (x : Float) : (number x).Plain := by
  unfold number
  split
  · decide
  · split
    · split <;> decide
    · exact Shortest.plain_render x

theorem plain_intText {i : Int} {t : Text} (h : Value.intText i = .ok t) : t.Plain := by
  unfold Value.intText at h
  split at h
  · cases h
  · cases h
    exact .ofInt i

mutual

theorem plain_write : ∀ {v : Value} {t : Text}, write v = .ok t → t.Plain
  | .null, _, h => by cases h; decide
  | .bool b, _, h => by cases h; cases b <;> decide
  | .int i, _, h => plain_intText h
  | .float x, _, h => by cases h; exact plain_number x
  | .text t, _, h => by cases h; exact plain_quote t
  | .list items, _, h => by
    obtain ⟨body, hb, ht⟩ := Failure.bind_eq_ok.1 h
    cases ht
    exact .append (.append (by decide) (plain_writeItems hb)) (by decide)
  | .record fields, _, h => by
    obtain ⟨body, hb, ht⟩ := Failure.bind_eq_ok.1 h
    cases ht
    exact .append (.append (by decide) (plain_writeFields hb)) (by decide)

theorem plain_writeItems : ∀ {l : List Value} {t : Text}, writeItems l = .ok t → t.Plain
  | [], _, h => by cases h; exact .nil
  | [v], _, h => by
    rw [writeItems] at h
    exact plain_write h
  | v :: w :: rest, _, h => by
    obtain ⟨first, hf, h⟩ := Failure.bind_eq_ok.1 h
    obtain ⟨others, ho, ht⟩ := Failure.bind_eq_ok.1 h
    cases ht
    exact .append (.append (plain_write hf) (by decide)) (plain_writeItems ho)

theorem plain_writeFields : ∀ {l : List (Text × Value)} {t : Text}, writeFields l = .ok t → t.Plain
  | [], _, h => by cases h; exact .nil
  | [(k, v)], _, h => by
    obtain ⟨first, hf, ht⟩ := Failure.bind_eq_ok.1 h
    cases ht
    exact .append (.append (plain_quote k) (by decide)) (plain_write hf)
  | (k, v) :: f :: rest, _, h => by
    obtain ⟨first, hf, h⟩ := Failure.bind_eq_ok.1 h
    obtain ⟨others, ho, ht⟩ := Failure.bind_eq_ok.1 h
    cases ht
    exact .append (.append (.append (.append (plain_quote k) (by decide)) (plain_write hf)) (by decide))
      (plain_writeFields ho)

end

/-- A value is not written because a foreign one, or an integer of too many digits, is within it. -/
def Unwritable (f : Failure) : Prop := f = .badType ∨ f = .badValue

theorem unwritable_intText {i : Int} {f : Failure} (h : Value.intText i = .error f) : Unwritable f := by
  unfold Value.intText at h
  split at h
  · cases h
    exact Or.inr rfl
  · cases h

mutual

theorem unwritable_write : ∀ {v : Value} {f : Failure}, write v = .error f → Unwritable f
  | .int i, _, h => unwritable_intText h
  | .list items, _, h => by
    rcases Failure.bind_eq_error.1 h with h | ⟨body, -, h⟩
    · exact unwritable_writeItems h
    · cases h
  | .record fields, _, h => by
    rcases Failure.bind_eq_error.1 h with h | ⟨body, -, h⟩
    · exact unwritable_writeFields h
    · cases h
  | .foreign, _, h => by
    cases h
    exact Or.inl rfl

theorem unwritable_writeItems : ∀ {l : List Value} {f : Failure}, writeItems l = .error f → Unwritable f
  | [v], _, h => by
    rw [writeItems] at h
    exact unwritable_write h
  | v :: w :: rest, _, h => by
    rcases Failure.bind_eq_error.1 h with h | ⟨first, -, h⟩
    · exact unwritable_write h
    · rcases Failure.bind_eq_error.1 h with h | ⟨others, -, h⟩
      · exact unwritable_writeItems h
      · cases h

theorem unwritable_writeFields : ∀ {l : List (Text × Value)} {f : Failure}, writeFields l = .error f → Unwritable f
  | [(k, v)], _, h => by
    rcases Failure.bind_eq_error.1 h with h | ⟨first, -, h⟩
    · exact unwritable_write h
    · cases h
  | (k, v) :: g :: rest, _, h => by
    rcases Failure.bind_eq_error.1 h with h | ⟨first, -, h⟩
    · exact unwritable_write h
    · rcases Failure.bind_eq_error.1 h with h | ⟨others, -, h⟩
      · exact unwritable_writeFields h
      · cases h

end

end Json

end Custody
