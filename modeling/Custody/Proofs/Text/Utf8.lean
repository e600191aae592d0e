import Custody.Text.Utf8
import Mathlib.Data.List.Basic

/-! Encoded texts are decoded to themselves. -/
namespace Custody.Utf8

/-- A number that needs as much room as it takes, and that is no surrogate, is the number of a code point. -/
theorem accept?_val {c : CodePoint} (hc : c.isSurrogate = false) {least : Nat} (h : least ≤ c.val) :
    accept? least c.val = some c := by
  have hn : CodePoint.ofNat? c.val = some c := dif_pos c.val_lt
  rw [accept?, if_neg (Nat.not_lt.2 h), hn, Option.filter_some, hc]
  rfl

private theorem continuation?_ofNat {n : Nat} (h : n < 64) :
    continuation? (UInt8.ofNat (0x80 + n)) = some n := by
  have hn : (UInt8.ofNat (0x80 + n)).toNat = 0x80 + n := by
    rw [UInt8.toNat_ofNat']
    omega
  rw [continuation?, hn, if_pos (by simp; omega), Nat.add_sub_cancel_left]

/-- The bytes of a code point are read as that code point, whatever follows them. -/
theorem decode?_encodePoint {c : CodePoint} (hc : c.isSurrogate = false) (rest : Bytes) :
    decode? (encodePoint c ++ rest) = (decode? rest).map (c :: ·) := by
  have hlt := c.val_lt
  unfold encodePoint
  dsimp only
  split
  · have ha : (UInt8.ofNat c.val).toNat = c.val := by
      rw [UInt8.toNat_ofNat']
      omega
    rw [List.singleton_append, decode?.eq_def]
    dsimp only
    rw [ha, if_pos (by assumption), accept?_val hc (Nat.zero_le _)]
    cases decode? rest <;> rfl
  split
  · have ha : (UInt8.ofNat (0xC0 + c.val / 64)).toNat = 0xC0 + c.val / 64 := by
      rw [UInt8.toNat_ofNat']
      omega
    have hval : (0xC0 + c.val / 64 - 0xC0) * 64 + c.val % 64 = c.val := by omega
    simp only [List.cons_append, List.nil_append]
    rw [decode?.eq_def]
    dsimp only
    rw [ha, if_neg (by omega), if_neg (by omega), if_pos (by omega),
      continuation?_ofNat (by omega), Option.bind_eq_bind, Option.bind_some, hval, accept?_val hc (by omega)]
    cases decode? rest <;> rfl
  split
  · have ha : (UInt8.ofNat (0xE0 + c.val / 4096)).toNat = 0xE0 + c.val / 4096 := by
      rw [UInt8.toNat_ofNat']
      omega
    have hval : ((0xE0 + c.val / 4096 - 0xE0) * 64 + c.val / 64 % 64) * 64 + c.val % 64 = c.val := by omega
    simp only [List.cons_append, List.nil_append]
    rw [decode?.eq_def]
    dsimp only
    rw [ha, if_neg (by omega), if_neg (by omega), if_neg (by omega), if_pos (by omega),
      continuation?_ofNat (by omega), continuation?_ofNat (by omega), Option.bind_eq_bind, Option.bind_some,
      Option.bind_eq_bind, Option.bind_some, hval, accept?_val hc (by omega)]
    cases decode? rest <;> rfl
  · have ha : (UInt8.ofNat (0xF0 + c.val / 262144)).toNat = 0xF0 + c.val / 262144 := by
      rw [UInt8.toNat_ofNat']
      omega
    have hval : (((0xF0 + c.val / 262144 - 0xF0) * 64 + c.val / 4096 % 64) * 64 + c.val / 64 % 64) * 64
        + c.val % 64 = c.val := by omega
    simp only [List.cons_append, List.nil_append]
    rw [decode?.eq_def]
    dsimp only
    rw [ha, if_neg (by omega), if_neg (by omega), if_neg (by omega), if_neg (by omega),
      continuation?_ofNat (by omega), continuation?_ofNat (by omega), continuation?_ofNat (by omega),
      Option.bind_eq_bind, Option.bind_some, Option.bind_eq_bind, Option.bind_some, Option.bind_eq_bind,
      Option.bind_some, hval, accept?_val hc (by omega)]
    cases decode? rest <;> rfl

theorem decode?_encode {t : Text} (h : t.isScalar = true) : decode? (t.flatMap encodePoint) = some t := by
  induction t with
  | nil => rw [List.flatMap_nil, decode?]
  | cons c t ih =>
    rw [Text.isScalar, List.all_cons, Bool.and_eq_true, Bool.not_eq_true'] at h
    rw [List.flatMap_cons, decode?_encodePoint h.1, ih h.2, Option.map_some]

/-- A text without surrogates has an encoding. -/
theorem encode?_of_isScalar {t : Text} (h : t.isScalar = true) : encode? t = some (t.flatMap encodePoint) := if_pos h

theorem accept?_eq_some {least n : Nat} {c : CodePoint} (h : accept? least n = some c) :
    c.val = n ∧ least ≤ c.val ∧ c.isSurrogate = false := by
  unfold accept? at h
  split at h
  · cases h
  next hleast =>
  obtain ⟨hn, hc⟩ := Option.filter_eq_some_iff.1 h
  unfold CodePoint.ofNat? at hn
  split at hn
  · cases hn
    exact ⟨rfl, Nat.not_lt.1 hleast, by simpa using hc⟩
  · cases hn

theorem continuation?_eq_some {b : UInt8} {n : Nat} (h : continuation? b = some n) : b.toNat = 0x80 + n ∧ n < 64 := by
  unfold continuation? at h
  split at h
  · next hb =>
    have hn : b.toNat - 0x80 = n := Option.some.inj h
    simp only [Bool.and_eq_true, decide_eq_true_eq] at hb
    omega
  · cases h

section Widths
variable {c : CodePoint} {a b d e : UInt8}

theorem encodePoint_one (ha : a.toNat = c.val) (h : c.val < 0x80) : encodePoint c = [a] := by
  unfold encodePoint
  dsimp only
  rw [if_pos h, ← ha, UInt8.ofNat_toNat]

theorem encodePoint_two (hlow : 0x80 ≤ c.val) (hhigh : c.val < 0x800) (ha : a.toNat = 0xC0 + c.val / 64)
    (hb : b.toNat = 0x80 + c.val % 64) : encodePoint c = [a, b] := by
  unfold encodePoint
  dsimp only
  rw [if_neg (Nat.not_lt.2 hlow), if_pos hhigh, ← ha, ← hb, UInt8.ofNat_toNat, UInt8.ofNat_toNat]

private theorem encodePoint_three (hlow : 0x800 ≤ c.val) (hhigh : c.val < 0x10000)
    (ha : a.toNat = 0xE0 + c.val / 4096)
    (hb : b.toNat = 0x80 + c.val / 64 % 64) (hd : d.toNat = 0x80 + c.val % 64) : encodePoint c = [a, b, d] := by
  unfold encodePoint
  dsimp only
  rw [if_neg (by omega), if_neg (by omega), if_pos hhigh, ← ha, ← hb, ← hd, UInt8.ofNat_toNat, UInt8.ofNat_toNat,
    UInt8.ofNat_toNat]

private theorem encodePoint_four (hlow : 0x10000 ≤ c.val) (ha : a.toNat = 0xF0 + c.val / 262144)
    (hb : b.toNat = 0x80 + c.val / 4096 % 64) (hd : d.toNat = 0x80 + c.val / 64 % 64)
    (he : e.toNat = 0x80 + c.val % 64) : encodePoint c = [a, b, d, e] := by
  unfold encodePoint
  dsimp only
  rw [if_neg (by omega), if_neg (by omega), if_neg (by omega), ← ha, ← hb, ← hd, ← he, UInt8.ofNat_toNat,
    UInt8.ofNat_toNat, UInt8.ofNat_toNat, UInt8.ofNat_toNat]

end Widths

/-- Whatever is decoded is a text without surrogates, in its one encoding. -/
theorem eq_encode_of_decode? {b : Bytes} {t : Text} (h : decode? b = some t) :
    t.isScalar = true ∧ b = t.flatMap encodePoint := by
  have hpoint {least n : Nat} {bytes rest : Bytes} {t : Text}
      (h : (accept? least n >>= fun c => decode? rest >>= fun u => some (c :: u)) = some t)
      (ih : ∀ {u}, decode? rest = some u → u.isScalar = true ∧ rest = u.flatMap encodePoint)
      (hbytes : ∀ c : CodePoint, c.val = n → least ≤ c.val → encodePoint c = bytes) :
      t.isScalar = true ∧ bytes ++ rest = t.flatMap encodePoint := by
    obtain ⟨c, hc, h⟩ := Option.bind_eq_some_iff.1 h
    obtain ⟨u, hu, h⟩ := Option.bind_eq_some_iff.1 h
    cases h
    obtain ⟨hval, hleast, hsurrogate⟩ := accept?_eq_some hc
    obtain ⟨hscalar, hrest⟩ := ih hu
    refine ⟨?_, ?_⟩
    · rw [Text.isScalar, List.all_cons, hsurrogate]
      exact hscalar
    · rw [List.flatMap_cons, hbytes c hval hleast, ← hrest]
  fun_induction decode? b generalizing t with
  | case1 =>
    cases h
    exact ⟨rfl, rfl⟩
  | case2 a rest ha ih => exact hpoint h ih fun c hval _ => encodePoint_one hval.symm (hval ▸ ha)
  | case4 a _ _ _ b rest ih =>
    obtain ⟨x, hx, h⟩ := Option.bind_eq_some_iff.1 h
    obtain ⟨hb, hx64⟩ := continuation?_eq_some hx
    exact hpoint h ih fun c hval hleast => encodePoint_two hleast (by omega) (by omega) (by omega)
  | case6 a _ _ _ _ b d rest ih =>
    obtain ⟨x, hx, h⟩ := Option.bind_eq_some_iff.1 h
    obtain ⟨y, hy, h⟩ := Option.bind_eq_some_iff.1 h
    obtain ⟨hb, hx64⟩ := continuation?_eq_some hx
    obtain ⟨hd, hy64⟩ := continuation?_eq_some hy
    exact hpoint h ih fun c hval hleast => encodePoint_three hleast (by omega) (by omega) (by omega) (by omega)
  | case8 a _ _ _ _ b d e rest ih =>
    obtain ⟨x, hx, h⟩ := Option.bind_eq_some_iff.1 h
    obtain ⟨y, hy, h⟩ := Option.bind_eq_some_iff.1 h
    obtain ⟨z, hz, h⟩ := Option.bind_eq_some_iff.1 h
    obtain ⟨hb, hx64⟩ := continuation?_eq_some hx
    obtain ⟨hd, hy64⟩ := continuation?_eq_some hy
    obtain ⟨he, hz64⟩ := continuation?_eq_some hz
    exact hpoint h ih fun c hval hleast => encodePoint_four hleast (by omega) (by omega) (by omega) (by omega)
  | case3 | case5 | case7 | case9 => cases h

theorem decode?_eq_some {b : Bytes} {t : Text} :
    decode? b = some t ↔ t.isScalar = true ∧ b = t.flatMap encodePoint :=
  ⟨eq_encode_of_decode?, fun ⟨hscalar, hb⟩ => hb ▸ decode?_encode hscalar⟩

/-- A text has no more code points than its encoding has bytes. -/
theorem length_le_of_decode? {b : Bytes} {t : Text} (h : decode? b = some t) : t.length ≤ b.length := by
  have hpoint (c : CodePoint) : 1 ≤ (encodePoint c).length := by
    unfold encodePoint
    dsimp only
    split_ifs <;> simp
  rw [(eq_encode_of_decode? h).2, List.length_flatMap]
  clear h
  induction t with
  | nil => exact Nat.le_refl 0
  | cons c t ih =>
    rw [List.length_cons, List.map_cons, List.sum_cons, Nat.add_comm]
    exact Nat.add_le_add (hpoint c) ih

end Custody.Utf8
