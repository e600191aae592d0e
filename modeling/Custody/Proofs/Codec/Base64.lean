import Custody.Codec.Base64

/-! Base64 reads back what it writes, and writes nothing but symbols and padding. -/
namespace Custody.Base64

/-- A symbol has its number back. -/
theorem value?_symbol {n : Nat} (h : n < 64) : value? (symbol n) = some n := by
  have hall : ∀ n < 64, value? (symbol n) = some n := by decide +kernel
  exact hall n h

theorem symbol_ne {n : Nat} (h : n < 64) {c : CodePoint} (hc : value? c = none) : symbol n ≠ c := by
  intro hs
  have hv := value?_symbol h
  rw [hs, hc] at hv
  cases hv

theorem symbol_ne_pad {n : Nat} (h : n < 64) : symbol n ≠ ('=' : CodePoint) := symbol_ne h (by decide)

/-- Four symbols are three bytes, whatever follows them. -/
theorem decodeGroups?_symbols {p q r s : Nat} (hp : p < 64) (hq : q < 64) (hr : r < 64) (hs : s < 64)
    (rest : Text) :
    decodeGroups? (symbol p :: symbol q :: symbol r :: symbol s :: rest) = (decodeGroups? rest).map fun bytes =>
      UInt8.ofNat (p * 4 + q / 16) :: UInt8.ofNat (q % 16 * 16 + r / 4) :: UInt8.ofNat (r % 4 * 64 + s) :: bytes := by
  rw [decodeGroups?, if_neg (by simp [symbol_ne_pad hp]), value?_symbol hp, value?_symbol hq, value?_symbol hr,
    value?_symbol hs]
  simp only [Option.bind_eq_bind, Option.bind_some, if_neg (symbol_ne_pad hr), if_neg (symbol_ne_pad hs)]
  cases decodeGroups? rest <;> rfl

private theorem decodeGroups?_pad {p q r : Nat} (hp : p < 64) (hq : q < 64) (hr : r < 64) :
    decodeGroups? [symbol p, symbol q, symbol r, '='] =
      some [UInt8.ofNat (p * 4 + q / 16), UInt8.ofNat (q % 16 * 16 + r / 4)] := by
  rw [decodeGroups?, if_neg (by simp [symbol_ne_pad hp]), value?_symbol hp, value?_symbol hq, value?_symbol hr]
  simp only [Option.bind_eq_bind, Option.bind_some, if_neg (symbol_ne_pad hr), if_true]
  rfl

private theorem decodeGroups?_pads {p q : Nat} (hp : p < 64) (hq : q < 64) :
    decodeGroups? [symbol p, symbol q, '=', '='] = some [UInt8.ofNat (p * 4 + q / 16)] := by
  rw [decodeGroups?, if_neg (by simp [symbol_ne_pad hp]), value?_symbol hp, value?_symbol hq]
  simp only [Option.bind_eq_bind, Option.bind_some, if_true, and_self]
  rfl

/-- What is written for a byte string is read as that byte string. -/
theorem decodeGroups?_encode (b : Bytes) : decodeGroups? (encode b) = some b := by
  induction b using encode.induct with
  | case1 => rfl
  | case2 a =>
    have ha := a.toNat_lt
    rw [encode, decodeGroups?_pads (by omega) (by omega)]
    congr
    rw [show a.toNat / 4 * 4 + a.toNat % 4 * 16 / 16 = a.toNat by omega, UInt8.ofNat_toNat]
  | case3 a b =>
    have ha := a.toNat_lt
    have hb := b.toNat_lt
    rw [encode, decodeGroups?_pad (by omega) (by omega) (by omega)]
    congr
    · rw [show a.toNat / 4 * 4 + (a.toNat % 4 * 16 + b.toNat / 16) / 16 = a.toNat by omega, UInt8.ofNat_toNat]
    · rw [show (a.toNat % 4 * 16 + b.toNat / 16) % 16 * 16 + b.toNat % 16 * 4 / 4 = b.toNat by omega,
        UInt8.ofNat_toNat]
  | case4 a b c rest ih =>
    have ha := a.toNat_lt
    have hb := b.toNat_lt
    have hc := c.toNat_lt
    rw [encode, decodeGroups?_symbols (by omega) (by omega) (by omega) (by omega), ih,
      Option.map_some]
    congr
    · rw [show a.toNat / 4 * 4 + (a.toNat % 4 * 16 + b.toNat / 16) / 16 = a.toNat by omega, UInt8.ofNat_toNat]
    · rw [show (a.toNat % 4 * 16 + b.toNat / 16) % 16 * 16 + (b.toNat % 16 * 4 + c.toNat / 64) / 4 = b.toNat by omega,
        UInt8.ofNat_toNat]
    · rw [show (b.toNat % 16 * 4 + c.toNat / 64) % 4 * 64 + c.toNat % 64 = c.toNat by omega, UInt8.ofNat_toNat]

/-- Only symbols and padding are written. -/
theorem forall_mem_encode {P : CodePoint → Prop} (symbols : ∀ n < 64, P (symbol n)) (pad : P '=') (b : Bytes) :
    ∀ c ∈ encode b, P c := by
  induction b using encode.induct with
  | case1 => nofun
  | case2 a =>
    have ha := a.toNat_lt
    simp only [encode, List.forall_mem_cons]
    exact ⟨symbols _ (by omega), symbols _ (by omega), pad, pad, nofun⟩
  | case3 a b =>
    have ha := a.toNat_lt
    have hb := b.toNat_lt
    simp only [encode, List.forall_mem_cons]
    exact ⟨symbols _ (by omega), symbols _ (by omega), symbols _ (by omega), pad, nofun⟩
  | case4 a b c rest ih =>
    have ha := a.toNat_lt
    have hb := b.toNat_lt
    have hc := c.toNat_lt
    simp only [encode, List.forall_mem_cons]
    exact ⟨symbols _ (by omega), symbols _ (by omega), symbols _ (by omega), symbols _ (by omega), ih⟩

theorem colon_not_mem_encode (b : Bytes) : (':' : CodePoint) ∉ encode b := fun h =>
  forall_mem_encode (P := (· ≠ ':')) (fun _ hn => symbol_ne hn (by decide)) (by decide) b ':' h rfl

/-- An encoding never begins with padding. -/
theorem head?_encode_ne_pad (b : Bytes) : (encode b).head? ≠ some ('=' : CodePoint) := by
  cases b using encode.fun_cases with
  | case1 => nofun
  | case2 a =>
    have ha := a.toNat_lt
    simpa [encode] using symbol_ne_pad (by omega)
  | case3 a b =>
    have ha := a.toNat_lt
    simpa [encode] using symbol_ne_pad (by omega)
  | case4 a b c rest =>
    have ha := a.toNat_lt
    simpa [encode] using symbol_ne_pad (by omega)

theorem decode?_encode (b : Bytes) : decode? (encode b) = some b := by
  rw [decode?, if_neg (head?_encode_ne_pad b), decodeGroups?_encode]

/-- An encoding is no shorter than what it stands for. -/
theorem length_le_encode (b : Bytes) : b.length ≤ (encode b).length := by
  induction b using encode.induct with
  | case1 => exact Nat.le_refl 0
  | case2 a => simp [encode]
  | case3 a b => simp [encode]
  | case4 a b c rest ih =>
    simp only [encode, List.length_cons]
    omega

end Custody.Base64
