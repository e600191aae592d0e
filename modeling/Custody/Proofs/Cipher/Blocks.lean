import Custody.Cipher.Aes
import Custody.Cipher.KeyDerivation
import Mathlib.Data.List.Basic

/-! Sizes in the block cipher: from a key of thirty-two bytes, a block becomes a block. -/
namespace Custody

theorem KeyDerivation.length_derive (passphrase salt : Bytes) : (derive passphrase salt).length = 32 := rfl

namespace Aes

theorem length_xor (s t : Bytes) : (xor s t).length = min s.length t.length := List.length_zipWith

/-- What was added is taken away by adding it again. -/
theorem xor_xor {s k : Bytes} (h : s.length ≤ k.length) : xor (xor s k) k = s := by
  induction s generalizing k with
  | nil => cases k <;> rfl
  | cons a s ih =>
    cases k with
    | nil => cases h
    | cons x k =>
      have hbyte : a ^^^ x ^^^ x = a := by rw [UInt8.xor_assoc, UInt8.xor_self, UInt8.xor_zero]
      change (a ^^^ x ^^^ x) :: xor (xor s k) k = a :: s
      rw [hbyte, ih (Nat.le_of_succ_le_succ h)]

theorem length_shiftRows (s : Bytes) : (shiftRows s).length = s.length := by
  unfold shiftRows
  split <;> rfl

theorem length_mixColumns (s : Bytes) : (mixColumns s).length = s.length := by
  induction s using mixColumns.induct with
  | case1 a b c d rest ih => simp only [mixColumns, List.length_cons, ih]
  | case2 s h =>
    rw [mixColumns]
    exact h

section Words
variable {α : Type} {n count : Nat}

theorem length_of_mem_pieces {l : List α} (h : count * n ≤ l.length) {p : List α} (hp : p ∈ pieces n count l) :
    p.length = n := by
  induction count generalizing l with
  | zero => cases hp
  | succ count ih =>
    rw [Nat.succ_mul] at h
    rcases List.mem_cons.1 hp with rfl | hp
    · rw [List.length_take]
      omega
    · exact ih (by rw [List.length_drop]; omega) hp

theorem length_pieces (l : List α) : (pieces n count l).length = count := by
  induction count generalizing l with
  | zero => rfl
  | succ count ih => rw [pieces, List.length_cons, ih]

/-- Words of four bytes are followed by words of four bytes. -/
theorem length_of_mem_expand {left done : Nat} {rcon : UInt8} {last : List Bytes} (hne : last ≠ [])
    (hlast : ∀ w ∈ last, w.length = 4) {w : Bytes} (hw : w ∈ expand left done rcon last) : w.length = 4 := by
  induction left generalizing done rcon last with
  | zero => cases hw
  | succ left ih =>
    have hold : (last.headD []).length = 4 := by
      obtain ⟨old, rest, rfl⟩ := List.exists_cons_of_ne_nil hne
      exact hlast old List.mem_cons_self
    have hprev : (last.getLastD []).length = 4 := by
      rw [List.getLastD_eq_getLast?, List.getLast?_eq_some_getLast hne]
      exact hlast _ (List.getLast_mem hne)
    unfold expand at hw
    extract_lets old prev turned next at hw
    have hturned : turned.length = 4 := by
      change prev.length = 4 at hprev
      clear_value prev
      dsimp only [turned]
      split
      · split
        · rfl
        · exact hprev
      · split
        · rw [List.length_map]
          exact hprev
        · exact hprev
    have hnext : next.length = 4 := by
      change (xor old turned).length = 4
      rw [length_xor, hturned, show old.length = 4 from hold]
      rfl
    rcases List.mem_cons.1 hw with rfl | hw
    · exact hnext
    · refine ih (List.append_ne_nil_of_right_ne_nil _ (List.cons_ne_nil _ _)) (fun v hv => ?_) hw
      rcases List.mem_append.1 hv with hv | hv
      · exact hlast v (List.mem_of_mem_tail hv)
      · rw [List.mem_singleton.1 hv]
        exact hnext

private theorem length_expand (left done : Nat) (rcon : UInt8) (last : List Bytes) :
    (expand left done rcon last).length = left := by
  induction left generalizing done rcon last with
  | zero => rfl
  | succ left ih =>
    unfold expand
    extract_lets old prev turned next
    rw [List.length_cons, ih]

private theorem length_flatten {ws : List (List α)} (h : ∀ w ∈ ws, w.length = n) :
    ws.flatten.length = ws.length * n := by
  rw [List.length_flatten, List.map_congr_left (g := fun _ => n) h]
  simp

end Words

/-- A key of thirty-two bytes has fifteen round keys of one block each. -/
theorem length_of_mem_roundKeys {key : Bytes} (h : key.length = 32) {k : Bytes} (hk : k ∈ roundKeys key) :
    k.length = 16 := by
  have hstart : ∀ w ∈ pieces 4 8 key, w.length = 4 := fun w hw => length_of_mem_pieces (by omega) hw
  have hwords : ∀ w ∈ pieces 4 8 key ++ expand 52 8 1 (pieces 4 8 key), w.length = 4 := by
    intro w hw
    rcases List.mem_append.1 hw with hw | hw
    · exact hstart w hw
    · exact length_of_mem_expand (List.cons_ne_nil _ _) hstart hw
  have hbytes : (pieces 4 8 key ++ expand 52 8 1 (pieces 4 8 key)).flatten.length = (8 + 52) * 4 := by
    rw [length_flatten hwords, List.length_append, length_pieces, length_expand]
  exact length_of_mem_pieces (show 15 * 16 ≤ _ from Nat.le_of_eq hbytes.symm) hk

private theorem length_encryptRounds {keys : List Bytes} (hkeys : ∀ k ∈ keys, k.length = 16)
    {s : Bytes} (h : s.length = 16) :
    (encryptRounds keys s).length = 16 := by
  induction keys generalizing s with
  | nil => exact h
  | cons k rest ih =>
    have hk : k.length = 16 := hkeys k List.mem_cons_self
    cases rest with
    | nil => rw [encryptRounds, length_xor, length_shiftRows, List.length_map, h, hk]; rfl
    | cons k' rest =>
      rw [encryptRounds]
      · refine ih (fun k'' hk'' => hkeys k'' (List.mem_cons_of_mem _ hk'')) ?_
        rw [length_xor, length_mixColumns, length_shiftRows, List.length_map, h, hk]
        rfl
      · exact List.cons_ne_nil _ _

/-- Under a schedule of whole blocks a block becomes a block. -/
theorem length_encryptBlock {keys : List Bytes} (hkeys : ∀ k ∈ keys, k.length = 16) {s : Bytes}
    (h : s.length = 16) : (encryptBlock keys s).length = 16 := by
  cases keys with
  | nil => exact h
  | cons k rest =>
    refine length_encryptRounds (fun k' hk' => hkeys k' (List.mem_cons_of_mem _ hk')) ?_
    rw [length_xor, h, hkeys k List.mem_cons_self]
    rfl

end Aes

end Custody
