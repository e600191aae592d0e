import Custody.Cipher.Gcm
import Custody.Proofs.Cipher.Blocks

/-! What Galois counter mode has sealed it opens again, under the same key and the same nonce. -/
namespace Custody.Gcm
open Aes (xor length_xor)

theorem length_ofNat (width n : Nat) : (ofNat width n).length = width := by
  induction width generalizing n with
  | zero => rfl
  | succ w ih => rw [ofNat, List.length_append, ih, List.length_singleton]

theorem length_counterBlock {nonce : Bytes} (h : nonce.length = 12) (n : Nat) :
    (counterBlock nonce n).length = 16 := by
  rw [counterBlock, List.length_append, h, length_ofNat]

private theorem length_crypt_le (encrypt : Bytes → Bytes) (nonce text : Bytes) :
    (crypt encrypt nonce text).length ≤ text.length := by
  rw [crypt, length_xor]
  exact Nat.min_le_left _ _

theorem length_le_of_openBytes? {key nonce sealedBytes plain : Bytes}
    (h : openBytes? key nonce sealedBytes = some plain) : plain.length ≤ sealedBytes.length := by
  unfold openBytes? openWith? at h
  dsimp only at h
  split at h
  · cases h
    exact Nat.le_trans (length_crypt_le _ _ _) (List.length_take_le' _ _)
  · cases h

section Blocks
-- The cipher makes blocks of blocks, and the nonce leaves room for a counter of four bytes.
variable {encrypt : Bytes → Bytes} (block : ∀ s, s.length = 16 → (encrypt s).length = 16)
  {nonce : Bytes} (hn : nonce.length = 12)
include block hn

/-- The key stream of a number of blocks is that long. -/
theorem length_stream (count : Nat) :
    ((List.range count).flatMap fun i => encrypt (counterBlock nonce (i + 2))).length = count * 16 := by
  induction count with
  | zero => rfl
  | succ count ih =>
    rw [List.range_succ, List.flatMap_append, List.length_append, ih, List.flatMap_singleton,
      block _ (length_counterBlock hn _), Nat.succ_mul]

theorem length_crypt (text : Bytes) : (crypt encrypt nonce text).length = text.length := by
  rw [crypt, length_xor, length_stream block hn]
  omega

/-- The key stream depends on nothing but the length of the text, so it can be added again. -/
theorem crypt_crypt (text : Bytes) : crypt encrypt nonce (crypt encrypt nonce text) = text := by
  have hstream : text.length ≤ ((List.range ((text.length + 15) / 16)).flatMap fun i =>
      encrypt (counterBlock nonce (i + 2))).length := by
    rw [length_stream block hn]
    omega
  rw [crypt, length_crypt block hn]
  exact Aes.xor_xor hstream

private theorem length_tag (ciphertext : Bytes) : (tag encrypt nonce ciphertext).length = 16 := by
  rw [tag, length_xor, length_ofNat, block _ (length_counterBlock hn 1), Nat.min_self]

theorem length_sealWith (plain : Bytes) : (sealWith encrypt nonce plain).length = plain.length + 16 := by
  rw [sealWith, List.length_append, length_crypt block hn, length_tag block hn]

theorem openWith?_sealWith (plain : Bytes) :
    openWith? encrypt nonce (sealWith encrypt nonce plain) = some plain := by
  have hcut : (sealWith encrypt nonce plain).length - tagLength = (crypt encrypt nonce plain).length := by
    rw [length_sealWith block hn, length_crypt block hn, tagLength, Nat.add_sub_cancel]
  unfold openWith?
  dsimp only
  rw [hcut, sealWith, List.drop_left, List.take_left, if_pos rfl, crypt_crypt block hn]

end Blocks

section Keys
variable {key nonce : Bytes} (hk : key.length = 32) (hn : nonce.length = 12)
include hk hn

theorem openBytes?_sealBytes (plain : Bytes) : openBytes? key nonce (sealBytes key nonce plain) = some plain :=
  openWith?_sealWith (fun _ hs => Aes.length_encryptBlock (fun _ => Aes.length_of_mem_roundKeys hk) hs) hn plain

theorem length_sealBytes (plain : Bytes) : (sealBytes key nonce plain).length = plain.length + 16 :=
  length_sealWith (fun _ hs => Aes.length_encryptBlock (fun _ => Aes.length_of_mem_roundKeys hk) hs) hn plain

end Keys

end Custody.Gcm
