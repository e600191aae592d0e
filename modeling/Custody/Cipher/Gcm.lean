import Custody.Cipher.Aes

/-! Galois counter mode: a key stream from a counter, and a tag of sixteen bytes behind the ciphertext. -/
namespace Custody.Gcm

def tagLength : Nat := 16

def toNat (b : Bytes) : Nat := b.foldl (fun n x => 256 * n + x.toNat) 0

/-- The last `width` bytes of a number, big-endian. -/
def ofNat : (width : Nat) → Nat → Bytes
  | 0, _ => []
  | w + 1, n => ofNat w (n / 256) ++ [UInt8.ofNat n]

/-- The product in the field of 2¹²⁸ elements, whose numbers carry the lowest power in the highest
bit: `z` collects multiples of `v`, one for each bit of `x` from the top. -/
def mulLoop (x : Nat) : (bits z v : Nat) → Nat
  | 0, z, _ => z
  | i + 1, z, v =>
    let z := if x.testBit i then z ^^^ v else z
    let v := if v.testBit 0 then (v >>> 1) ^^^ (0xe1 <<< 120) else v >>> 1
    mulLoop x i z v

def mul (x y : Nat) : Nat := mulLoop x 128 0 y

/-- A message as blocks of sixteen bytes, the last one filled with zeros. -/
def blocks (m : Bytes) : List Bytes :=
  (Aes.pieces 16 ((m.length + 15) / 16) m).map fun b => b ++ List.replicate (16 - b.length) 0

/-- The hash of a ciphertext without associated data, under the hash key `h`. -/
def hash (h : Nat) (ciphertext : Bytes) : Nat :=
  let y := (blocks ciphertext).foldl (fun y b => mul (y ^^^ toNat b) h) 0
  mul (y ^^^ (8 * ciphertext.length)) h

/-- The counter block `n` of a nonce of twelve bytes. -/
def counterBlock (nonce : Bytes) (n : Nat) : Bytes := nonce ++ ofNat 4 n

/-- As many bytes of key stream as the text has, added to it. The first counter is two. -/
def crypt (encrypt : Bytes → Bytes) (nonce text : Bytes) : Bytes :=
  let stream := (List.range ((text.length + 15) / 16)).flatMap fun i => encrypt (counterBlock nonce (i + 2))
  Aes.xor text stream

def tag (encrypt : Bytes → Bytes) (nonce ciphertext : Bytes) : Bytes :=
  let h := toNat (encrypt (List.replicate 16 0))
  Aes.xor (ofNat 16 (hash h ciphertext)) (encrypt (counterBlock nonce 1))

def sealWith (encrypt : Bytes → Bytes) (nonce plain : Bytes) : Bytes :=
  let ciphertext := crypt encrypt nonce plain
  ciphertext ++ tag encrypt nonce ciphertext

/-- The text behind a ciphertext, if the tag is the right one. -/
def openWith? (encrypt : Bytes → Bytes) (nonce sealedBytes : Bytes) : Option Bytes :=
  let n := sealedBytes.length - tagLength
  let ciphertext := sealedBytes.take n
  if sealedBytes.drop n = tag encrypt nonce ciphertext then some (crypt encrypt nonce ciphertext) else none

def sealBytes (key nonce plain : Bytes) : Bytes := sealWith (Aes.encryptBlock (Aes.roundKeys key)) nonce plain

def openBytes? (key nonce sealedBytes : Bytes) : Option Bytes :=
  openWith? (Aes.encryptBlock (Aes.roundKeys key)) nonce sealedBytes

end Custody.Gcm
