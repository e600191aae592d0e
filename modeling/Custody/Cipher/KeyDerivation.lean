import Custody.Cipher.Sha256

/-! Keys from pass phrases: PBKDF2 with HMAC-SHA256, for keys of one hash length. -/
namespace Custody

namespace Hmac

open Sha256

/-- The chaining words after the inner and the outer key block. -/
structure Key where
  inner : Chain
  outer : Chain

/-- A key of one block: longer ones are hashed first, and zeros fill the rest. -/
def block (key : Bytes) : Bytes :=
  let k := if key.length > 64 then digest key else key
  k ++ List.replicate (64 - k.length) 0

def Key.ofBytes (key : Bytes) : Key where
  inner := absorb initial (words ((block key).map (· ^^^ 0x36)))
  outer := absorb initial (words ((block key).map (· ^^^ 0x5c)))

/-- A digest as the one block that follows a key block. -/
def digestBlock (s : Chain) : Block :=
  ⟨s.a, s.b, s.c, s.d, s.e, s.f, s.g, s.h, 0x80000000, 0, 0, 0, 0, 0, 0, 768⟩

def mac (k : Key) (m : Bytes) : Chain := compress k.outer (digestBlock (finish k.inner 64 m))

/-- The code of a message that is itself a code, without going through bytes. -/
def macChain (k : Key) (s : Chain) : Chain :=
  compress k.outer (digestBlock (compress k.inner (digestBlock s)))

end Hmac

namespace KeyDerivation

open Sha256 Hmac

def xorChain (s t : Chain) : Chain :=
  ⟨s.a ^^^ t.a, s.b ^^^ t.b, s.c ^^^ t.c, s.d ^^^ t.d, s.e ^^^ t.e, s.f ^^^ t.f, s.g ^^^ t.g, s.h ^^^ t.h⟩

/-- The exclusive or of a code with the codes that follow it. -/
def iterate (k : Key) : (left : Nat) → (last sum : Chain) → Chain
  | 0, _, sum => sum
  | left + 1, last, sum =>
    let next := macChain k last
    iterate k left next (xorChain sum next)

/-- Rounds of the derivation; they are part of the payload format. -/
def roundCount : Nat := 65536

def derive (passphrase salt : Bytes) : Bytes :=
  let k := Key.ofBytes passphrase
  let first := mac k (salt ++ [0, 0, 0, 1])
  (iterate k (roundCount - 1) first first).toBytes

end KeyDerivation

end Custody
