import Custody.Bytes

/-! UTF-8 over code points. A surrogate has no encoding, and the decoder accepts the shortest form alone. -/
namespace Custody.Utf8

def encodePoint (c : CodePoint) : Bytes :=
  let n := c.val
  if n < 0x80 then [UInt8.ofNat n]
  else if n < 0x800 then [UInt8.ofNat (0xC0 + n / 64), UInt8.ofNat (0x80 + n % 64)]
  else if n < 0x10000 then
    [UInt8.ofNat (0xE0 + n / 4096), UInt8.ofNat (0x80 + n / 64 % 64), UInt8.ofNat (0x80 + n % 64)]
  else
    [UInt8.ofNat (0xF0 + n / 262144), UInt8.ofNat (0x80 + n / 4096 % 64),
      UInt8.ofNat (0x80 + n / 64 % 64), UInt8.ofNat (0x80 + n % 64)]

/-- The encoding of a text, unless it holds a surrogate. -/
def encode? (t : Text) : Option Bytes :=
  if t.isScalar then some (t.flatMap encodePoint) else none

/-- The six payload bits of a continuation byte. -/
def continuation? (b : UInt8) : Option Nat :=
  if 0x80 ≤ b.toNat && b.toNat < 0xC0 then some (b.toNat - 0x80) else none

/-- The code point that needs at least `least` and is no surrogate. -/
def accept? (least n : Nat) : Option CodePoint :=
  if n < least then none
  else (CodePoint.ofNat? n).filter (!·.isSurrogate)

/-- Decodes a whole byte string, or nothing of it. -/
def decode? : Bytes → Option Text
  | [] => some []
  | a :: rest =>
    if a.toNat < 0x80 then do
      let c ← accept? 0 a.toNat
      return c :: (← decode? rest)
    else if a.toNat < 0xC0 then none
    else if a.toNat < 0xE0 then
      match rest with
      | b :: rest => do
        let x ← continuation? b
        let c ← accept? 0x80 ((a.toNat - 0xC0) * 64 + x)
        return c :: (← decode? rest)
      | _ => none
    else if a.toNat < 0xF0 then
      match rest with
      | b :: d :: rest => do
        let x ← continuation? b
        let y ← continuation? d
        let c ← accept? 0x800 (((a.toNat - 0xE0) * 64 + x) * 64 + y)
        return c :: (← decode? rest)
      | _ => none
    else
      match rest with
      | b :: d :: e :: rest => do
        let x ← continuation? b
        let y ← continuation? d
        let z ← continuation? e
        let c ← accept? 0x10000 ((((a.toNat - 0xF0) * 64 + x) * 64 + y) * 64 + z)
        return c :: (← decode? rest)
      | _ => none

end Custody.Utf8
