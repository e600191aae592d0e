import Custody.Text.CodePoint

/-! Byte strings and their hexadecimal form. -/
namespace Custody

abbrev Bytes := List UInt8

namespace Bytes

/-- Two lower-case hexadecimal digits for each byte. -/
def toHex (b : Bytes) : Text := b.flatMap fun x => Text.hex 2 x.toNat

/-- Reads pairs of hexadecimal digits of either case. -/
def ofHex? : Text → Option Bytes
  | [] => some []
  | [_] => none
  | hi :: lo :: rest => do
    let h ← hi.hexValue?
    let l ← lo.hexValue?
    let bytes ← ofHex? rest
    return UInt8.ofNat (16 * h + l) :: bytes

/-- As many zero bytes as there were bytes. -/
def wipe (b : Bytes) : Bytes := b.map fun _ => 0

end Bytes

end Custody
