import Custody.Text.CodePoint

/-! Doubles from decimal digits, correctly rounded. -/
namespace Custody.Decimal

def natOfDigits (ds : Text) : Nat := ds.foldl (fun n c => 10 * n + (c.val - 0x30)) 0

/-- The double nearest to `digits · 10^exponent`. Beyond four hundred places it is infinite or zero. -/
def toFloat (negative : Bool) (digits : Nat) (exponent : Int) : Float :=
  let size : Int := (Text.ofNat digits).length
  let x : Float :=
    if digits = 0 then 0.0
    else if 400 < exponent + size then 1.0 / 0.0
    else if exponent + size < -400 then 0.0
    else if 0 ≤ exponent then OfScientific.ofScientific digits false exponent.toNat
    else OfScientific.ofScientific digits true (-exponent).toNat
  if negative then -x else x

/-- A decimal number in its parts: sign, digits before and after the point, and exponent. -/
structure Parts where
  negative : Bool
  whole : Text
  fraction : Text
  exponent : Int

def Parts.toFloat (p : Parts) : Float :=
  Decimal.toFloat p.negative (natOfDigits (p.whole ++ p.fraction)) (p.exponent - p.fraction.length)

def ofInt (i : Int) : Float := Decimal.toFloat (i < 0) i.natAbs 0

end Custody.Decimal
