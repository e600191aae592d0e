/-! Rounding of rationals to the 53 binary digits of a double, with exact results. -/
namespace Custody.Nearest

/-- The integer nearest to a quotient; a half goes to the even neighbour. -/
def roundDiv (num den : Nat) : Nat :=
  let q := num / den
  let r := num % den
  if 2 * r < den then q
  else if den < 2 * r then q + 1
  else if q % 2 = 0 then q else q + 1

/-- The exponent of the greatest power of two that is at most `num / den`, for positive numbers. -/
def log2Div (num den : Nat) : Int :=
  let guess : Int := (Nat.log2 num : Int) - Nat.log2 den
  let reached : Bool := if 0 ≤ guess then den <<< guess.toNat ≤ num else den ≤ num <<< (-guess).toNat
  if reached then guess else guess - 1

/-- The number with 53 binary digits nearest to a quotient. The range of the exponent has no limits. -/
def roundQuotient (num den : Nat) : Rat :=
  if num = 0 then 0
  else
    let e := log2Div num den - 52
    if 0 ≤ e then (roundDiv num (den <<< e.toNat) <<< e.toNat : Nat)
    else mkRat (roundDiv (num <<< (-e).toNat) den) (1 <<< (-e).toNat)

def round (q : Rat) : Rat :=
  if q.num < 0 then -roundQuotient q.num.natAbs q.den else roundQuotient q.num.natAbs q.den

end Custody.Nearest
