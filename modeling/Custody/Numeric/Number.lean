import Custody.Numeric.Decimal

/-! Numbers that stay whole as long as they meet only whole numbers. -/
namespace Custody

/-- A whole number or a double. -/
inductive Number where
  | whole (i : Int)
  | real (x : Float)
deriving Inhabited

namespace Number

def toFloat : Number → Float
  | whole i => Decimal.ofInt i
  | real x => x

instance : Add Number where
  add
    | whole i, whole j => whole (i + j)
    | a, b => real (a.toFloat + b.toFloat)

instance : Sub Number where
  sub
    | whole i, whole j => whole (i - j)
    | a, b => real (a.toFloat - b.toFloat)

def isLess : Number → Number → Bool
  | whole i, whole j => i < j
  | a, b => a.toFloat < b.toFloat

instance : LT Number where
  lt a b := isLess a b = true

instance : DecidableLT Number := fun a b => inferInstanceAs (Decidable (isLess a b = true))

/-- The least time that can be waited is a double. -/
instance : OfNat Number 0 := ⟨real 0.0⟩

end Number

end Custody
