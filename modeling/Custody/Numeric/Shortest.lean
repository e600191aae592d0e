import Custody.Text.CodePoint

/-! The shortest decimal that reads back as a given double, in exact integer arithmetic. -/
namespace Custody.Shortest

/-- A positive double: a significand below 2⁵³ and a power of two. -/
structure Binary where
  significand : Nat
  exponent : Int
deriving DecidableEq, Repr

/-- A positive decimal: digits and a power of ten. -/
structure Decimal where
  digits : Nat
  exponent : Int
deriving DecidableEq, Repr

/-- The bit that a significand has without being written. -/
def hiddenBit : Nat := 1 <<< 52

def signBit : Nat := 1 <<< 63

/-- The significand and exponent behind the bits of a finite double. -/
def Binary.ofBits (bits : Nat) : Binary :=
  let fraction : Nat := bits % hiddenBit
  let biased : Nat := bits >>> 52 % 2048
  if biased = 0 then ⟨fraction, -1074⟩ else ⟨hiddenBit + fraction, (biased : Int) - 1075⟩

/-- The number of decimal digits, less one. -/
def log10 (n : Nat) : Nat := (Text.ofNat n).length - 1

/-- The greatest power of ten that is at most `num / den`, for positive numbers. -/
def magnitude (num den : Nat) : Int :=
  if den ≤ num then (log10 (num / den) : Int)
  else
    let l := log10 (den / num)
    if den ≤ num * Nat.pow 10 l then -(l : Int) else -((l : Int) + 1)

def tenPower (k : Int) : Nat × Nat := if 0 ≤ k then (Nat.pow 10 k.toNat, 1) else (1, Nat.pow 10 (-k).toNat)

/-- The grid of decimals with `n` digits: one of the two neighbours of the value on it, if it lies in
the interval of numbers that round to the value. The nearer one wins, and the even one at a tie. -/
def onGrid? (b : Binary) (n : Nat) : Option Decimal :=
  -- All numbers are counted in quarters of the last binary place.
  let value := 4 * b.significand
  let low := if b.significand = hiddenBit ∧ -1074 < b.exponent then value - 1 else value - 2
  let high := value + 2
  let (unitNum, unitDen) :=
    if 2 ≤ b.exponent then (1 <<< (b.exponent - 2).toNat, 1) else (1, 1 <<< (2 - b.exponent).toNat)
  let k := magnitude (value * unitNum) unitDen - (n : Int) + 1
  let (tenNum, tenDen) := tenPower k
  let scale := unitNum * tenDen
  let step := tenNum * unitDen
  let closed := b.significand % 2 = 0
  let inside (d : Nat) : Bool :=
    let x := d * step
    if closed then low * scale ≤ x && x ≤ high * scale else low * scale < x && x < high * scale
  let below := value * scale / step
  let down := value * scale - below * step
  let up := (below + 1) * step - value * scale
  let best := if down < up ∨ (down = up ∧ below % 2 = 0) then below else below + 1
  let second := if best = below then below + 1 else below
  if inside best then some ⟨best, k⟩
  else if inside second then some ⟨second, k⟩
  else none

/-- The first grid that has a decimal for the value; seventeen digits are always enough. -/
def find (b : Binary) : (n : Nat) → (left : Nat) → Decimal
  | n, 0 => (onGrid? b n).getD ⟨b.significand, 0⟩
  | n, left + 1 => match onGrid? b n with
    | some d => d
    | none => find b (n + 1) left

/-- The same decimal without closing zeros among its digits. -/
def Decimal.reduce (d : Decimal) : Decimal :=
  if h : d.digits ≠ 0 ∧ d.digits % 10 = 0 then reduce ⟨d.digits / 10, d.exponent + 1⟩ else d
termination_by d.digits
decreasing_by omega

def Decimal.ofBinary (b : Binary) : Decimal := (find b 1 17).reduce

/-- How a decimal is laid out. -/
structure Layout where
  /-- Positional notation from this power of ten of the first digit … -/
  least : Int
  /-- … up to this one. -/
  greatest : Int
  /-- The least number of digits of an exponent. -/
  exponentDigits : Nat

/-- Positional notation between a ten-thousandth and ten quadrillions, always with a digit after the
point; otherwise a signed exponent of two or more digits. -/
def standard : Layout := ⟨-4, 15, 2⟩

def Decimal.render (f : Layout) (d : Decimal) : Text :=
  let ds := Text.ofNat d.digits
  let first : Int := d.exponent + (ds.length : Int) - 1
  if f.least ≤ first ∧ first ≤ f.greatest then
    if first < 0 then "0." ++ List.replicate ((-first).toNat - 1) ('0' : CodePoint) ++ ds
    else
      let whole := first.toNat + 1
      let padded := ds ++ List.replicate (whole - ds.length) ('0' : CodePoint)
      let rest := padded.drop whole
      padded.take whole ++ "." ++ (if rest = [] then "0" else rest : Text)
  else
    let sign : Text := if first < 0 then "-" else "+"
    let tail : Text := if ds.length ≤ 1 then [] else "." ++ ds.drop 1
    ds.take 1 ++ tail ++ "e" ++ sign ++ Text.ofNatPadded f.exponentDigits first.natAbs

def render (x : Float) : Text :=
  let bits := x.toBits.toNat
  let sign : Text := if signBit ≤ bits then "-" else []
  let b := Binary.ofBits bits
  if b.significand = 0 then sign ++ "0.0" else sign ++ (Decimal.ofBinary b).render standard

end Custody.Shortest
