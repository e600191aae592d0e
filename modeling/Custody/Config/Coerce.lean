import Custody.Config.Problem
import Custody.Data.Value
import Custody.Numeric.Decimal
import Custody.Storage.Path
import Custody.Text.Case
import Custody.Text.Class

/-! From the values that are given for settings to the values that they need. -/
namespace Custody.Config

/-- The integer that a double is, if it is one. -/
def wholeOf? (x : Float) : Option Int :=
  let bits := x.toBits.toNat
  let b := Shortest.Binary.ofBits bits
  let n? : Option Nat :=
    if 0 ≤ b.exponent then some (b.significand <<< b.exponent.toNat)
    else
      let den := 1 <<< (-b.exponent).toNat
      if b.significand % den = 0 then some (b.significand / den) else none
  n?.map fun n => if Shortest.signBit ≤ bits then -(n : Int) else n

/-- Whole doubles beyond sixty-four bits are not taken as integers. -/
def wholeLimit : Int := 9223372036854775808

def maxIntegerText : Nat := 4300

/-- Digits with single underscores between them, without the underscores. -/
def barredDigits? : Text → Option Text
  | [] => none
  | [c] => if c.isDigit then some [c] else none
  | c :: d :: rest =>
    if !c.isDigit then none
    else if d = '_' then (barredDigits? rest).map (c :: ·)
    else (barredDigits? (d :: rest)).map (c :: ·)

/-- A text without the zeros behind a decimal point. -/
def dropZeroFraction (t : Text) : Text :=
  match t.span fun c : CodePoint => c ≠ '.' with
  | (whole, _ :: fraction) => if fraction.all fun c : CodePoint => c = '0' then whole else t
  | (_, []) => t

def splitSign : Text → Bool × Text
  | [] => (false, [])
  | c :: t => if c = '-' then (true, t) else if c = '+' then (false, t) else (false, c :: t)

def integerText (t : Text) : Except Mismatch Int :=
  let t := t.trim CodePoint.isWhiteSpace
  if maxIntegerText < t.length then .error .integerTextTooLong
  else
    let (negative, ds) := splitSign (dropZeroFraction t)
    match barredDigits? ds with
    | none => .error .integerText
    | some ds =>
      let n : Int := Decimal.natOfDigits ds
      .ok (if negative then -n else n)

/-- An integer: a whole number of any form, or a text that writes one. -/
def integer : Value → Except Mismatch Int
  | .int i => .ok i
  | .bool b => .ok (if b then 1 else 0)
  | .float x =>
    if x.isNaN || x.isInf then .error .notFinite
    else match wholeOf? x with
      | none => .error .integerFraction
      | some i => if wholeLimit < i || i < -wholeLimit then .error .integerTextTooLong else .ok i
  | .text t => integerText t
  | _ => .error .integerType

def exponent? : Text → Option Int
  | [] => some 0
  | e :: t =>
    if !(e = 'e' || e = 'E') then none
    else
      let (negative, ds) := splitSign t
      if ds = [] || !ds.all CodePoint.isDigit then none
      else
        let n : Int := Decimal.natOfDigits ds
        some (if negative then -n else n)

/-- Digits, a point and an exponent. There is a digit before the point or behind it. -/
def decimalText? (negative : Bool) (t : Text) : Option Float := do
  let whole := t.takeWhile CodePoint.isDigit
  let t := t.drop whole.length
  let (fraction, t) := match t with
    | c :: rest => if c = '.' then (rest.takeWhile CodePoint.isDigit, rest.dropWhile CodePoint.isDigit) else ([], t)
    | [] => ([], [])
  if whole = [] && fraction = [] then none
  else
    let e ← exponent? t
    return (⟨negative, whole, fraction, e⟩ : Decimal.Parts).toFloat

/-- A number without blanks: infinite, no number at all, or decimal. -/
def bareNumber? (t : Text) : Option Float :=
  let (negative, u) := splitSign t
  let signed (x : Float) : Float := if negative then -x else x
  let w := u.map fun c => if c.isUpper then ⟨(c.val + 0x20) % 0x110000, Nat.mod_lt _ (by decide)⟩ else c
  if w = Text.ofString "inf" || w = Text.ofString "infinity" then some (signed (1.0 / 0.0))
  else if w = Text.ofString "nan" then some (signed (0.0 / 0.0))
  else decimalText? negative u

/-- Whether underscores stand alone and within a text. -/
def isBarredText (t : Text) : Bool :=
  t.head? ≠ some ('_' : CodePoint) && t.getLast? ≠ some ('_' : CodePoint) && !Text.occursIn "__" t

/-- A number with blanks around it, or else with underscores within it. -/
def numberText (t : Text) : Except Mismatch Float :=
  match bareNumber? (t.trim CodePoint.isWhiteSpace) with
  | some x => .ok x
  | none =>
    match if isBarredText t then bareNumber? (t.filter fun c : CodePoint => c ≠ '_') else none with
    | some x => .ok x
    | none => .error .numberText

def number : Value → Except Mismatch Float
  | .int i =>
    let x := Decimal.ofInt i
    if x.isInf then .error .numberType else .ok x
  | .bool b => .ok (if b then 1.0 else 0.0)
  | .float x => .ok x
  | .text t => numberText t
  | _ => .error .numberType

def path : Value → Except Mismatch Path
  | .text t => .ok (Path.ofText t)
  | _ => .error .pathType

def optionalPath : Value → Except Mismatch (Option Path)
  | .null => .ok none
  | v => (path v).map some

def text : Value → Except Mismatch Text
  | .text t => .ok t
  | _ => .error .textType

/-- A value that has to pass a rule. -/
def ruled {α : Type} (holds : α → Bool) (rule : String) (read : Value → Except Mismatch α) (v : Value) :
    Except Mismatch α := do
  let a ← read v
  if holds a then return a else .error (.rule rule)

end Custody.Config
