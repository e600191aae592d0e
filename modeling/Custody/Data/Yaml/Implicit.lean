import Custody.Calendar.Timestamp
import Custody.Data.Value
import Custody.Numeric.Decimal
import Custody.Text.Case

/-! The types that YAML gives to plain scalars by their form, and the values that they write. -/
namespace Custody.Yaml

/-- The types of scalars. `merge` and `default` are the forms of keys with a special meaning. -/
inductive ScalarType where
  | null
  | bool
  | int
  | float
  | timestamp
  | text
  | merge
  | default
deriving DecidableEq, Repr, Inhabited

def isDigitOrBar (c : CodePoint) : Bool := c.isDigit || c = '_'

def unsigned : Text → Text
  | [] => []
  | c :: t => if c = '+' || c = '-' then t else c :: t

def isNegative (t : Text) : Bool := t.head? = some ('-' : CodePoint)

/-- A number below sixty after a colon, with one digit or two. -/
def isSixtieth : Text → Bool
  | [a] => a.isDigit
  | [a, b] => a.isDigit && a.val ≤ 0x35 && b.isDigit
  | _ => false

/-- Digits and underscores after a first digit of some range. -/
def isBarred (least : Char) (t : Text) : Bool :=
  match t with
  | [] => false
  | c :: rest => c.isDigit && (CodePoint.ofChar least).val ≤ c.val && rest.all isDigitOrBar

/-- Digits after a letter that tells the base. -/
def hasBase (letter : Char) (p : CodePoint → Bool) : Text → Bool
  | z :: l :: rest => z = '0' && l = CodePoint.ofChar letter && !rest.isEmpty && rest.all p
  | _ => false

def isBinaryDigit (c : CodePoint) : Bool := c = '0' || c = '1' || c = '_'

def isOctalDigit (c : CodePoint) : Bool := (0x30 ≤ c.val && c.val ≤ 0x37) || c = '_'

def isHexDigit (c : CodePoint) : Bool := c.hexValue?.isSome || c = '_'

/-- Integers: binary, octal, decimal, hexadecimal, or by sixties. -/
def isInteger (t : Text) : Bool :=
  let u := unsigned t
  hasBase 'b' isBinaryDigit u
    || (match u with
      | z :: rest => z = '0' && rest.all isOctalDigit
      | [] => false)
    || isBarred '1' u
    || hasBase 'x' isHexDigit u
    || (match u.splitOn ':' with
      | first :: second :: rest => isBarred '1' first && (second :: rest).all isSixtieth
      | _ => false)

def isExponent : Text → Bool
  | [] => true
  | e :: s :: d :: rest => (e = 'e' || e = 'E') && (s = '+' || s = '-') && d.isDigit && rest.all CodePoint.isDigit
  | _ => false

def isFraction (t : Text) : Bool := isExponent (t.dropWhile isDigitOrBar)

/-- The part of a text before the first point, and what is behind it. -/
def atPoint? (t : Text) : Option (Text × Text) :=
  match t.span fun c : CodePoint => c ≠ '.' with
  | (a, _ :: b) => some (a, b)
  | (_, []) => none

def isInfinity (t : Text) : Bool :=
  [".inf", ".Inf", ".INF"].any fun s => Text.ofString s = t

def isNotANumber (t : Text) : Bool :=
  [".nan", ".NaN", ".NAN"].any fun s => Text.ofString s = t

/-- Decimals with a point, by sixties or not, and the numbers that are not finite. -/
def isDecimal (t : Text) : Bool :=
  isInfinity (unsigned t) || isNotANumber t
    || (match atPoint? (unsigned t) with
      | some ([], b) => unsigned t = t && b.head?.any CodePoint.isDigit && isFraction b
      | some (a, b) =>
        (isBarred '0' a && isFraction b)
          || (match a.splitOn ':' with
            | first :: second :: rest =>
              isBarred '0' first && (second :: rest).all isSixtieth && b.all isDigitOrBar
            | _ => false)
      | none => false)

/-- A date, and the time of day and the offset behind it. -/
structure Stamp where
  date : Date
  units : Option (List Nat)
  offset : Option (List Nat)
deriving Repr, Inhabited

/-- A number of so many digits at the start of a text. -/
def digitsAt? (least greatest : Nat) (t : Text) : Option (Nat × Text) :=
  let ds := (t.takeWhile CodePoint.isDigit).take greatest
  if ds.length < least then none else some (Decimal.natOfDigits ds, t.drop ds.length)

def markAt? (c : Char) : Text → Option Text
  | [] => none
  | d :: t => if d = CodePoint.ofChar c then some t else none

def skipBlanks (t : Text) : Text := t.dropWhile fun c : CodePoint => c = ' ' || c = '\t'

/-- The offset that may end a time stamp. -/
def offsetAt? (t : Text) : Option (Option (List Nat)) :=
  match skipBlanks t with
  | [] => if t = [] then some none else none
  | c :: rest =>
    if c = 'Z' then (if rest = [] then some (some []) else none)
    else if c = '+' || c = '-' then do
      let (h, rest) ← digitsAt? 1 2 rest
      if rest = [] then return some [h]
      else
        let (m, rest) ← digitsAt? 2 2 (← markAt? ':' rest)
        if rest = [] then return some [h, m] else none
    else none

/-- Reads a date, or a date and a time. A date alone has two digits for month and day. -/
def stamp? (t : Text) : Option Stamp := do
  let (year, r) ← digitsAt? 4 4 t
  let r ← markAt? '-' r
  let (month, s) ← digitsAt? 1 2 r
  let s ← markAt? '-' s
  let (day, u) ← digitsAt? 1 2 s
  let date : Date := ⟨year, month, day⟩
  if u = [] then (if t.length = 10 then return ⟨date, none, none⟩ else none)
  else
    let v ← match u with
      | c :: v => if c = 'T' || c = 't' then some v else if skipBlanks u = u then none else some (skipBlanks u)
      | [] => none
    let (hour, v) ← digitsAt? 1 2 v
    let (minute, v) ← digitsAt? 2 2 (← markAt? ':' v)
    let (second, v) ← digitsAt? 2 2 (← markAt? ':' v)
    let v := match markAt? '.' v with
      | some w => w.dropWhile CodePoint.isDigit
      | none => v
    return ⟨date, some [hour, minute, second], ← offsetAt? v⟩

def Stamp.isValid (s : Stamp) : Bool :=
  s.date.isValid
    && (s.units.all fun u => u.getD 0 0 < 24 && u.getD 1 0 < 60 && u.getD 2 0 < 60)
    && (s.offset.all fun o => o.getD 0 0 * 60 + o.getD 1 0 < 24 * 60)

def nulls : List String := ["", "~", "null", "Null", "NULL"]

/-- The words for true and false, in lower case. -/
def booleans : List (String × Bool) :=
  [("yes", true), ("no", false), ("true", true), ("false", false), ("on", true), ("off", false)]

/-- A word in lower case, capitalized, or in upper case. -/
def isCaseOf (word : String) (t : Text) : Bool :=
  let w := Text.ofString word
  t = w || t = w.upper || t = Text.upper (w.take 1) ++ w.drop 1

def typeOf (t : Text) : ScalarType :=
  if booleans.any fun (w, _) => isCaseOf w t then .bool
  else if isDecimal t then .float
  else if isInteger t then .int
  else if t = "<<" then .merge
  else if nulls.any fun w => Text.ofString w = t then .null
  else if (stamp? t).isSome then .timestamp
  else if t = "=" then .default
  else .text

def inBase? (base : Nat) (t : Text) : Option Nat :=
  if t = [] then none
  else t.foldlM (fun n c => (c.hexValue?.filter (· < base)).map (base * n + ·)) 0

/-- A decimal integer of a sensible length. -/
def decimal? (t : Text) : Option Nat := if Text.maxIntegerDigits < t.length then none else inBase? 10 t

/-- Numbers of a list by sixties, the last one in units. -/
def bySixties {α : Type} [Add α] [Mul α] (sixty zero : α) (ns : List α) : α :=
  ns.foldl (fun n d => n * sixty + d) zero

def integer? (t : Text) : Option Int :=
  let u := (unsigned t).filter fun c : CodePoint => c ≠ '_'
  let n? : Option Nat :=
    if u = "0" then some 0
    else match u with
      | z :: l :: rest =>
        if z = '0' then
          if l = 'b' then inBase? 2 rest else if l = 'x' then inBase? 16 rest else inBase? 8 u
        else if u.contains (':' : CodePoint) then (bySixties 60 0 ·) <$> (Text.splitOn ':' u).mapM decimal?
        else decimal? u
      | _ => decimal? u
  n?.map fun n => if isNegative t then -(n : Int) else n

/-- The double that a text of digits, a point and an exponent writes. -/
def decimalFloat (t : Text) : Float :=
  let (mantissa, exponent) := t.span fun c : CodePoint => !(c = 'e' || c = 'E')
  let (whole, fraction) := mantissa.span fun c : CodePoint => c ≠ '.'
  let e := (Decimal.natOfDigits (unsigned (exponent.drop 1)) : Int)
  (⟨false, whole, fraction.drop 1, if isNegative (exponent.drop 1) then -e else e⟩ : Decimal.Parts).toFloat

def float (t : Text) : Float :=
  let u := (unsigned t).filter fun c : CodePoint => c ≠ '_'
  let x : Float :=
    if isInfinity u then 1.0 / 0.0
    else if isNotANumber u then 0.0 / 0.0
    else
      -- Units first, so that the sum is rounded in the same order at any length.
      ((Text.splitOn ':' u).reverse.foldl (fun (sum, base) d => (sum + decimalFloat d * base, base * 60.0))
        ((0.0, 1.0) : Float × Float)).1
  if isNegative t then -x else x

/-- The value of a scalar of some type. The keys with a special meaning are no values. -/
def scalarValue (type : ScalarType) (t : Text) : Except Failure Value :=
  match type with
  | .null => .ok .null
  | .bool => match booleans.find? fun (w, _) => Text.ofString w = t.lower with
    | some (_, b) => .ok (.bool b)
    | none => .error .badValue
  | .int => match integer? t with
    | some i => .ok (.int i)
    | none => .error .badValue
  | .float => if isDecimal t || isInteger t then .ok (.float (float t)) else .error .badValue
  | .timestamp => match stamp? t with
    | some s => if s.isValid then .ok .foreign else .error .badValue
    | none => .error .noMember
  | .text => .ok (.text t)
  | .merge | .default => .error .document

end Custody.Yaml
