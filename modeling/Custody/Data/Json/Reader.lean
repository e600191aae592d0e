import Custody.Data.Value
import Custody.Numeric.Decimal

/-! JSON texts as values. A repeated name keeps its first place and its last value. -/
namespace Custody.Json

def isBlank (c : CodePoint) : Bool := c = ' ' || c = '\t' || c = '\n' || c = '\r'

def skipBlank (t : Text) : Text := t.dropWhile isBlank

/-- Four hexadecimal digits as a number. -/
def unit? : Text → Option (Nat × Text)
  | a :: b :: c :: d :: rest => do
    let a ← a.hexValue?
    let b ← b.hexValue?
    let c ← c.hexValue?
    let d ← d.hexValue?
    return (((a * 16 + b) * 16 + c) * 16 + d, rest)
  | _ => none

def point (n : Nat) : CodePoint := (CodePoint.ofNat? n).getD default

/-- An escaped unit, joined with a second one when the two are a surrogate pair. -/
def units? (t : Text) : Option (CodePoint × Text) := do
  let (hi, rest) ← unit? t
  if 0xD800 ≤ hi ∧ hi ≤ 0xDBFF then
    match Text.dropPrefix? "\\u" rest with
    | some after =>
      match unit? after with
      | some (lo, rest') =>
        if 0xDC00 ≤ lo ∧ lo ≤ 0xDFFF then
          return (point (0x10000 + (hi - 0xD800) * 0x400 + (lo - 0xDC00)), rest')
        else return (point hi, rest)
      | none => return (point hi, rest)
    | none => return (point hi, rest)
  else return (point hi, rest)

/-- One character of a string, after its backslash if it has one. -/
def escaped? : Text → Option (CodePoint × Text)
  | [] => none
  | c :: rest =>
    match Char.ofNat c.val with
    | '"' => some ('"', rest)
    | '\\' => some ('\\', rest)
    | '/' => some ('/', rest)
    | 'b' => some (point 8, rest)
    | 'f' => some (point 12, rest)
    | 'n' => some ('\n', rest)
    | 'r' => some ('\r', rest)
    | 't' => some ('\t', rest)
    | 'u' => units? rest
    | _ => none

/-- The rest of a string after its opening quote. Controls must be escaped. -/
def string? : (fuel : Nat) → Text → Text → Option (Text × Text)
  | 0, _, _ => none
  | _ + 1, _, [] => none
  | fuel + 1, acc, c :: rest =>
    if c = '"' then some (acc.reverse, rest)
    else if c = '\\' then do
      let (x, rest) ← escaped? rest
      string? fuel (x :: acc) rest
    else if c.val < 0x20 then none
    else string? fuel (c :: acc) rest

/-- A number: an integer unless it has a fraction or an exponent. -/
def number? (t : Text) : Option (Value × Text) := do
  let negative := t.head? = some ('-' : CodePoint)
  let t := if negative then t.tail else t
  let whole := t.takeWhile CodePoint.isDigit
  let rest := t.dropWhile CodePoint.isDigit
  -- A number does not start with a zero unless that is its whole part.
  let (whole, rest) :=
    if whole.head? = some ('0' : CodePoint) then (whole.take 1, whole.drop 1 ++ rest) else (whole, rest)
  if whole = [] then none
  let (fraction, afterFraction) :=
    match rest with
    | c :: r =>
      if c = '.' ∧ r.takeWhile CodePoint.isDigit ≠ [] then
        (some (r.takeWhile CodePoint.isDigit), r.dropWhile CodePoint.isDigit)
      else (none, rest)
    | [] => (none, rest)
  let (exponent, after) :=
    match afterFraction with
    | c :: r =>
      if c = 'e' ∨ c = 'E' then
        let minus := r.head? = some ('-' : CodePoint)
        let r := if minus ∨ r.head? = some ('+' : CodePoint) then r.tail else r
        let ds := r.takeWhile CodePoint.isDigit
        if ds = [] then (none, afterFraction)
        else
          let n : Int := Decimal.natOfDigits ds
          (some (if minus then -n else n), r.dropWhile CodePoint.isDigit)
      else (none, afterFraction)
    | [] => (none, afterFraction)
  match fraction, exponent with
  | none, none =>
    if whole.length > Text.maxIntegerDigits then none
    else
      let n : Int := Decimal.natOfDigits whole
      return (.int (if negative then -n else n), after)
  | _, _ =>
    let parts : Decimal.Parts := ⟨negative, whole, fraction.getD [], exponent.getD 0⟩
    return (.float parts.toFloat, after)

/-- The fixed words, those for numbers that are not finite among them. -/
def words : List (Text × Value) :=
  [("null", .null), ("true", .bool true), ("false", .bool false), ("NaN", .float (0.0 / 0.0)),
    ("Infinity", .float (1.0 / 0.0)), ("-Infinity", .float (-1.0 / 0.0))]

def word? (t : Text) : Option (Value × Text) :=
  words.findSome? fun (w, v) => (Text.dropPrefix? w t).map fun rest => (v, rest)

mutual

/-- One value at the start of a text. The fuel is spent on characters, so their number is enough. -/
def value? : (fuel : Nat) → Text → Option (Value × Text)
  | 0, _ => none
  | fuel + 1, t =>
    match t with
    | [] => none
    | c :: rest =>
      if c = '"' then (string? (rest.length + 1) [] rest).map fun (s, r) => (.text s, r)
      else if c = '[' then
        match skipBlank rest with
        | d :: r => if d = ']' then some (.list [], r) else items? fuel [] (d :: r)
        | [] => none
      else if c = '\x7b' then
        match skipBlank rest with
        | d :: r => if d = '\x7d' then some (.record [], r) else fields? fuel [] (d :: r)
        | [] => none
      else match word? t with
        | some r => some r
        | none => number? t

def items? : (fuel : Nat) → List Value → Text → Option (Value × Text)
  | 0, _, _ => none
  | fuel + 1, acc, t => do
    let (v, rest) ← value? fuel t
    match skipBlank rest with
    | c :: r =>
      if c = ',' then items? fuel (v :: acc) (skipBlank r)
      else if c = ']' then return (.list (v :: acc).reverse, r)
      else none
    | [] => none

def fields? : (fuel : Nat) → List (Text × Value) → Text → Option (Value × Text)
  | 0, _, _ => none
  | fuel + 1, acc, t =>
    match t with
    | q :: rest =>
      if q ≠ '"' then none
      else do
        let (k, rest) ← string? (rest.length + 1) [] rest
        match skipBlank rest with
        | c :: r =>
          if c ≠ ':' then none
          else
            let (v, rest) ← value? fuel (skipBlank r)
            match skipBlank rest with
            | d :: r =>
              if d = ',' then fields? fuel ((k, v) :: acc) (skipBlank r)
              else if d = '\x7d' then return (.record (Value.recordOf ((k, v) :: acc).reverse), r)
              else none
            | [] => none
        | [] => none
    | [] => none

end

/-- The value of a whole text, with blanks around it. -/
def read? (t : Text) : Option Value := do
  let (v, rest) ← value? (2 * t.length + 2) (skipBlank t)
  if skipBlank rest = [] then return v else none

end Custody.Json
