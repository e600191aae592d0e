/-! Text as lists of code points, so that a lone surrogate is text like any other. -/
namespace Custody

/-- A code point: a number below `0x110000`, surrogates included. -/
structure CodePoint where
  val : Nat
  val_lt : val < 0x110000
deriving DecidableEq

namespace CodePoint

instance : Inhabited CodePoint := ⟨⟨0, by omega⟩⟩

instance : Repr CodePoint := ⟨fun c n => reprPrec c.val n⟩

def ofChar (c : Char) : CodePoint :=
  ⟨c.toNat, by
    have := c.valid
    simp only [UInt32.isValidChar, Nat.isValidChar] at this
    simp only [Char.toNat]
    omega⟩

instance : Coe Char CodePoint := ⟨ofChar⟩

def ofNat? (n : Nat) : Option CodePoint :=
  if h : n < 0x110000 then some ⟨n, h⟩ else none

/-- Surrogates stand for half a character and have no UTF-8 form. -/
def isSurrogate (c : CodePoint) : Bool := 0xD800 ≤ c.val && c.val ≤ 0xDFFF

def isHighSurrogate (c : CodePoint) : Bool := 0xD800 ≤ c.val && c.val ≤ 0xDBFF

def isLowSurrogate (c : CodePoint) : Bool := 0xDC00 ≤ c.val && c.val ≤ 0xDFFF

def isDigit (c : CodePoint) : Bool := 0x30 ≤ c.val && c.val ≤ 0x39

def isUpper (c : CodePoint) : Bool := 0x41 ≤ c.val && c.val ≤ 0x5A

def isLower (c : CodePoint) : Bool := 0x61 ≤ c.val && c.val ≤ 0x7A

def isAsciiAlnum (c : CodePoint) : Bool := c.isDigit || c.isUpper || c.isLower

/-- The value of a hexadecimal digit of either case. -/
def hexValue? (c : CodePoint) : Option Nat :=
  if c.isDigit then some (c.val - 0x30)
  else if 0x41 ≤ c.val && c.val ≤ 0x46 then some (c.val - 0x37)
  else if 0x61 ≤ c.val && c.val ≤ 0x66 then some (c.val - 0x57)
  else none

/-- The lower-case hexadecimal digit of a number below sixteen. -/
def hexDigit (n : Nat) : CodePoint :=
  if h : n < 10 then ⟨0x30 + n, by omega⟩ else ⟨0x57 + n % 16, by omega⟩

def decDigit (n : Nat) : CodePoint := ⟨0x30 + n % 10, by omega⟩

end CodePoint

/-- Text is a list of code points; its length counts code points. -/
abbrev Text := List CodePoint

namespace Text

def ofString (s : String) : Text := s.toList.map CodePoint.ofChar

instance : Coe String Text := ⟨ofString⟩

def ofNat (n : Nat) : Text :=
  if n < 10 then [.decDigit n] else ofNat (n / 10) ++ [.decDigit n]

/-- Integers of more decimal digits than this are neither read nor written. -/
def maxIntegerDigits : Nat := 4300

def ofInt (i : Int) : Text :=
  if i < 0 then ('-' : CodePoint) :: ofNat i.natAbs else ofNat i.natAbs

def padLeft (width : Nat) (c : CodePoint) (t : Text) : Text :=
  List.replicate (width - t.length) c ++ t

def padRight (width : Nat) (c : CodePoint) (t : Text) : Text :=
  t ++ List.replicate (width - t.length) c

/-- A number in decimal with at least `width` digits. -/
def ofNatPadded (width n : Nat) : Text := padLeft width '0' (ofNat n)

/-- A number in hexadecimal with exactly `width` digits. -/
def hex : (width : Nat) → Nat → Text
  | 0, _ => []
  | w + 1, n => hex w (n / 16) ++ [.hexDigit (n % 16)]

/-- The pieces of a text between occurrences of a separator; there is always at least one. -/
def splitOn (sep : CodePoint) : Text → List Text
  | [] => [[]]
  | c :: t =>
    if c = sep then [] :: splitOn sep t
    else match splitOn sep t with
      | [] => [[c]]
      | piece :: rest => (c :: piece) :: rest

def join (sep : Text) : List Text → Text
  | [] => []
  | [t] => t
  | t :: rest => t ++ sep ++ join sep rest

def occursIn (part : Text) : Text → Bool
  | [] => part.isEmpty
  | c :: t => part.isPrefixOf (c :: t) || occursIn part t

def dropPrefix? : (lead t : Text) → Option Text
  | [], t => some t
  | _ :: _, [] => none
  | p :: lead, c :: t => if p = c then dropPrefix? lead t else none

/-- A text without the line feed that may end it. -/
def dropFinalLineFeed (t : Text) : Text :=
  if t.getLast? = some ('\n' : CodePoint) then t.dropLast else t

/-- Order by code points, the shorter first when one text begins the other. -/
def le : Text → Text → Bool
  | [], _ => true
  | _ :: _, [] => false
  | a :: s, b :: t => a.val < b.val || (a = b && le s t)

/-- Whether every code point has a UTF-8 form. -/
def isScalar (t : Text) : Bool := t.all (!·.isSurrogate)

/-- The string with the same characters; a surrogate becomes the replacement character. -/
def toString (t : Text) : String :=
  String.ofList (t.map fun c => if c.isSurrogate then Char.ofNat 0xFFFD else Char.ofNat c.val)

end Text

end Custody
