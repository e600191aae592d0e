import Custody.Text.CodePoint
import Custody.Text.DigitTable
import Custody.Text.WordTable
import Custody.Text.PrintableTable

/-! Character classes over all of Unicode: white space, word characters, printable characters. -/
namespace Custody

def Text.inRanges (n : Nat) : List (Nat × Nat) → Bool
  | [] => false
  | (first, last) :: rest => if n < first then false else n ≤ last || inRanges n rest

namespace CodePoint

/-- White space and the separators of files, groups, records and units. -/
def isSpace (c : CodePoint) : Bool :=
  let n := c.val
  (0x09 ≤ n && n ≤ 0x0D) || (0x1C ≤ n && n ≤ 0x20) || n == 0x85 || n == 0xA0 || n == 0x1680
    || (0x2000 ≤ n && n ≤ 0x200A) || n == 0x2028 || n == 0x2029 || n == 0x202F || n == 0x205F || n == 0x3000

/-- White space in the sense of the Unicode property, which leaves the four separators out. -/
def isWhiteSpace (c : CodePoint) : Bool := c.isSpace && !(0x1C ≤ c.val && c.val ≤ 0x1F)

/-- Letters, digits and the low line. -/
def isWord (c : CodePoint) : Bool :=
  if c.val < 0x80 then c.isAsciiAlnum || c = '_' else Text.inRanges c.val Text.wordRanges

def isAnyDigit (c : CodePoint) : Bool := Text.digitZeros.any fun z => z ≤ c.val && c.val < z + 10

def isPrintable (c : CodePoint) : Bool :=
  if c.val < 0x80 then 0x20 ≤ c.val && c.val < 0x7F else Text.inRanges c.val Text.printableRanges

end CodePoint

namespace Text

def trimRight (p : CodePoint → Bool) (t : Text) : Text := (t.reverse.dropWhile p).reverse

/-- Without the characters of a class on both sides. -/
def trim (p : CodePoint → Bool) (t : Text) : Text := trimRight p (t.dropWhile p)

end Text

end Custody
