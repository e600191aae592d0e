import Custody.Text.CodePoint
import Custody.Text.CaseTable
import Custody.Text.Class

/-! Letter case: small letters for all of Unicode, capitals as far as they lie in ASCII. -/
namespace Custody

namespace CodePoint

/-- The distance from a capital to its small letter. -/
def lowerShift (n : Nat) : List (Nat × Nat × Nat × Int) → Int
  | [] => 0
  | (first, last, step, shift) :: rest =>
    if first ≤ n ∧ n ≤ last ∧ (n - first) % step = 0 then shift else lowerShift n rest

/-- The small letters of a code point by itself. The dotted capital I has two. -/
def lower (c : CodePoint) : Text :=
  if c.val < 0x80 then (if c.isUpper then [⟨c.val % 0x80 + 0x20, by omega⟩] else [c])
  else if c.val = 0x130 then [⟨0x69, by omega⟩, ⟨0x307, by omega⟩]
  else match ofNat? ((c.val : Int) + lowerShift c.val Text.lowerRanges).toNat with
    | some l => [l]
    | none => [c]

/-- The capitals of a code point. Beyond ASCII only those letters change whose capitals are ASCII:
dotless i, long s, sharp s and the ligatures of f and s. -/
def upper (c : CodePoint) : Text :=
  if c.val < 0x80 then (if c.isLower then [⟨c.val % 0x80 - 0x20, by omega⟩] else [c])
  else match c.val with
    | 0x131 => "I"
    | 0x17F => "S"
    | 0xDF => "SS"
    | 0xFB00 => "FF"
    | 0xFB01 => "FI"
    | 0xFB02 => "FL"
    | 0xFB03 => "FFI"
    | 0xFB04 => "FFL"
    | 0xFB05 => "ST"
    | 0xFB06 => "ST"
    | _ => [c]

/-- Equality up to case with an ASCII letter, given as its small form: `i`, `s` and `k` have further
forms outside ASCII. -/
def isLetter (letter : Char) (c : CodePoint) : Bool :=
  let n := letter.toNat
  c.val == n || c.val + 0x20 == n
    || (letter == 'i' && (c.val == 0x130 || c.val == 0x131))
    || (letter == 's' && c.val == 0x17F)
    || (letter == 'k' && c.val == 0x212A)

/-- Marks and points within a word, which neither begin nor end it. -/
def isCaseIgnorable (c : CodePoint) : Bool := Text.inRanges c.val Text.caseIgnorableRanges

def isCased (c : CodePoint) : Bool := Text.inRanges c.val Text.casedRanges

def capitalSigma : CodePoint := ⟨0x3A3, by omega⟩

def finalSigma : CodePoint := ⟨0x3C2, by omega⟩

end CodePoint

namespace Text

/-- Whether a word goes on at the start of a text. -/
def startsCased (t : Text) : Bool :=
  match t.dropWhile CodePoint.isCaseIgnorable with
  | c :: _ => c.isCased
  | [] => false

/-- The small letters of a text that stands behind another, given backwards. A capital sigma that ends a word has
the final form. -/
def lowerAfter (before : Text) : Text → Text
  | [] => []
  | c :: t =>
    (if c = .capitalSigma && startsCased before && !startsCased t then [.finalSigma] else c.lower)
      ++ lowerAfter (c :: before) t

def lower (t : Text) : Text := lowerAfter [] t

def upper (t : Text) : Text := t.flatMap CodePoint.upper

end Text

end Custody
