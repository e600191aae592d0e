import Custody.Text.Case
import Custody.Text.Class

/-! Pieces of patterns, each of which reads the start of a text, and the replacement of all matches. -/
namespace Custody.Redaction

def mark : Text := "[REDACTED]"

/-- What follows the given letters, in either case. Other characters must be the same. -/
def word? (letters : List Char) : Text → Option Text :=
  go letters
where
  go : List Char → Text → Option Text
    | [], t => some t
    | _ :: _, [] => none
    | l :: ls, c :: t =>
      if (if l.isLower then c.isLetter l else c = ↑l) then go ls t else none

def literal? (s : String) (t : Text) : Option Text := Text.dropPrefix? s t

def skipSpace (t : Text) : Text := t.dropWhile CodePoint.isSpace

def space? : Text → Option Text
  | [] => none
  | c :: t => if c.isSpace then some (skipSpace t) else none

/-- What follows a run of at least `n` characters of a class. -/
def run? (n : Nat) (p : CodePoint → Bool) (t : Text) : Option Text :=
  if n ≤ (t.takeWhile p).length then some (t.dropWhile p) else none

/-- Between two characters where exactly one belongs to a word. -/
def isBoundary (before : Option CodePoint) (t : Text) : Bool :=
  before.any CodePoint.isWord != t.head?.any CodePoint.isWord

/-- The characters of `t` before its tail `rest`. -/
def upTo (t rest : Text) : Text := t.take (t.length - rest.length)

/-- A match at the start of a text: what replaces it, and what follows it. -/
structure Found where
  output : Text
  rest : Text

/-- A pattern sees the character before its place. -/
abbrev Pattern := Option CodePoint → Text → Option Found

/-- Replaces all matches of a pattern from left to right; `skip` characters belong to the last one. -/
def substitute (p : Pattern) : (before : Option CodePoint) → (skip : Nat) → Text → Text
  | _, _, [] => []
  | _, skip + 1, c :: t => substitute p (some c) skip t
  | before, 0, c :: t =>
    match p before (c :: t) with
    | some m => m.output ++ substitute p (some c) (t.length - m.rest.length) t
    | none => c :: substitute p (some c) 0 t

/-- The first tail of a text at which a reader succeeds, over characters of a class. -/
def seek? {α : Type} (step : CodePoint → Bool) (p : Text → Option α) : Text → Option (Text × α)
  | [] => (p []).map fun a => ([], a)
  | c :: t =>
    match p (c :: t) with
    | some a => some (c :: t, a)
    | none => if step c then seek? step p t else none

end Custody.Redaction
