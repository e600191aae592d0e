import Custody.Text.CodePoint

/-! Words of a shell command, quoted so that the shell reads each as one word. -/
namespace Custody.Shell

/-- Characters that mean nothing to a shell. -/
def isPlain (c : CodePoint) : Bool :=
  c.isAsciiAlnum || c = '_' || c = '@' || c = '%' || c = '+' || c = '=' || c = ':' || c = ',' || c = '.'
    || c = '/' || c = '-'

/-- A character within single quotes. A single quote itself goes between double quotes. -/
def quotedPoint (c : CodePoint) : Text := if c = '\'' then "'\"'\"'" else [c]

/-- A word in single quotes, unless it needs none. -/
def quote (t : Text) : Text :=
  if t = [] then "''"
  else if t.all isPlain then t
  else "'" ++ t.flatMap quotedPoint ++ "'"

end Custody.Shell
