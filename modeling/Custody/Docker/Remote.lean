import Custody.World

/-! The remote host: what it answers to commands. -/
namespace Custody.Docker

/-- What came of a command. -/
structure Reply where
  success : Bool
  output : Text := []
deriving DecidableEq, Repr, Inhabited

/-- A way to a remote host: the answer to a command, given the commands sent before, the latest first. -/
abbrev Remote := (sent : List Text) → (command : Text) → Except Failure Reply

def execute (remote : Remote) (command : Text) : Act Reply := do
  let sent := (← get).site.sent
  Act.modifySite fun s => { s with sent := command :: sent }
  Act.require (remote sent command)

end Custody.Docker
