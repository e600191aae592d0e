import Custody.Cli.Grammar
import Custody.Storage.Path
import Custody.Text.Class
import Custody.Text.Quoted

/-! From the arguments of the program to what is asked of it. -/
namespace Custody.Cli

/-- What the program is asked to do. Without a value, one is read from the input. -/
inductive Command where
  | encrypt (value : Option Text)
  | checkSecrets (keys : List Text)
  | auditSweep
deriving DecidableEq, Repr, Inhabited

structure Request where
  version : Bool
  config : Option Path
  command : Option Command
deriving DecidableEq, Repr, Inhabited

/-- Why arguments are no request: they ask for help, or they are wrong. -/
inductive Halt where
  | help (g : Grammar)
  | misuse (g : Grammar) (message : Text)
deriving DecidableEq, Repr, Inhabited

/-- What one argument is, before it is known whether an option takes it. The text joined to an option
comes with an equals sign or without. -/
inductive Mark where
  | separator
  | operand
  | unknown
  | flag (f : Flag) (joined : Option (Bool × Text))
deriving DecidableEq, Repr, Inhabited

def Mark.isPlain : Mark → Bool
  | separator | operand => true
  | unknown | flag _ _ => false

/-- A minus and a number with or without a point, and perhaps a line feed at the end. -/
def isNegativeNumber : Text → Bool
  | [] => false
  | c :: t =>
    let t := Text.dropFinalLineFeed t
    let fraction := t.dropWhile CodePoint.isAnyDigit
    c = '-' && match fraction with
      | [] => t ≠ []
      | d :: rest => d = '.' && rest ≠ [] && rest.all CodePoint.isAnyDigit

/-- A text before its first equals sign, and what follows it if there is one. -/
def splitEquals (t : Text) : Text × Option Text :=
  match t.span fun c : CodePoint => c ≠ '=' with
  | (name, _ :: v) => (name, some v)
  | (name, []) => (name, none)

def Grammar.names (g : Grammar) : List (Text × Flag) :=
  g.flags.flatMap fun f => f.names.map fun n => (n, f)

/-- The options that an argument may mean: a long name may be cut short, and text may follow a short
name. -/
def Grammar.candidates (g : Grammar) (t : Text) : List (Text × Mark) :=
  let (lead, v) := splitEquals t
  if ("--" : Text).isPrefixOf t then
    g.names.filterMap fun (n, f) =>
      if lead.isPrefixOf n then some (n, .flag f (v.map fun v => (true, v))) else none
  else
    g.names.filterMap fun (n, f) =>
      if n = t.take 2 then some (n, .flag f (some (false, t.drop 2))) else none

/-- An argument that begins with a dash and is more than that, and has no option's exact name. -/
def Grammar.guess (g : Grammar) (t : Text) : Except Halt Mark :=
  match g.candidates t with
  | [(_, m)] => .ok m
  | [] => .ok (if isNegativeNumber t || t.contains (' ' : CodePoint) then .operand else .unknown)
  | several => .error (.misuse g ("ambiguous option: " ++ t ++ " could match "
      ++ Text.join ", " (several.map Prod.fst)))

def Grammar.mark (g : Grammar) (t : Text) : Except Halt Mark :=
  if t.head? ≠ some ('-' : CodePoint) then .ok .operand
  else match g.names.lookup t with
    | some f => .ok (.flag f none)
    | none =>
      if t.length = 1 then .ok .operand
      else match splitEquals t with
        | (n, some v) => match g.names.lookup n with
          | some f => .ok (.flag f (some (true, v)))
          | none => g.guess t
        | _ => g.guess t

/-- Marks all arguments. Behind two dashes there are only operands. -/
def Grammar.marks (g : Grammar) : List Text → Except Halt (List (Text × Mark))
  | [] => .ok []
  | t :: rest =>
    if t = "--" then .ok ((t, .separator) :: rest.map fun u => (u, .operand))
    else do
      let m ← g.mark t
      return (t, m) :: (← g.marks rest)

/-- What has been found among arguments: options with their values, operands, and what nobody takes. -/
structure Findings where
  given : List (Flag × Text) := []
  operands : Option (List Text) := none
  extras : List Text := []
deriving DecidableEq, Repr, Inhabited

def Findings.give (o : Flag) (v : Text) (f : Findings) : Findings := { f with given := (o, v) :: f.given }

def Findings.extra (t : Text) (f : Findings) : Findings := { f with extras := f.extras ++ [t] }

/-- The value of an option. The last one counts. -/
def Findings.value? (o : Flag) (f : Findings) : Option Text := f.given.lookup o

/-- What is wrong with text joined to a short option without a value, if anything. Letters may be joined
to it: more of its own are no trouble, and the first that is unknown ends the check. -/
def refused : Text → Option Text
  | [] => some []
  | c :: t =>
    if c = '-' then some (c :: t)
    else if c ≠ 'h' then none
    else match t with
      | [] => none
      | d :: u => if d = '=' then some u else refused (d :: u)

def misuseOf {α : Type} (g : Grammar) (o : Flag) (message : Text) : Except Halt α :=
  .error (.misuse g ("argument " ++ o.label ++ ": " ++ message))

/-- Goes through marked arguments. A command ends the search. -/
def Grammar.search (g : Grammar) : List (Text × Mark) → Findings → Except Halt Findings
  | [], f => .ok f
  | (t, m) :: rest, f =>
    match m with
    | .unknown => g.search rest (f.extra t)
    | .flag o joined =>
      if o.takesValue then
        match joined, rest with
        | some (_, v), rest => g.search rest (f.give o v)
        | none, (v, .operand) :: rest => g.search rest (f.give o v)
        | none, _ => misuseOf g o "expected one argument"
      else
        match joined.bind fun (equals, v) => if equals then some v else refused v with
        | some v => misuseOf g o ("ignored explicit argument " ++ v.quoted)
        | none => if o = helpFlag then .error (.help g) else g.search rest (f.give o [])
    | .separator | .operand =>
      let run := (t, m) :: rest.takeWhile (·.2.isPlain)
      if f.operands.isSome || g.operands = .nothing || run.all (·.2 = .separator) then g.search rest (f.extra t)
      else if g.operands = .command then .ok { f with operands := some (t :: rest.map Prod.fst) }
      else g.search (rest.dropWhile (·.2.isPlain)) { f with operands := some ((run.map Prod.fst).erase "--") }
termination_by l => l.length
decreasing_by
  all_goals simp only [List.length_cons]
  all_goals first
    | omega
    | exact Nat.lt_succ_of_le (List.dropWhile_sublist _).length_le

def Grammar.find (g : Grammar) (args : List Text) : Except Halt Findings := do
  let f ← g.search (← g.marks args) {}
  match g.operands, f.operands with
  | .oneOrMore name, none => .error (.misuse g ("the following arguments are required: " ++ name))
  | _, _ => return f

def Verb.command (v : Verb) (f : Findings) : Command :=
  match v with
  | encrypt => .encrypt (f.value? valueFlag)
  | checkSecrets => .checkSecrets (f.operands.getD [])
  | auditSweep => .auditSweep

/-- Reads a command with its own arguments. The result has what nobody takes. -/
def Command.read : List Text → Except Halt (Option Command × List Text)
  | [] => .ok (none, [])
  | name :: args =>
    match Verb.ofName? name with
    | some v => do
      let f ← v.grammar.find args
      return (some (v.command f), f.extras)
    | none => .error (.misuse program ("argument command: invalid choice: " ++ name.quoted ++ " (choose from "
        ++ Text.join ", " (Verb.all.map fun v => v.name.quoted) ++ ")"))

def Request.read (args : List Text) : Except Halt Request := do
  let f ← program.find args
  let (command, more) ← Command.read (f.operands.getD [])
  match f.extras ++ more with
  | [] => return ⟨(f.value? versionFlag).isSome, (f.value? configFlag).map Path.ofText, command⟩
  | extras => .error (.misuse program ("unrecognized arguments: " ++ Text.join " " extras))

end Custody.Cli
