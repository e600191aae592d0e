import Custody.Cli.Arguments
import Custody.Config.Load
import Custody.Secrets.Lookup

/-! One run of the program: what it prints, how it ends, and what it leaves behind. -/
namespace Custody.Cli

def versionText : Text := "mail-factory v3.1.0\n"

/-- How a run ends: its output, its messages, its exit status or the failure that nothing caught, whether
the arguments alone ended it, and the surroundings it leaves. Output and messages may be any code points: whether the
encoding of a stream has room for a lone surrogate is left to the surroundings. -/
structure Ending where
  out : Text := []
  err : Text := []
  status : Except Failure Nat
  early : Bool := false
  site : Site

def Halt.ending (site : Site) : Halt → Ending
  | help g => { out := g.help, status := .ok 0, early := true, site }
  | misuse g message =>
    { err := g.usage ++ g.program ++ ": error: " ++ message ++ "\n", status := .ok 2, early := true, site }

def errorLine (f : Failure) : Text := "error: " ++ f.message?.getD [] ++ "\n"

def thresholds : List (Text × Int) :=
  [("CRITICAL", 50), ("FATAL", 50), ("ERROR", 40), ("WARN", 30), ("WARNING", 30), ("INFO", 20), ("DEBUG", 10),
   ("NOTSET", 0)]

/-- The weight that a record must have to be shown. The level may be written in any case. -/
def threshold (level : Text) : Except Failure Int :=
  match thresholds.lookup level.upper with
  | some w => .ok w
  | none => .error .badValue

def recordLine (r : Record) : Text :=
  Text.ofString r.level.label ++ ":" ++ Text.ofString r.reporter.label ++ ":" ++ Text.ofString r.message ++ "\n"

def recordLines (least : Int) (site : Site) : Text :=
  (site.records.reverse.filter fun r => least ≤ r.level.weight).flatMap recordLine

def settingsFile (d : Disk) (r : Request) : Path :=
  r.config.getD (Config.defaultFile (Config.workingDirectory d))

/-- The settings: from the file that was asked for, which must be there, or from the usual one. -/
def settings (site : Site) (r : Request) : Except Failure Config.Settings :=
  match r.config with
  | some p => Config.Settings.ofFile site.environment.values site.disk p
  | none => Config.Settings.ofDirectory site.environment.values site.disk (Config.workingDirectory site.disk)

def sealValue (value : Text) : Act Text := do
  Secrets.load
  Secrets.encryptValue value "cli"

/-- One line for each key, and the number of keys without a secret. A lookup that fails is the last. -/
def keyLines (e : Environment) (r : Secrets.Resolver) (width : Nat) : List Text → Text × Except Failure Nat
  | [] => ([], .ok 0)
  | key :: rest =>
    match Secrets.find e r key with
    | .error f => ([], .error f)
    | .ok found =>
      let (lines, missing) := keyLines e r width rest
      let word : Text := if found.isSome then "configured" else "missing"
      (Text.padRight width ' ' key ++ "  " ++ word ++ "\n" ++ lines,
        missing.map fun n => if found.isSome then n else n + 1)

def sweepLines (removed : List Path) : Text :=
  let line (p : Path) : Text := "deleted " ++ p.name ++ "\n"
  removed.flatMap line ++ Text.ofNat removed.length ++ (" file(s) removed\n" : Text)

/-- A value from the input: everything but the line feeds at its end. -/
def valueOf (input : Text) : Text := Text.trimRight (fun c => c = '\n') input

/-- What a command hands over to be printed, whatever the stream can encode, its messages besides the records, and its
status. -/
def Command.act (input : Text) (w : World) : Command → Text × Text × Except Failure Nat × World
  | .encrypt value =>
    match sealValue (value.getD (valueOf input)) w with
    | .ok t w => (t ++ "\n", [], .ok 0, w)
    | .error f w => if f.isSecurity then ([], errorLine f, .ok 1, w) else ([], [], .error f, w)
  | .checkSecrets keys =>
    match Secrets.load w with
    | .error f w => ([], [], .error f, w)
    | .ok _ w =>
      let width := (keys.map List.length).foldl max 0
      let (out, missing) := keyLines w.site.environment w.secrets width keys
      (out, [], missing.map (min 1), w)
  | .auditSweep =>
    match Audit.cleanup none w with
    | .ok removed w => (sweepLines removed, [], .ok 0, w)
    | .error f w => ([], [], .error f, w)

def Request.readsInput (r : Request) : Bool := !r.version && r.command = some (.encrypt none)

def Command.run (input : Text) (site : Site) (s : Config.Settings) (c : Command) : Ending :=
  match threshold s.logging.level with
  | .error f => { status := .error f, site }
  | .ok least =>
    let (out, messages, status, w) :=
      c.act input { site, trail := { config := s.audit }, secrets := { config := s.secrets } }
    { out, err := recordLines least w.site ++ messages, status, site := w.site }

/-- Carries out a request. Without a command the program shows its help. -/
def Request.run (input : Text) (site : Site) (r : Request) : Ending :=
  if r.version then { out := versionText, status := .ok 0, site }
  else match r.command with
    | none => { out := program.help, status := .ok 2, site }
    | some c =>
      match settings site r with
      | .ok s => c.run input site s
      | .error f =>
        if f.kind.isA .config then { err := errorLine f, status := .ok 2, site }
        else { status := .error f, site }

def run (args : List Text) (input : Text) (site : Site) : Ending :=
  match Request.read args with
  | .error h => h.ending site
  | .ok r => r.run input site

end Custody.Cli
