import Custody.Config.Section
import Custody.Data.Json.Reader
import Custody.Data.Yaml.Document
import Custody.Properties.Basic
import Custody.Storage.Disk

/-! All settings: from given values, the environment, and a file. -/
namespace Custody.Config

/-- What is given for a section: a value, or a section that has been read already. -/
inductive Given where
  | value (v : Value)
  | audit (s : AuditSettings)
  | secrets (s : SecretsSettings)
deriving Inhabited

/-- The names between double underscores. -/
def nestedNames : Text → List Text
  | [] => [[]]
  | [c] => [[c]]
  | c :: d :: rest =>
    if c = '_' && d = '_' then [] :: nestedNames rest
    else match nestedNames (d :: rest) with
      | name :: more => (c :: name) :: more
      | [] => [[c]]

/-- Sets a value under names that lead into records. What is no record stays as it is. -/
def insertAt : (names : List Text) → (v : Value) → Fields → Fields
  | [], _, fields => fields
  | [name], v, fields => Value.insertField name v fields
  | name :: more, v, fields =>
    match fields.lookup name with
    | none => Value.insertField name (.record (insertAt more v [])) fields
    | some (.record inner) => Value.insertField name (.record (insertAt more v inner)) fields
    | some _ => fields

mutual

/-- A value over another: records are united, anything else is replaced. -/
def overlay : Value → Value → Value
  | .record new, .record old => .record (overlayFields new old)
  | new, _ => new

/-- The fields of a record over those of another. -/
def overlayFields : (new old : Fields) → Fields
  | [], old => old
  | (k, v) :: rest, old =>
    let v := match old.lookup k with
      | some w => overlay v w
      | none => v
    overlayFields rest (Value.insertField k v old)

end

/-- What the environment says about a section: one variable that holds JSON, and one for each field. -/
def sectionFromEnvironment (env : List (Text × Text)) (name : Text) (fields : List Text) :
    Except Failure (Option Value) :=
  let env := lowered env
  let whole := "mail_factory_" ++ name
  let nested := env.foldl (fun (acc : Fields) (k, v) =>
    match Text.dropPrefix? (whole ++ "__") k with
    | some rest => insertAt (nestedNames rest) (.text v) acc
    | none => acc) []
  let named (l : Fields) : Value :=
    .record (Value.recordOf (l.map fun (k, v) => ((fields.find? (· = k.lower)).getD k, v)))
  match env.lookup whole with
  | none => .ok (if nested = [] then none else some (named nested))
  | some t =>
    match Json.read? t with
    | none => .error .settings
    | some .null => .ok none
    | some (.record r) => .ok (some (named (overlayFields nested r)))
    | some v => .ok (some v)

def within (name : Text) (problems : List Problem) : List Problem :=
  problems.map fun p => { p with location := name :: p.location }

/-- Reads one section: what was given for it over what the environment says, or its defaults. Problems
with the defaults end the reading at once. -/
def readSection {α : Type} (name : Text) (type : String) (given : Option Given) (env : Option Value)
    (ready : Given → Option α) (read : Fields → Except (List Problem) α) (usual : α) :
    ExceptT Failure Reading α :=
  let fromValue (v : Value) : ExceptT Failure Reading α :=
    match v with
    | .record fields => match read fields with
      | .ok a => pure a
      | .error ps => do
        modify (· ++ within name ps)
        return usual
    | _ => do
      modify (· ++ [⟨[name], .sectionType type⟩])
      return usual
  match given, env with
  | some g, env =>
    match ready g, g with
    | some a, _ => pure a
    | none, .value v => fromValue (match env with
      | some e => overlay v e
      | none => v)
    | none, _ => fromValue .foreign
  | none, some v => fromValue v
  | none, none =>
    match read [] with
    | .ok a => pure a
    | .error ps => throw (.invalid ps)

def Settings.sections : List Text := ["audit", "secrets", "logging"]

def Settings.read (env : List (Text × Text)) (given : List (Text × Given)) : Except Failure Settings := do
  let auditEnv ← sectionFromEnvironment env "audit" AuditSettings.fields
  let secretsEnv ← sectionFromEnvironment env "secrets" SecretsSettings.fields
  let loggingEnv ← sectionFromEnvironment env "logging" LoggingSettings.fields
  let (known, others) := settle Settings.sections given
  let reading : ExceptT Failure Reading Settings := do
    let audit ← readSection "audit" "AuditConfig" (known.lookup ("audit" : Text)) auditEnv
      (fun | .audit s => some s | _ => none) (AuditSettings.read env) {}
    let secrets ← readSection "secrets" "SecretsConfig" (known.lookup ("secrets" : Text)) secretsEnv
      (fun | .secrets s => some s | _ => none) (SecretsSettings.read env) {}
    let logging ← readSection "logging" "LoggingConfig" (known.lookup ("logging" : Text)) loggingEnv
      (fun _ => none) LoggingSettings.read {}
    return { audit, secrets, logging }
  let (result, problems) := reading.run.run []
  let problems := problems ++ unknown others
  match result with
  | .error e => .error e
  | .ok s => if problems = [] then .ok s else .error (.invalid problems)

/-- Reads a section from a file, with its environment over the file. The environment has to be right on
its own. -/
def sectionOverFile {α : Type} (read : Fields → Except (List Problem) α) (env : Fields)
    (entries : List (Yaml.Tree × Yaml.Tree)) : Except Failure α :=
  match read [] with
  | .error ps => .error (.invalid ps)
  | .ok _ =>
    if !Yaml.Tree.hasTextKeys entries then .error .badType
    else
      let file := (Yaml.Tree.textEntries entries).map fun (k, v) => (k, v.value)
      match read (env.foldl (fun l (k, v) => Value.insertField k v l) file) with
      | .error ps => .error (.invalid ps)
      | .ok a => .ok a

def Settings.ofEntries (env : List (Text × Text)) (entries : List (Yaml.Tree × Yaml.Tree)) :
    Except Failure Settings := do
  let fields := Yaml.Tree.textEntries entries
  let audit ← match fields.lookup ("audit" : Text) with
    | some (.map m) =>
      (sectionOverFile (AuditSettings.read env) (AuditSettings.environment env) m).map fun s => some (Given.audit s)
    | _ => .ok none
  let secrets ← match fields.lookup ("secrets" : Text) with
    | some (.map m) =>
      (sectionOverFile (SecretsSettings.read env) (SecretsSettings.environment env) m).map
        fun s => some (Given.secrets s)
    | _ => .ok none
  if !Yaml.Tree.hasTextKeys entries then .error .badType
  else Settings.read env (fields.map fun (k, v) =>
    let ready := if k = "audit" then audit else if k = "secrets" then secrets else none
    (k, ready.getD (.value v.value)))

/-- Reads all settings from the text of a file. A file with nothing in it leaves all defaults. -/
def Settings.ofText (env : List (Text × Text)) (path : Path) (t : Text) : Except Failure Settings := do
  let tree ← Yaml.read t
  match if tree.truthy then tree else .map [] with
  | .map entries => Settings.ofEntries env entries
  | _ => .error (.configNotMapping path.text)

/-- Reads all settings from a file that has to be there. -/
def Settings.ofFile (env : List (Text × Text)) (d : Disk) (path : Path) : Except Failure Settings := do
  if ← d.pathExists path then
    Settings.ofText env path (← Properties.decodeFile (← d.read path))
  else .error (.configMissing path.text)

def defaultFile (root : Path) : Path := (root.child "config").child "default.yaml"

def workingDirectory (d : Disk) : Path := ⟨.root, d.cwd⟩

/-- Reads all settings from the settings file of a directory, if there is one. -/
def Settings.ofDirectory (env : List (Text × Text)) (d : Disk) (root : Path) : Except Failure Settings := do
  if ← d.pathExists (defaultFile root) then Settings.ofFile env d (defaultFile root)
  else Settings.read env []

end Custody.Config
