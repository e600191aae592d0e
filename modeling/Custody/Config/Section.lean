import Custody.Config.Coerce
import Custody.Config.Settings

/-! Sections of the settings, read from given values and from the environment. What is given wins. -/
namespace Custody.Config

/-- Names and values, as they are given or as an environment has them. -/
abbrev Fields := List (Text × Value)

/-- The environment with names in lower case. Of names that differ by case alone the last one counts. -/
def lowered (env : List (Text × Text)) : List (Text × Text) :=
  Value.recordOf (env.map fun (k, v) => (k.lower, v))

/-- The given value of a field and the values left: the name as it is, or else in any case. -/
def pick {α : Type} (name : Text) (given : List (Text × α)) : Option (Text × α) :=
  match given.find? fun (k, _) => k = name with
  | some e => some e
  | none => given.find? fun (k, _) => k.lower = name

/-- The given values under the names of fields, in the order of the fields, and all others. -/
def settle {α : Type} : (names : List Text) → (given : List (Text × α)) → List (Text × α) × List (Text × α)
  | [], given => ([], given)
  | name :: names, given =>
    match pick name given with
    | some (k, v) =>
      let (known, others) := settle names (given.filter fun (l, _) => l ≠ k)
      ((name, v) :: known, others)
    | none => settle names given

/-- A section that is being read: the problems found so far. -/
abbrev Reading := StateM (List Problem)

/-- Reads a field. One that is missing has its default. -/
def field {α : Type} (known : Fields) (name : Text) (usual : α) (read : Value → Except Mismatch α) :
    Reading α := do
  match known.lookup name with
  | none => return usual
  | some v =>
    match read v with
    | .ok a => return a
    | .error m =>
      modify (· ++ [⟨[name], m⟩])
      return usual

/-- Problems with values that belong to no field. -/
def unknown {α : Type} (others : List (Text × α)) : List Problem :=
  others.map fun (k, _) => ⟨[k], .unknownField⟩

def finish {α : Type} (r : Reading α) (others : Fields) : Except (List Problem) α :=
  let (a, problems) := r.run []
  let problems := problems ++ unknown others
  if problems = [] then .ok a else .error problems

def positive (x : Float) : Bool := !(x ≤ 0.0)

def positiveRule : String := "must be > 0"

def AuditSettings.fields : List Text :=
  ["dir", "max_size", "retention_days", "flush_interval", "cleanup_interval", "cleanup_delay", "shutdown_timeout"]

def SecretsSettings.fields : List Text :=
  ["secrets_file", "env_namespace", "master_key_var", "encrypted_prefix"]

def LoggingSettings.fields : List Text := ["level"]

/-- What the environment says about some fields, under names that begin with a lead text. -/
def fromEnvironment (lead : Text) (fields : List Text) (env : List (Text × Text)) : Fields :=
  let env := lowered env
  fields.filterMap fun f => (env.lookup (lead ++ f)).map fun v => (f, .text v)

def AuditSettings.environment (env : List (Text × Text)) : Fields :=
  fromEnvironment "mail_factory_audit_log_" AuditSettings.fields env

def SecretsSettings.environment (env : List (Text × Text)) : Fields :=
  fromEnvironment "mail_factory_" SecretsSettings.fields env

def AuditSettings.read (env : List (Text × Text)) (given : Fields) : Except (List Problem) AuditSettings :=
  let (known, others) := settle AuditSettings.fields given
  let known := known ++ AuditSettings.environment env
  let usual : AuditSettings := {}
  let positiveNumber := ruled positive positiveRule number
  finish (do
    let dir ← field known "dir" usual.dir path
    let maxSize ← field known "max_size" usual.maxSize positiveNumber
    let retentionDays ← field known "retention_days" usual.retentionDays
      (ruled (fun n : Int => 1 ≤ n) "retention_days must be >= 1" integer)
    let flushInterval ← field known "flush_interval" usual.flushInterval positiveNumber
    let cleanupInterval ← field known "cleanup_interval" usual.cleanupInterval positiveNumber
    let cleanupDelay ← field known "cleanup_delay" usual.cleanupDelay
      (ruled (fun x : Float => !(x < 0.0)) "cleanup_delay must be >= 0" number)
    let shutdownTimeout ← field known "shutdown_timeout" usual.shutdownTimeout positiveNumber
    return { dir, maxSize, retentionDays, flushInterval, cleanupInterval, cleanupDelay, shutdownTimeout }) others

def notBlank : Value → Except Mismatch Text :=
  ruled (fun t => t.any fun c => !c.isSpace) "must not be blank" text

def SecretsSettings.read (env : List (Text × Text)) (given : Fields) : Except (List Problem) SecretsSettings :=
  let (known, others) := settle SecretsSettings.fields given
  let known := known ++ SecretsSettings.environment env
  let usual : SecretsSettings := {}
  finish (do
    let secretsFile ← field known "secrets_file" usual.secretsFile optionalPath
    let envNamespace ← field known "env_namespace" usual.envNamespace text
    let masterKeyVar ← field known "master_key_var" usual.masterKeyVar notBlank
    let encryptedPrefix ← field known "encrypted_prefix" usual.encryptedPrefix notBlank
    return { secretsFile, envNamespace, masterKeyVar, encryptedPrefix }) others

/-- Reads the logging section. It has no environment of its own and ignores what it does not know. -/
def LoggingSettings.read (given : Fields) : Except (List Problem) LoggingSettings :=
  finish (do return { level := ← field given "level" (({} : LoggingSettings).level) text }) []

end Custody.Config
