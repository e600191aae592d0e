import Custody.Audit.Reports

/-! Finding secrets: the live environment first, then what was loaded, then the configuration. -/
namespace Custody.Secrets
open Act

/-- The secrets of the file, as far as it is there and can be read. -/
def readFile : Act Properties := do
  let w ← get
  match w.secrets.config.secretsFile with
  | none => return []
  | some p =>
    let path := Value.field "path" (.text p.text)
    if ← require (w.site.disk.pathExists p) then
      match (do Properties.parseFile (← w.site.disk.read p) : Except Failure Properties) with
      | .ok found =>
        report .info .secrets "secrets_file_loaded" [path, Value.field "count" (.int found.length)]
        return found
      | .error e =>
        if e.isSystem || e.isValue then
          report .error .secrets "secrets_file_unreadable" [path, Value.field "error" (.text e.kind.label)]
          return []
        else throw e
    else
      report .warning .secrets "secrets_file_missing" [path]
      return []

/-- Takes a snapshot of the environment's names of the library and reads the file. -/
def load : Act Unit := do
  let w ← get
  let lead := w.secrets.config.envNamespace
  let snapshot := w.site.environment.values.filter fun (k, _) => lead.isPrefixOf k
  let file ← readFile
  modifySecrets fun s => { s with snapshot, file, loaded := true }

def clear : Act Unit := modifySecrets fun s => { s with snapshot := [], file := [], loaded := false }

/-- The first of some names that has a value which is not empty. -/
def firstIn (values : List (Text × Text)) (names : List Text) : Option Text :=
  names.findSome? fun n => (values.lookup n).filter (· ≠ [])

/-- The first of some names that has a value in the live environment. -/
def firstLive (e : Environment) : List Text → Except Failure (Option Text)
  | [] => .ok none
  | n :: rest => do
    match (← e.get? n).filter (· ≠ []) with
    | some v => return some v
    | none => firstLive e rest

/-- The first value for a key, by the order of the sources. -/
def find (e : Environment) (r : Resolver) (key : Text) : Except Failure (Option (Text × Source)) := do
  let names := namesOf key
  match ← firstLive e names with
  | some v => return some (v, .environment)
  | none =>
    match firstIn r.snapshot names with
    | some v => return some (v, .environment)
    | none => return (firstIn r.file names).map fun v => (v, .secretsFile)

def lookup (key : Text) : Act (Option (Text × Source)) := do
  let w ← get
  require (find w.site.environment w.secrets key)

/-- A secret of the environment or the file. -/
def get? (key : Text) : Act (Option Text) := do return (← lookup key).map (·.1)

def demand (key : Text) : Act Text := do
  match ← get? key with
  | some v => return v
  | none => throw (.missingSecrets [key])

def missing : List Text → Act (List Text)
  | [] => return []
  | k :: rest => do
    let found ← get? k
    let others ← missing rest
    return if found.isNone then k :: others else others

/-- Fails once, with all keys that have no secret. -/
def validate (keys : List Text) : Act Unit := do
  match ← missing keys with
  | [] => return ()
  | names => throw (.missingSecrets names)

def masterKey : Act Text := do demand (← get).secrets.config.masterKeyVar

/-- Whether a value is encrypted, by its lead text. -/
def looksEncrypted (value : Option Text) : Act Bool := do
  return isEncrypted (← get).secrets.config.encryptedPrefix value

/-- Audits the encryption or decryption of a key, if the resolver is audited. -/
def auditCipher (action : Audit.Action) (key : Text) (success : Bool) : Act Unit := do
  if (← get).secrets.audited then
    Audit.log (.encryption (Audit.named action) (.ofText key) (.bool success))

/-- Runs a cipher operation and audits its end. -/
def audited (action : Audit.Action) (key : Text) (r : Except Failure Text) : Act Text := do
  let t ← orElse (require r) Failure.isSecurity fun e => do
    auditCipher action key false
    throw e
  auditCipher action key true
  return t

/-- Decrypts a value with the master key. The lead text may be missing. -/
def decryptValue (value key : Text) : Act Text := do
  let lead := (← get).secrets.config.encryptedPrefix
  let payload := (Text.dropPrefix? lead value).getD value
  let passphrase ← masterKey
  audited .decrypt key (Vault.decrypt payload passphrase)

/-- Encrypts a text with the master key and puts the lead text before it. -/
def encryptValue (plain key : Text) : Act Text := do
  let passphrase ← masterKey
  let w ← get
  let payload ← audited .encrypt key (Vault.encrypt w.site.entropy plain passphrase)
  return w.secrets.config.encryptedPrefix ++ payload

/-- A key's secret, from the sources or else from a value of the configuration. -/
def resolve (key : Text) (configured : Option Text) : Act Credential := do
  match ← lookup key with
  | some (value, source) => return ⟨key, value, source⟩
  | none =>
    match configured.filter (· ≠ []) with
    | none => throw (.missingSecrets [key])
    | some v =>
      if ← looksEncrypted (some v) then return ⟨key, ← decryptValue v key, .encryptedConfig⟩
      else
        report .warning .secrets "plaintext_secret_in_config" [Value.field "key" (.text key)]
        return ⟨key, v, .plaintextConfig⟩

end Custody.Secrets
