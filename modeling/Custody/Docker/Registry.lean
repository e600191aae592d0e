import Custody.Docker.Credentials
import Custody.Docker.Remote
import Custody.Secrets.Lookup
import Custody.Shell.Quoted

/-! Login to a container registry on a remote host, and the care of what it leaves there. -/
namespace Custody.Docker
open Act

def configDir : Text := "\"$HOME/.docker\""

def configFile : Text := "\"$HOME/.docker/config.json\""

/-- Credentials as they may be shown: without the password. -/
def Credentials.display (c : Credentials) : Text :=
  "DockerCredentials(username=" ++ c.username.quoted ++ ", registry=" ++ c.registry.quoted ++ ")"

/-- The credentials with the password encrypted. One that is encrypted already stays as it is. -/
def Credentials.encrypted (c : Credentials) : Act Credentials := do
  if ← Secrets.looksEncrypted (some c.password) then return c
  return { c with password := ← Secrets.encryptValue c.password "docker.password" }

/-- Reports of this part. -/
def tell (level : Level) (message : String) (fields : List (Text × Value)) : Act Unit :=
  report level .docker message fields

def userField (name : Text) : Text × Value := Value.field "user" (.text name)

def auditLogin (username : Text) (success : Bool) (details : Text) : Act Unit :=
  Audit.log (.authentication (.text username) (.bool success) (.text details))

/-- Credentials of the sources, or else of the configuration; none if either half is missing. -/
def credentials (username password : Option Text) (registry : Text) : Act (Option Credentials) := do
  let found ← Secrets.get? "docker.username"
  match (found.or username).filter (· ≠ []) with
  | none =>
    tell .error "docker_username_missing" []
    return none
  | some username =>
    match ← Secrets.get? "docker.password" with
    | some password => return some { username, password, registry }
    | none =>
      match password.filter (· ≠ []) with
      | none =>
        tell .error "docker_password_missing" []
        return none
      | some configured =>
        let c ← Secrets.resolve "docker.password" (some configured)
        return some { username, password := c.value, registry }

/-- The command of a login. The password goes through a pipe. -/
def loginCommand (username password registry : Text) : Text :=
  "printf '%s\\n' " ++ Shell.quote password ++ " | docker login -u " ++ Shell.quote username
    ++ " --password-stdin " ++ Shell.quote registry

/-- Sends commands one after the other, whatever the replies say. -/
def executeAll (remote : Remote) : List Text → Act Unit
  | [] => return ()
  | command :: rest => do
    let _ ← execute remote command
    executeAll remote rest

/-- Closes the credentials on the remote host to others, as far as that is possible. -/
def secure (remote : Remote) : Act Unit :=
  orElse (executeAll remote
      ["chmod 700 " ++ configDir ++ " 2>/dev/null || true", "chmod 600 " ++ configFile ++ " 2>/dev/null || true"])
    Failure.isSystem fun _ => tell .warning "docker_config_secure_failed" []

def clearPassword (c : Credentials) : Act Text := do
  if ← Secrets.looksEncrypted (some c.password) then Secrets.decryptValue c.password "docker.password"
  else
    tell .warning "docker_password_plaintext" []
    return c.password

/-- Sends the login. There is no reply without a password. -/
def attempt (remote : Remote) (c : Credentials) : Act (Option Reply) := do
  let password ← clearPassword c
  if password = [] then
    tell .error "docker_password_empty" []
    return none
  return some (← execute remote (loginCommand c.username password c.registry))

/-- Failures of a login that are audited and go no further. -/
def isLoginFailure (f : Failure) : Bool := f.isSystem || f.isSecurity

/-- The reply to a login, if there is one. A failure is audited. -/
def reply? (remote : Remote) (c : Credentials) : Act (Option Reply) :=
  orElse (attempt remote c) isLoginFailure fun e => do
    tell .error "docker_login_error" [userField c.username, Value.field "error" (.text e.kind.label)]
    auditLogin c.username false ("Docker login error: " ++ e.kind.label)
    return none

/-- Audits what the remote host has replied to a login. After one that succeeded the host is made safe. -/
def conclude (remote : Remote) (c : Credentials) (r : Reply) : Act Bool := do
  if !r.success then
    tell .error "docker_login_failed" [userField c.username]
    auditLogin c.username false "Docker registry authentication failed"
    return false
  tell .info "docker_login_succeeded" [userField c.username]
  auditLogin c.username true ("Docker registry authentication to " ++ c.registry)
  secure remote
  return true

/-- Logs in, and audits how it ended. -/
def login (remote : Remote) (c : Credentials) : Act Bool := do
  tell .info "docker_login_started" [userField c.username, Value.field "registry" (.text c.registry)]
  if !isUsername c.username then
    tell .error "docker_username_invalid" []
    auditLogin c.username false "Invalid username"
    return false
  if c.registry = [] then
    tell .error "docker_registry_missing" []
    return false
  match ← reply? remote c with
  | none => return false
  | some r => conclude remote c r

def doneReport (event : Audit.Event) (action : Audit.Action) (details resource : Text) : Audit.Report where
  event := Audit.named event
  action := Audit.named action
  details := .text details
  result := Audit.named Audit.Outcome.success
  resource := .text resource

/-- Replies to some commands, or none if the way to the host is broken. -/
def reached {α : Type} (a : Act α) (message : String) : Act (Option α) :=
  orElse (do return some (← a)) Failure.isSystem fun _ => do
    tell .error message []
    return none

def logoutCommand (registry : Text) : Text := "docker logout " ++ Shell.quote registry

def logout (remote : Remote) (registry : Text) : Act Bool := do
  match ← reached (execute remote (logoutCommand registry)) "docker_logout_error" with
  | none => return false
  | some r =>
    if !r.success then
      tell .warning "docker_logout_failed" [Value.field "registry" (.text registry)]
      return false
    Audit.log (doneReport .authentication .logout ("Docker registry logout from " ++ registry) registry)
    return true

def findHelper (helper : Text) : Text := "command -v docker-credential-" ++ helper

def helperCommands (helper : Text) : List Text :=
  ["mkdir -p " ++ configDir ++ " && chmod 700 " ++ configDir,
    "printf '%s\\n' '\x7b\"credsStore\": \"" ++ helper ++ "\"\x7d' > " ++ configFile,
    "chmod 600 " ++ configFile]

/-- Sends these commands, if the remote host has the helper. -/
def useHelper (remote : Remote) (helper : Text) : Act Bool := do
  let found ← execute remote (findHelper helper)
  if !found.success then
    tell .error "docker_credential_helper_not_found" [Value.field "helper" (.text helper)]
    return false
  executeAll remote (helperCommands helper)
  return true

def configureHelper (remote : Remote) (helper : Text) : Act Bool := do
  if !isHelperName helper then
    tell .error "docker_credential_helper_invalid" [Value.field "helper" (.text helper)]
    return false
  if (← reached (useHelper remote helper) "docker_credential_helper_error") = some true then
    Audit.log (.configurationChange (.text "system") (.text "docker_config")
      (.text ("Configured credential helper: " ++ helper)))
    return true
  return false

def findFile : Text := "test -f " ++ configFile ++ " && echo exists || echo not_found"

def removeCommand : Text := "shred -u " ++ configFile ++ " 2>/dev/null || rm -f " ++ configFile

def remove (remote : Remote) : Act Bool := do
  let found ← execute remote findFile
  if found.output.trim CodePoint.isSpace ≠ "exists" then return false
  let _ ← execute remote removeCommand
  return true

def cleanup (remote : Remote) : Act Bool := do
  match ← reached (remove remote) "docker_cleanup_error" with
  | none => return false
  | some false => return true
  | some true =>
    Audit.log (doneReport .fileAccess .delete "Docker credentials file deleted" "~/.docker/config.json")
    return true

def isLoggedIn (remote : Remote) (registry : Text) : Act Bool := do
  let needle := Shell.quote ("\"" ++ registry ++ "\"")
  let command : Text := "test -f " ++ configFile ++ " && grep -qF " ++ needle ++ " " ++ configFile
    ++ " && echo yes || echo no"
  orElse (do
      let r ← execute remote command
      return r.output.trim CodePoint.isSpace = "yes")
    Failure.isSystem fun _ => return false

end Custody.Docker
