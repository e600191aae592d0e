import Custody.Config.Settings
import Custody.Properties.Basic

/-! Where secrets come from: a snapshot of the environment and a file of properties. -/
namespace Custody.Secrets

/-- The kinds of sources, the most trusted first. -/
inductive Source where
  | environment
  | secretsFile
  | encryptedConfig
  | plaintextConfig
deriving DecidableEq, Repr, Inhabited

def Source.label : Source → String
  | environment => "environment"
  | secretsFile => "secrets_file"
  | encryptedConfig => "encrypted_config"
  | plaintextConfig => "plaintext_config"

def Source.constant : Source → String
  | environment => "ENVIRONMENT"
  | secretsFile => "SECRETS_FILE"
  | encryptedConfig => "ENCRYPTED_CONFIG"
  | plaintextConfig => "PLAINTEXT_CONFIG"

/-- A secret, the name under which it was asked for, and where it was found. -/
structure Credential where
  key : Text
  value : Text
  source : Source
deriving DecidableEq, Repr, Inhabited

/-- A credential as it may be shown: without its value. -/
def Credential.display (c : Credential) : Text :=
  "Credential(key=" ++ c.key.quoted ++ ", source=<SecretSource." ++ Text.ofString c.source.constant ++ ": "
    ++ Text.quoted c.source.label ++ ">)"

/-- Credentials that have a name of their own in the environment. -/
def wellKnown : List (Text × Text) :=
  [("database.password", "MAIL_FACTORY_DB_PASSWORD"),
   ("ssh.password", "MAIL_FACTORY_SSH_PASSWORD"),
   ("docker.username", "MAIL_FACTORY_DOCKER_USERNAME"),
   ("docker.password", "MAIL_FACTORY_DOCKER_PASSWORD")]

/-- A key and its other name, if it has one. -/
def namesOf (key : Text) : List Text := key :: (wellKnown.lookup key).toList

/-- What a resolver holds: its settings, whether it is audited, and what it has loaded. -/
structure Resolver where
  config : Config.SecretsSettings
  audited : Bool := false
  snapshot : List (Text × Text) := []
  file : Properties := []
  loaded : Bool := false
deriving DecidableEq, Repr, Inhabited

end Custody.Secrets
