import Custody.Text.CodePoint

/-! What the program and its commands accept, and the help that they give. -/
namespace Custody.Cli

/-- An option: its names, and whether it takes a value. -/
structure Flag where
  names : List Text
  takesValue : Bool
deriving DecidableEq, Repr, Inhabited

/-- The names of an option as they are shown together. -/
def Flag.label (f : Flag) : Text := Text.join "/" f.names

/-- What is accepted besides options. A command takes everything behind it. -/
inductive Operands where
  | nothing
  | oneOrMore (name : Text)
  | command
deriving DecidableEq, Repr, Inhabited

/-- What a program accepts. Its help is laid out for eighty columns. -/
structure Grammar where
  program : Text
  usage : Text
  details : Text
  flags : List Flag
  operands : Operands
deriving DecidableEq, Repr, Inhabited

def Grammar.help (g : Grammar) : Text := g.usage ++ "\n" ++ g.details

def helpFlag : Flag := ⟨["-h", "--help"], false⟩

def versionFlag : Flag := ⟨["--version"], false⟩

def configFlag : Flag := ⟨["--config"], true⟩

def valueFlag : Flag := ⟨["--value"], true⟩

/-- The names of the commands. -/
inductive Verb where
  | encrypt
  | checkSecrets
  | auditSweep
deriving DecidableEq, Repr, Inhabited

def Verb.name : Verb → Text
  | encrypt => "encrypt"
  | checkSecrets => "check-secrets"
  | auditSweep => "audit-sweep"

def Verb.all : List Verb := [encrypt, checkSecrets, auditSweep]

def Verb.ofName? (t : Text) : Option Verb := all.find? fun v => v.name = t

def programName : Text := "mail-factory"

def program : Grammar where
  program := programName
  usage := "usage: mail-factory [-h] [--version] [--config CONFIG]\n"
    ++ "                    \x7bencrypt,check-secrets,audit-sweep\x7d ...\n"
  details := "Mail server factory: secrets and audit tooling.\n"
    ++ "\n"
    ++ "positional arguments:\n"
    ++ "  \x7bencrypt,check-secrets,audit-sweep\x7d\n"
    ++ "    encrypt             Encrypt a value with the master key\n"
    ++ "                        (MAIL_FACTORY_MASTER_KEY)\n"
    ++ "    check-secrets       Report which secrets are resolvable\n"
    ++ "    audit-sweep         Run one audit retention pass\n"
    ++ "\n"
    ++ "options:\n"
    ++ "  -h, --help            show this help message and exit\n"
    ++ "  --version             Print version and exit.\n"
    ++ "  --config CONFIG       Path to a YAML config file.\n"
  flags := [helpFlag, versionFlag, configFlag]
  operands := .command

def Verb.grammar : Verb → Grammar
  | encrypt =>
    { program := programName ++ " encrypt"
      usage := "usage: mail-factory encrypt [-h] [--value VALUE]\n"
      details := "options:\n"
        ++ "  -h, --help     show this help message and exit\n"
        ++ "  --value VALUE  Value to encrypt (default: read stdin).\n"
      flags := [helpFlag, valueFlag]
      operands := .nothing }
  | checkSecrets =>
    { program := programName ++ " check-secrets"
      usage := "usage: mail-factory check-secrets [-h] keys [keys ...]\n"
      details := "positional arguments:\n"
        ++ "  keys\n"
        ++ "\n"
        ++ "options:\n"
        ++ "  -h, --help  show this help message and exit\n"
      flags := [helpFlag]
      operands := .oneOrMore "keys" }
  | auditSweep =>
    { program := programName ++ " audit-sweep"
      usage := "usage: mail-factory audit-sweep [-h]\n"
      details := "options:\n"
        ++ "  -h, --help  show this help message and exit\n"
      flags := [helpFlag]
      operands := .nothing }

end Custody.Cli
