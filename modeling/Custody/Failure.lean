import Custody.Config.Problem
import Custody.Storage.Path
import Custody.Text.Quoted

/-! Every way in which an operation can fail, the kind it belongs to, and its message. -/
namespace Custody

/-- A service of the machine, its files or its network, refused. -/
inductive SystemError where
  | notFound
  | isDirectory
  | notDirectory
  | alreadyExists
  | nameTooLong
  | permission
  | timeout
  | connectionReset
  | brokenPipe
  | other
deriving DecidableEq, Repr, Inhabited

/-- The three fields of an encrypted payload. -/
inductive PayloadField where
  | salt
  | nonce
  | ciphertext
deriving DecidableEq, Repr, Inhabited

/-- Why a text is no encrypted payload, or its content no text. -/
inductive PayloadError where
  | empty
  | fieldCount (n : Nat)
  | notBase64 (field : PayloadField)
  | notCanonical (field : PayloadField)
  | saltLength (n : Nat)
  | nonceLength (n : Nat)
  | ciphertextLength (n : Nat)
  | notText (n : Nat)
deriving DecidableEq, Repr, Inhabited

/-- Why an operation failed. -/
inductive Failure where
  | configMissing (path : Text)
  | configNotMapping (path : Text)
  | invalid (problems : List Config.Problem)
  | settings
  | document
  | emptyPlaintext
  | emptyPassphrase
  | shortPassphrase
  | payload (e : PayloadError)
  | rejected
  | unencodable
  | missingSecrets (names : List Text)
  | auditStorage (dir : Text)
  | untrusted (message : Text)
  | broken
  | system (e : SystemError)
  | surrogate
  | notUtf8
  | malformedEscape
  | badValue
  | badType
  | noMember
  | overflow
deriving DecidableEq, Repr, Inhabited

namespace Failure

/-- The kinds of failure. Those of this library come first. -/
inductive Kind where
  | factory
  | config
  | security
  | cryptoInput
  | payloadFormat
  | authentication
  | encryption
  | missingSecret
  | audit
  | validation
  | settings
  | document
  | runtime
  | value
  | encode
  | decode
  | type
  | member
  | overflow
  | fileNotFound
  | isDirectory
  | notDirectory
  | fileExists
  | permission
  | timeout
  | connectionReset
  | brokenPipe
  | system
deriving DecidableEq, Repr, Inhabited

namespace Kind

def label : Kind → String
  | factory => "FactoryError"
  | config => "ConfigError"
  | security => "SecurityError"
  | cryptoInput => "CryptoValidationError"
  | payloadFormat => "PayloadFormatError"
  | authentication => "AuthenticationFailedError"
  | encryption => "EncryptionError"
  | missingSecret => "MissingSecretError"
  | audit => "AuditError"
  | validation => "ValidationError"
  | settings => "SettingsError"
  | document => "YAMLError"
  | runtime => "RuntimeError"
  | value => "ValueError"
  | encode => "UnicodeEncodeError"
  | decode => "UnicodeDecodeError"
  | type => "TypeError"
  | member => "AttributeError"
  | overflow => "OverflowError"
  | fileNotFound => "FileNotFoundError"
  | isDirectory => "IsADirectoryError"
  | notDirectory => "NotADirectoryError"
  | fileExists => "FileExistsError"
  | permission => "PermissionError"
  | timeout => "TimeoutError"
  | connectionReset => "ConnectionResetError"
  | brokenPipe => "BrokenPipeError"
  | system => "OSError"

/-- The kinds that the library itself defines. -/
def own : List Kind :=
  [factory, config, security, cryptoInput, payloadFormat, authentication, encryption, missingSecret, audit]

/-- The next more general kind of this library. -/
def parent? : Kind → Option Kind
  | config | security | audit => some factory
  | cryptoInput | authentication | encryption | missingSecret => some security
  | payloadFormat => some cryptoInput
  | _ => none

/-- A kind and all more general ones. Three steps lead from any kind to the top. -/
def lineage (k : Kind) : List Kind :=
  let step (l : List Kind) : List Kind := l ++ ((l.getLast? >>= parent?).toList)
  step (step (step [k]))

def isA (k general : Kind) : Bool := (lineage k).contains general

/-- Failures of a value: malformed inputs and texts that cannot be converted. -/
def isValue (k : Kind) : Bool :=
  k.isA cryptoInput || [value, encode, decode, validation, settings].contains k

/-- Failures to find something under its name. -/
def isLookup (k : Kind) : Bool := k = missingSecret

/-- Failures of the machine's services. -/
def isSystem (k : Kind) : Bool :=
  [fileNotFound, isDirectory, notDirectory, fileExists, permission, timeout, connectionReset, brokenPipe,
    system].contains k

end Kind

def missingMessage : List Text → Text
  | [name] => "Required secret not found: " ++ name
  | names => "Missing required secrets: " ++ Text.join ", " names

/-- The message of a failure that was made from a list of texts: one text speaks for itself, several
are shown as a quoted list. -/
def Kind.messageOf (k : Kind) (args : List Text) : Text :=
  if k = .missingSecret then missingMessage args
  else match args with
    | [] => []
    | [t] => t
    | ts => "(" ++ Text.join ", " (ts.map Text.quoted) ++ ")"

def systemKind : SystemError → Kind
  | .notFound => .fileNotFound
  | .isDirectory => .isDirectory
  | .notDirectory => .notDirectory
  | .alreadyExists => .fileExists
  | .nameTooLong => .system
  | .permission => .permission
  | .timeout => .timeout
  | .connectionReset => .connectionReset
  | .brokenPipe => .brokenPipe
  | .other => .system

def kind : Failure → Kind
  | configMissing _ | configNotMapping _ => .config
  | invalid _ => .validation
  | settings => .settings
  | document => .document
  | emptyPlaintext | emptyPassphrase | shortPassphrase => .cryptoInput
  | payload _ => .payloadFormat
  | rejected => .authentication
  | unencodable => .encryption
  | missingSecrets _ => .missingSecret
  | auditStorage _ => .audit
  | untrusted _ => .security
  | broken => .runtime
  | system e => systemKind e
  | surrogate => .encode
  | notUtf8 => .decode
  | malformedEscape | badValue => .value
  | badType => .type
  | noMember => .member
  | overflow => .overflow

def isSecurity (f : Failure) : Bool := f.kind.isA .security

def isSystem (f : Failure) : Bool := f.kind.isSystem

def isValue (f : Failure) : Bool := f.kind.isValue

def minPassphraseLength : Nat := 8

end Failure

def PayloadField.label : PayloadField → String
  | .salt => "salt"
  | .nonce => "iv"
  | .ciphertext => "ciphertext"

def PayloadError.message : PayloadError → Text
  | empty => "Encrypted data cannot be empty"
  | fieldCount n =>
    "Invalid encrypted data format: expected 3 fields (salt:iv:encrypted), got " ++ Text.ofNat n
  | notBase64 f => "Invalid base64 in " ++ f.label ++ " field"
  | notCanonical f => "Non-canonical base64 in " ++ f.label ++ " field"
  | saltLength n => "Invalid salt length: " ++ Text.ofNat n ++ ", expected 16"
  | nonceLength n => "Invalid IV length: " ++ Text.ofNat n ++ ", expected 12"
  | ciphertextLength n => "Invalid ciphertext length: " ++ Text.ofNat n ++ ", expected >= 16"
  | notText n => "Decrypted payload is not UTF-8 (" ++ Text.ofNat n ++ " bytes)"

/-- The message of a failure. Messages name keys, paths and lengths, never values; failures that come
from outside the library have none. -/
def Failure.message? : Failure → Option Text
  | configMissing path => some ("Config file not found: " ++ path)
  | configNotMapping path => some ("Config file must contain a mapping: " ++ path)
  | emptyPlaintext => some "Data to encrypt cannot be empty"
  | emptyPassphrase => some "Master key cannot be empty"
  | shortPassphrase => some ("Master key must be at least " ++ Text.ofNat minPassphraseLength ++ " characters")
  | payload e => some e.message
  | rejected => some "Authentication failed. Data may have been tampered with or wrong master key provided."
  | unencodable => some "Failed to encrypt data: UnicodeEncodeError"
  | missingSecrets names => some (missingMessage names)
  | auditStorage dir => some ("Failed to initialize audit logging in " ++ dir)
  | untrusted m => some m
  | malformedEscape => some "Malformed \\uxxxx encoding"
  | _ => none

end Custody
