import Custody.Redaction.Pattern

/-! The seven shapes in which secrets appear in commands and messages. -/
namespace Custody.Redaction

/-- A pipe into a registry login: its password is on the left. -/
def registryPipe? (t : Text) : Option Text := do
  let t ← literal? "|" (skipSpace t)
  let t ← word? "docker".toList (skipSpace t)
  let t ← space? t
  let rest ← word? "login".toList t
  if isBoundary (some ('n' : CodePoint)) rest then return rest else none

def printer? (t : Text) : Option Text :=
  match word? "echo".toList t with
  | some rest => some rest
  | none => do
    let t ← word? "printf".toList t
    let t ← space? t
    word? "'%s\\n'".toList t

/-- What a command prints into a registry login. -/
def pipedSecret : Pattern := fun before t =>
  if !isBoundary before t then none
  else do
    let name ← printer? t
    let arg ← space? name
    let (rest, _) ← seek? (fun c => c ≠ ('\n' : CodePoint)) registryPipe? arg
    return ⟨upTo t name ++ " " ++ mark, rest⟩

/-- A value that is not the next option. -/
def optionValue? (t : Text) : Option Text :=
  if t.head? = some ('-' : CodePoint) then none else run? 1 (fun c => !c.isSpace) t

/-- The value of a long password option, after blanks or an equals sign. -/
def passwordOption : Pattern := fun _ t =>
  match t with
  | [] => none
  | c :: after =>
    if !c.isSpace then none
    else do
      let name ← word? "--password".toList after
      let value ← (space? name).or (literal? "=" name)
      let rest ← optionValue? value
      return ⟨upTo t name ++ " " ++ mark, rest⟩

/-- The short password option, with its value behind it. -/
def shortOption? (t : Text) : Option (Text × Text) :=
  match t with
  | [] => none
  | c :: after =>
    if !c.isSpace then none
    else do
      let name ← word? "-p".toList after
      let value ← space? name
      let rest ← optionValue? value
      return (name, rest)

/-- The value of a short password option behind a login, within one command. -/
def loginOption : Pattern := fun before t =>
  if !isBoundary before t then none
  else do
    let afterLogin ← word? "login".toList t
    if !isBoundary (some ('n' : CodePoint)) afterLogin then none
    else
      let (_, name, rest) ← seek?
        (fun c => !(c = ('|' : CodePoint) || c = (';' : CodePoint) || c = ('&' : CodePoint)
          || c = ('\n' : CodePoint))) shortOption? afterLogin
      return ⟨upTo t name ++ " " ++ mark, rest⟩

def isPayloadChar (c : CodePoint) : Bool := c.isAsciiAlnum || c = '+' || c = '/' || c = '='

/-- An encrypted payload behind the standard prefix. -/
def encryptedPayload : Pattern := fun _ t => do
  let t ← literal? "encrypted:" t
  let t ← run? 1 isPayloadChar t
  let t ← literal? ":" t
  let t ← run? 1 isPayloadChar t
  let t ← literal? ":" t
  let rest ← run? 1 isPayloadChar t
  return ⟨"encrypted:" ++ mark, rest⟩

def skipJoint (t : Text) : Text :=
  match t with
  | c :: rest => if c = '_' ∨ c = '-' then rest else t
  | [] => t

/-- Two words with an optional joint between them. -/
def joined? (first second : String) (t : Text) : Option Text :=
  word? first.toList t >>= fun t => word? second.toList (skipJoint t)

/-- The names of secrets, wherever they stand. -/
def secretName? (t : Text) : Option Text :=
  (joined? "api" "key" t)
    <|> word? "secret".toList t
    <|> word? "password".toList t
    <|> word? "passwd".toList t
    <|> word? "passphrase".toList t
    <|> joined? "master" "key" t
    <|> word? "token".toList t

def isBareChar (c : CodePoint) : Bool :=
  !c.isSpace && !(c = '"' || c = '\'' || c = ',' || c = ';')

/-- The value behind the name of a secret and a colon or an equals sign. -/
def namedSecret : Pattern := fun _ t => do
  let name ← secretName? t
  match skipSpace name with
  | [] => none
  | c :: after =>
    if c = ':' ∨ c = '=' then
      let value := skipSpace after
      let rest ← run? 1 isBareChar value
      return ⟨upTo t value ++ mark, rest⟩
    else none

/-- The characters of a token, with the letters that equal ASCII letters up to case. -/
def isTokenChar (c : CodePoint) : Bool :=
  c.isAsciiAlnum || c = '.' || c = '_' || c = '~' || c = '+' || c = '/' || c = '=' || c = '-'
    || c.isLetter 'i' || c.isLetter 's' || c.isLetter 'k'

/-- The credentials of an authorization header. -/
def authorization : Pattern := fun before t =>
  if !isBoundary before t then none
  else do
    let name ← (word? "bearer".toList t) <|> word? "basic".toList t
    let value ← space? name
    let rest ← run? 8 isTokenChar value
    return ⟨upTo t name ++ " " ++ mark, rest⟩

/-- Capitals and spaces, from which the titles of keys are made. -/
def isTitleChar (c : CodePoint) : Bool := c.isUpper || c = ' '

/-- A line that opens or closes a private key. -/
def keyLine? (opening : String) (t : Text) : Option Text := do
  let t ← literal? opening t
  let title := t.takeWhile isTitleChar
  if Text.ofString "PRIVATE KEY" <:+ title then literal? "-----" (t.dropWhile isTitleChar) else none

/-- A private key from its opening to its closing line. -/
def privateKey : Pattern := fun _ t => do
  let body ← keyLine? "-----BEGIN " t
  let (_, rest) ← seek? (fun _ => true) (keyLine? "-----END ") body
  return ⟨mark, rest⟩

/-- The rules in the order in which they are applied, each to the output of the one before. -/
def rules : List Pattern :=
  [pipedSecret, passwordOption, loginOption, encryptedPayload, namedSecret, authorization, privateKey]

def redact (t : Text) : Text := rules.foldl (fun t p => substitute p none 0 t) t

end Custody.Redaction
