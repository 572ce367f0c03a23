import SchemaLang.Declaration.TypeGrammar
import SchemaLang.Token.Lexer

/-!
# The grammar of modules

A module is a list of declarations, each started by a keyword. Commas between
members, fields and rules may be left out. Reading stops at the first token that
does not fit.
-/

namespace SchemaLang

namespace Reading

/-- An import after its keyword. -/
def importing (keyword : Token) : Reading Import := do
  let path ← current
  if path.kind ≠ .string then
    unexpected .modulePath
  else
    let _ ← advance
    if path.text = "" then
      reject path .nonEmptyModulePath
    else if (← current).isKeyword "as" then
      let _ ← advance
      let name ← identifier .importAlias
      return ⟨path.text, some name.text, keyword.location⟩
    else
      return ⟨path.text, none, keyword.location⟩

/-- The members of an enum up to its closing brace, which stays in place. -/
def members : Nat → List String → Reading (List String)
  | 0, _ => overrun
  | rounds + 1, earlier => do
    if ← sees "\x7d" then
      return earlier
    else
      let member ← identifier .enumMember
      if earlier.contains member.text then
        reject member .unusedMember
      else
        let _ ← eat ","
        members rounds (earlier ++ [member.text])

/-- An enum after its keyword. -/
def enumeration : Reading EnumDeclaration := do
  let name ← identifier .enumName
  let _ ← expect "\x7b"
  let members ← members (← remaining) []
  if members.isEmpty then
    unexpected .someMember
  else
    let _ ← expect "\x7d"
    return ⟨name.text, members, name.location⟩

/-- The second place where a field may be marked optional. -/
def optionalMark (already : Bool) : Reading Bool := do
  let mark ← current
  if ← eat "?" then
    if already then reject mark .singleOptionalMark else return true
  else
    return already

/-- A field of a record. The mark that makes it optional stands after its name or
after its type, and nothing of the type may follow it. -/
def field : Reading Field := do
  let name ← identifier .fieldName
  let markedName ← eat "?"
  let _ ← expect ":"
  let type ← fieldType
  let optional ← optionalMark markedName
  if optional && ((← sees "|") || (← sees "[")) then
    unexpected .endOfField
  else
    let _ ← eat ","
    return ⟨name.text, if optional then .optional type else type, name.location⟩

/-- The fields of a record up to and with its closing brace. -/
def fields : Nat → List Field → Reading (List Field)
  | 0, _ => overrun
  | rounds + 1, earlier => do
    if ← eat "\x7d" then
      return earlier
    else
      let next ← field
      if earlier.any fun other => other.name = next.name then
        reject ⟨.identifier, next.name, next.location⟩ .unusedField
      else
        fields rounds (earlier ++ [next])

/-- A record after its keyword. -/
def record : Reading RecordDeclaration := do
  let name ← identifier .typeName
  let _ ← expect "\x7b"
  let fields ← fields (← remaining) []
  return ⟨name.text, fields, name.location⟩

/-- An argument of a constraint. -/
def argument : Reading Argument := do
  let token ← current
  match token.kind with
  | .string =>
    let _ ← advance
    return .text token.text
  | .number =>
    let value ← number token
    let _ ← advance
    return .number value
  | .identifier =>
    let _ ← advance
    return .word token.text
  | _ => unexpected .constraintArgument

/-- The arguments of a constraint up to and with the closing parenthesis. -/
def arguments : Nat → List Argument → Reading (List Argument)
  | 0, _ => overrun
  | rounds + 1, earlier => do
    if ← eat ")" then
      return earlier
    else
      if !earlier.isEmpty then
        let _ ← expect ","
      let next ← argument
      arguments rounds (earlier ++ [next])

/-- A constraint with its arguments. -/
def call : Reading Call := do
  let name ← identifier .constraint
  if ← eat "(" then
    let arguments ← arguments (← remaining) []
    return ⟨name.text, arguments, name.location⟩
  else
    return ⟨name.text, [], name.location⟩

/-- Whether tokens begin another rule: a key and a colon. -/
def beginsRule : List Token → Bool
  | key :: colon :: _ => key.kind = .identifier && colon.isSymbol ":"
  | _ => false

/-- The constraints of a rule after the first. A comma continues the rule unless
another rule or the end of the block follows it. -/
def furtherCalls : Nat → Reading (List Call)
  | 0 => overrun
  | rounds + 1 => do
    if ← eat "," then
      if beginsRule (← get) || (← sees "\x7d") then
        return []
      else
        let next ← call
        let others ← furtherCalls rounds
        return next :: others
    else
      return []

/-- The rules of a block up to and with its closing brace. -/
def rules : Nat → Reading (List Rule)
  | 0 => overrun
  | rounds + 1 => do
    if ← eat "\x7d" then
      return []
    else
      let key ← identifier .ruleKey
      let _ ← expect ":"
      let first ← call
      let calls ← furtherCalls (← remaining)
      let others ← rules rounds
      return ⟨key.text, first :: calls, key.location⟩ :: others

/-- A validation block after its keyword. -/
def validation (keyword : Token) : Reading ValidationBlock := do
  let token ← current
  let target? ←
    if token.kind = .identifier then
      let _ ← advance
      pure (some token.text)
    else
      pure none
  let _ ← expect "\x7b"
  let rules ← rules (← remaining)
  return ⟨target?, rules, keyword.location⟩

/-- One declaration. -/
def declaration : Reading Declaration := do
  let keyword ← current
  if keyword.isKeyword "import" then
    let _ ← advance
    return .moduleImport (← importing keyword)
  else if keyword.isKeyword "enum" then
    let _ ← advance
    return .enumeration (← enumeration)
  else if keyword.isKeyword "type" then
    let _ ← advance
    return .record (← record)
  else if keyword.isKeyword "agent" || keyword.isKeyword "entry" then
    let _ ← advance
    return .entry (← record)
  else if keyword.isKeyword "validate" then
    let _ ← advance
    return .validation (← validation keyword)
  else
    unexpected .declaration

/-- The declarations up to the end of the text. -/
def declarations : Nat → Reading (List Declaration)
  | 0 => overrun
  | rounds + 1 => do
    let token ← current
    if token.kind = .endOfText then
      return []
    else
      let first ← declaration
      let others ← declarations rounds
      return first :: others

end Reading

/-- Whether the last token says that the text ends. -/
def isTerminated (tokens : List Token) : Bool :=
  match tokens.getLast? with
  | some token => token.kind = .endOfText
  | none => false

/-- The declarations that tokens spell. -/
def parseTokens (tokens : List Token) : Except Error (List Declaration) :=
  if isTerminated tokens then
    (Reading.declarations tokens.length tokens).map (·.1)
  else .error (.internal .unterminatedTokens)

/-- The declarations of a module's text. -/
def parse (source text : String) : Except Error (List Declaration) := do
  parseTokens (← tokenize source text)

end SchemaLang
