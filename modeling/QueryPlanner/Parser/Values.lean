import QueryPlanner.Parser.State
import QueryPlanner.Document.Value

/-!
Productions of names, values, arguments and directives. A production that contains itself takes the parser of
what stands one level deeper, and is closed by recursion on the levels that are left.
-/

namespace QueryPlanner.Parser

def name : Parser Name := do
  let token ← expectToken .name
  return ⟨token.value, ← locationFrom token⟩

def var : Parser Variable := do
  let start ← expectToken .dollar
  let name ← name
  return ⟨name, ← locationFrom start⟩

/-- Takes the current token, whatever its kind, as a string. -/
def stringLiteral : Parser Value := do
  let token ← currentToken
  advance
  return .string token.value (token.kind == .blockString) (← locationFrom token)

def nameValue (token : Token) : Parser Value := do
  advance
  let loc ← locationFrom token
  if token.value = "true" then return .boolean true loc
  if token.value = "false" then return .boolean false loc
  if token.value = "null" then return .null loc
  return .enum token.value loc

/-- A variable where only constants may stand is reported at its dollar sign. -/
def variableInConstant (token : Token) : Parser Value := do
  let _ ← expectToken .dollar
  let s ← get
  if s.token.kind = .name then
    throw (.grammar s.source token ("Unexpected variable \"$" ++ s.token.value ++ "\" in constant value."))
  throw (← unexpectedAt token)

def objectFieldWith (inner : Parser Value) : Parser ObjectField := do
  let start ← currentToken
  let name ← name
  let _ ← expectToken .colon
  let value ← inner
  return ⟨name, value, ← locationFrom start⟩

def listWith (inner : Parser Value) : Parser Value := do
  let start ← currentToken
  let values ← nested (any .bracketOpen inner .bracketClose)
  return .list values (← locationFrom start)

def objectWith (inner : Parser Value) : Parser Value := do
  let start ← currentToken
  let fields ← nested (any .braceOpen (objectFieldWith inner) .braceClose)
  return .object fields (← locationFrom start)

def valueWith (isConst : Bool) (inner : Parser Value) : Parser Value := do
  let token ← currentToken
  match token.kind with
  | .bracketOpen => listWith inner
  | .braceOpen => objectWith inner
  | .int => do
    advance
    return .int token.value (← locationFrom token)
  | .float => do
    advance
    return .float token.value (← locationFrom token)
  | .string | .blockString => stringLiteral
  | .name => nameValue token
  | .dollar => if isConst then variableInConstant token else return .var (← var)
  | _ => throw (← unexpected)

def valueWithin (isConst : Bool) : Nat → Parser Value
  | 0 => valueWith isConst tooDeep
  | levels + 1 => valueWith isConst (valueWithin isConst levels)

def value (isConst : Bool) : Parser Value := do valueWithin isConst (← get).levelsLeft

def list (isConst : Bool) : Parser Value := listWith (value isConst)

def object (isConst : Bool) : Parser Value := objectWith (value isConst)

def objectField (isConst : Bool) : Parser ObjectField := objectFieldWith (value isConst)

def argument (isConst : Bool) : Parser Argument := do
  let start ← currentToken
  let name ← name
  let _ ← expectToken .colon
  let value ← value isConst
  return ⟨name, value, ← locationFrom start⟩

def arguments (isConst : Bool) : Parser (List Argument) :=
  optionalMany .parenOpen (argument isConst) .parenClose

def directive (isConst : Bool) : Parser Directive := do
  let start ← expectToken .atSign
  let name ← name
  let arguments ← arguments isConst
  return ⟨name, arguments, ← locationFrom start⟩

def directives (isConst : Bool) : Parser (List Directive) := do
  itemsWhile .atSign (directive isConst) ((← get).tokensLeft + 1)

end QueryPlanner.Parser
