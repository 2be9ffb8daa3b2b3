import QueryPlanner.Parser.Selections
import QueryPlanner.Document.Definition

namespace QueryPlanner.Parser

def variableDefinition : Parser VariableDefinition := do
  let start ← currentToken
  let var ← var
  let _ ← expectToken .colon
  let type ← typeRef
  let defaultValue ← if ← optionalToken .equals then some <$> value true else pure none
  let directives ← directives true
  return ⟨var, type, defaultValue, directives, ← locationFrom start⟩

def variableDefinitions : Parser (List VariableDefinition) :=
  optionalMany .parenOpen variableDefinition .parenClose

def operationType : Parser OperationType := do
  let token ← expectToken .name
  match OperationType.ofText? token.value with
  | some type => return type
  | none => throw (← unexpectedAt token)

def operation : Parser Operation := do
  let start ← currentToken
  if ← peek .braceOpen then
    let selectionSet ← selectionSet
    return ⟨.query, none, [], [], selectionSet, ← locationFrom start⟩
  let type ← operationType
  let name ← if ← peek .name then some <$> name else pure none
  let variableDefinitions ← variableDefinitions
  let directives ← directives false
  let selectionSet ← selectionSet
  return ⟨type, name, variableDefinitions, directives, selectionSet, ← locationFrom start⟩

def fragment : Parser Fragment := do
  let start ← currentToken
  expectKeyword "fragment"
  let name ← fragmentName
  let variableDefinitions ←
    if (← get).options.allowFragmentVariables then some <$> variableDefinitions else pure none
  expectKeyword "on"
  let typeCondition ← namedType
  let directives ← directives false
  let selectionSet ← selectionSet
  return ⟨name, variableDefinitions, typeCondition, directives, selectionSet, ← locationFrom start⟩

def definition : Parser Definition := do
  let token ← currentToken
  if token.kind = .braceOpen then return .operation (← operation)
  if token.kind = .name then
    if (OperationType.ofText? token.value).isSome then return .operation (← operation)
    if token.value = "fragment" then return .fragment (← fragment)
  throw (← unexpectedAt token)

def document : Parser Document := do
  let start ← currentToken
  let definitions ← many .startOfFile definition .endOfFile
  return ⟨definitions, ← locationFrom start⟩

def whole (inner : Parser α) : Parser α := do
  let _ ← expectToken .startOfFile
  let result ← inner
  let _ ← expectToken .endOfFile
  return result

def parse (parser : Parser α) (source : Source) (options : ParseOptions) : Except Diagnostic α :=
  match parser { source, options } with
  | .ok result _ => .ok result
  | .error d _ => .error d

end Parser

def Document.parse (source : Source) (options : ParseOptions := {}) : Except Diagnostic Document :=
  Parser.parse Parser.document source options

def Value.parse (source : Source) (options : ParseOptions := {}) : Except Diagnostic Value :=
  Parser.parse (Parser.whole (Parser.value false)) source options

def TypeRef.parse (source : Source) (options : ParseOptions := {}) : Except Diagnostic TypeRef :=
  Parser.parse (Parser.whole Parser.typeRef) source options

end QueryPlanner
