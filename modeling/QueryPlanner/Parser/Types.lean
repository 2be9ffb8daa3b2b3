import QueryPlanner.Parser.Values
import QueryPlanner.Document.TypeRef

namespace QueryPlanner.Parser

def namedType : Parser NamedType := do
  let start ← currentToken
  let name ← name
  return ⟨name, ← locationFrom start⟩

def listTypeWith (inner : Parser TypeRef) (start : Token) : Parser TypeRef := do
  let item ← nested inner
  let _ ← expectToken .bracketClose
  return .list item (← locationFrom start)

def typeRefWith (inner : Parser TypeRef) : Parser TypeRef := do
  let start ← currentToken
  let type ← if ← optionalToken .bracketOpen then listTypeWith inner start else .named <$> namedType
  if ← optionalToken .bang then return .nonNull type (← locationFrom start)
  return type

def typeRefWithin : Nat → Parser TypeRef
  | 0 => typeRefWith tooDeep
  | levels + 1 => typeRefWith (typeRefWithin levels)

def typeRef : Parser TypeRef := do typeRefWithin (← get).levelsLeft

def listModifierWith (inner : Parser (Option Modifier)) (start : Token) : Parser Modifier := do
  let element ← nested inner
  let _ ← expectToken .bracketClose
  return .list element (← locationFrom start)

def modifierWith (inner : Parser (Option Modifier)) : Parser (Option Modifier) := do
  let start ← currentToken
  let element ← if ← optionalToken .bracketOpen then some <$> listModifierWith inner start else pure none
  if ← optionalToken .bang then return some (.required element (← locationFrom start))
  if ← optionalToken .questionMark then return some (.optional element (← locationFrom start))
  return element

def modifierWithin : Nat → Parser (Option Modifier)
  | 0 => modifierWith tooDeep
  | levels + 1 => modifierWith (modifierWithin levels)

def modifier : Parser (Option Modifier) := do modifierWithin (← get).levelsLeft

end QueryPlanner.Parser
