import QueryPlanner.Parser.Types
import QueryPlanner.Document.Selection

namespace QueryPlanner.Parser

def fragmentName : Parser Name := do
  if (← get).token.value = "on" then throw (← unexpected)
  name

def fragmentSpread (start : Token) : Parser FragmentSpread := do
  let name ← fragmentName
  let directives ← directives false
  return ⟨name, directives, ← locationFrom start⟩

def inlineFragmentWith (inner : Parser SelectionSet) (start : Token) (hasTypeCondition : Bool) :
    Parser InlineFragment := do
  let typeCondition ← if hasTypeCondition then some <$> namedType else pure none
  let directives ← directives false
  let selectionSet ← inner
  return ⟨typeCondition, directives, selectionSet, ← locationFrom start⟩

def fragmentSelectionWith (inner : Parser SelectionSet) : Parser Selection := do
  let start ← expectToken .spread
  let hasTypeCondition ← optionalKeyword "on"
  if !hasTypeCondition && (← peek .name) then return .spread (← fragmentSpread start)
  return .inline (← inlineFragmentWith inner start hasTypeCondition)

def fieldWith (inner : Parser SelectionSet) : Parser Field := do
  let start ← currentToken
  let first ← name
  let (responseName, name) ← if ← optionalToken .colon then pure (some first, ← name) else pure (none, first)
  let arguments ← arguments false
  let modifier ← modifier
  let directives ← directives false
  let selectionSet ← if ← peek .braceOpen then some <$> inner else pure none
  return ⟨responseName, name, arguments, modifier, directives, selectionSet, ← locationFrom start⟩

def selectionWith (inner : Parser SelectionSet) : Parser Selection := do
  if ← peek .spread then fragmentSelectionWith inner else return .field (← fieldWith inner)

def selectionSetWith (inner : Parser SelectionSet) : Parser SelectionSet := do
  let start ← currentToken
  let selections ← nested (many .braceOpen (selectionWith inner) .braceClose)
  return ⟨selections, ← locationFrom start⟩

def selectionSetWithin : Nat → Parser SelectionSet
  | 0 => selectionSetWith tooDeep
  | levels + 1 => selectionSetWith (selectionSetWithin levels)

def selectionSet : Parser SelectionSet := do selectionSetWithin (← get).levelsLeft

def field : Parser Field := fieldWith selectionSet

def fragmentSelection : Parser Selection := fragmentSelectionWith selectionSet

def selection : Parser Selection := selectionWith selectionSet

end QueryPlanner.Parser
