import QueryPlanner.Document.Node

namespace QueryPlanner

namespace Tree

mutual

def height : Tree → Nat
  | array items => itemsHeight items + 1
  | object entries => entriesHeight entries + 1
  | _ => 0
termination_by structural t => t

def itemsHeight : List Tree → Nat
  | [] => 0
  | t :: rest => max t.height (itemsHeight rest)
termination_by structural items => items

def entriesHeight : List (Text × Tree) → Nat
  | [] => 0
  | (_, t) :: rest => max t.height (entriesHeight rest)
termination_by structural entries => entries

end

def required (read : Tree → Option α) (key : Text) (t : Tree) : Option α := t.entry? key >>= read

def optional (read : Tree → Option α) (key : Text) (t : Tree) : Option (Option α) :=
  match t.entry? key with
  | none | some undefined => some none
  | some entry => some <$> read entry

def text? : Tree → Option Text
  | text t => some t
  | _ => none

def boolean? : Tree → Option Bool
  | boolean b => some b
  | _ => none

def list? (read : Tree → Option α) : Tree → Option (List α)
  | array items => items.mapM read
  | _ => none

def kind? (t : Tree) : Option Text := t.required text? "kind"

def ofKind (kind : Text) (read : Tree → Option α) (t : Tree) : Option α :=
  if t.kind? = some kind then read t else none

end Tree

namespace Document.OfTree
open QueryPlanner.Tree

def name : Tree → Option Name := ofKind "Name" fun t => return { text := ← t.required text? "value" }

def var : Tree → Option Variable := ofKind "Variable" fun t => return { name := ← t.required name "name" }

def namedType : Tree → Option NamedType := ofKind "NamedType" fun t => return { name := ← t.required name "name" }

def valueText : Tree → Option Text := required text? "value"

def value : Nat → Tree → Option Value
  | 0, _ => none
  | height + 1, t => do
    let kind ← t.kind?
    if kind = "Variable" then return .var (← var t)
    else if kind = "IntValue" then return .int (← valueText t) none
    else if kind = "FloatValue" then return .float (← valueText t) none
    else if kind = "StringValue" then return .string (← valueText t) (← t.required boolean? "block") none
    else if kind = "BooleanValue" then return .boolean (← t.required boolean? "value") none
    else if kind = "NullValue" then return .null none
    else if kind = "EnumValue" then return .enum (← valueText t) none
    else if kind = "ListValue" then return .list (← t.required (list? (value height)) "values") none
    else if kind = "ObjectValue" then
      let field := ofKind "ObjectField" fun t =>
        return { name := ← t.required name "name", value := ← t.required (value height) "value" }
      return .object (← t.required (list? field) "fields") none
    else none

def argument (height : Nat) : Tree → Option Argument := ofKind "Argument" fun t =>
  return { name := ← t.required name "name", value := ← t.required (value height) "value" }

def objectField (height : Nat) : Tree → Option ObjectField := ofKind "ObjectField" fun t =>
  return { name := ← t.required name "name", value := ← t.required (value height) "value" }

def directive (height : Nat) : Tree → Option Directive := ofKind "Directive" fun t =>
  return { name := ← t.required name "name", arguments := ← t.required (list? (argument height)) "arguments" }

def directives (height : Nat) (t : Tree) : Option (List Directive) :=
  t.required (list? (directive height)) "directives"

def typeRef : Nat → Tree → Option TypeRef
  | 0, _ => none
  | height + 1, t => do
    let kind ← t.kind?
    if kind = "NamedType" then return .named (← namedType t)
    else if kind = "ListType" then return .list (← t.required (typeRef height) "type") none
    else if kind = "NonNullType" then return .nonNull (← t.required (typeRef height) "type") none
    else none

def modifier : Nat → Tree → Option Modifier
  | 0, _ => none
  | height + 1, t => do
    let kind ← t.kind?
    if kind = "ListNullability" then return .list (← t.optional (modifier height) "element") none
    else if kind = "RequiredModifier" then return .required (← t.optional (modifier height) "element") none
    else if kind = "OptionalModifier" then return .optional (← t.optional (modifier height) "element") none
    else none

def selectionSetOf (selection : Tree → Option Selection) : Tree → Option SelectionSet :=
  ofKind "SelectionSet" fun t => return ⟨← t.required (list? selection) "selections", none⟩

def selection : Nat → Tree → Option Selection
  | 0, _ => none
  | height + 1, t => do
    let kind ← t.kind?
    if kind = "Field" then
      return .field ⟨← t.optional name "alias", ← t.required name "name",
        ← t.required (list? (argument height)) "arguments", ← t.optional (modifier height) "nullabilityAssertion",
        ← directives height t, ← t.optional (selectionSetOf (selection height)) "selectionSet", none⟩
    else if kind = "FragmentSpread" then
      return .spread { name := ← t.required name "name", directives := ← directives height t }
    else if kind = "InlineFragment" then
      return .inline ⟨← t.optional namedType "typeCondition", ← directives height t,
        ← t.required (selectionSetOf (selection height)) "selectionSet", none⟩
    else none

def selectionSet (height : Nat) : Tree → Option SelectionSet := selectionSetOf (selection height)

def variableDefinition (height : Nat) : Tree → Option VariableDefinition := ofKind "VariableDefinition" fun t =>
  return {
    var := ← t.required var "variable"
    type := ← t.required (typeRef height) "type"
    defaultValue := ← t.optional (value height) "defaultValue"
    directives := ← directives height t }

def operation (height : Nat) : Tree → Option Operation := ofKind "OperationDefinition" fun t =>
  return {
    type := ← OperationType.ofText? (← t.required text? "operation")
    name := ← t.optional name "name"
    variableDefinitions := ← t.required (list? (variableDefinition height)) "variableDefinitions"
    directives := ← directives height t
    selectionSet := ← t.required (selectionSet height) "selectionSet" }

def fragment (height : Nat) : Tree → Option Fragment := ofKind "FragmentDefinition" fun t =>
  return {
    name := ← t.required name "name"
    variableDefinitions := ← t.optional (list? (variableDefinition height)) "variableDefinitions"
    typeCondition := ← t.required namedType "typeCondition"
    directives := ← directives height t
    selectionSet := ← t.required (selectionSet height) "selectionSet" }

def definition (height : Nat) (t : Tree) : Option Definition :=
  .operation <$> operation height t <|> .fragment <$> fragment height t

def document (height : Nat) : Tree → Option Document := ofKind "Document" fun t =>
  return { definitions := ← t.required (list? (definition height)) "definitions" }

def node (t : Tree) : Option Node :=
  let height := t.height
  .name <$> name t
    <|> .value <$> value height t
    <|> .objectField <$> objectField height t
    <|> .argument <$> argument height t
    <|> .directive <$> directive height t
    <|> .type <$> typeRef height t
    <|> .modifier <$> modifier height t
    <|> .selection <$> selection height t
    <|> .selectionSet <$> selectionSet height t
    <|> .variableDefinition <$> variableDefinition height t
    <|> .definition <$> definition height t
    <|> .document <$> document height t

end Document.OfTree

def Node.ofTree? (t : Tree) : Option Node := Document.OfTree.node t

end QueryPlanner
