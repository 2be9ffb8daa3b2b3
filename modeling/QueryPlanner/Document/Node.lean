import QueryPlanner.Document.Definition
import QueryPlanner.Tree

namespace QueryPlanner

inductive Node where
  | name (name : Name)
  | value (value : Value)
  | objectField (field : ObjectField)
  | argument (argument : Argument)
  | directive (directive : Directive)
  | type (type : TypeRef)
  | modifier (modifier : Modifier)
  | selection (selection : Selection)
  | selectionSet (set : SelectionSet)
  | variableDefinition (definition : VariableDefinition)
  | definition (definition : Definition)
  | document (document : Document)

namespace Node

def loc : Node → Option Location
  | name n => n.loc
  | value v => v.loc
  | objectField f => f.loc
  | argument a => a.loc
  | directive d => d.loc
  | type t => t.loc
  | modifier m => m.loc
  | selection s => s.loc
  | selectionSet s => s.loc
  | variableDefinition d => d.loc
  | definition d => d.loc
  | document d => d.loc

end Node

def Location.toTree (l : Location) : Tree := .array ([l.start, l.stop, l.line, l.column].map .ofNat)

def nodeTree (kind : Text) (loc : Option Location) (entries : List (Text × Option Tree)) : Tree :=
  .ofEntries (("kind", some (.text kind)) :: (entries ++ [(Tree.locationKey, loc.map Location.toTree)]))

def Name.toTree (n : Name) : Tree := nodeTree "Name" n.loc [("value", some (.text n.text))]

def Variable.toTree (v : Variable) : Tree := nodeTree "Variable" v.loc [("name", some v.name.toTree)]

mutual

def Value.toTree : Value → Tree
  | .var v => v.toTree
  | .int text loc => nodeTree "IntValue" loc [("value", some (.text text))]
  | .float text loc => nodeTree "FloatValue" loc [("value", some (.text text))]
  | .string text block loc =>
    nodeTree "StringValue" loc [("value", some (.text text)), ("block", some (.boolean block))]
  | .boolean b loc => nodeTree "BooleanValue" loc [("value", some (.boolean b))]
  | .null loc => nodeTree "NullValue" loc []
  | .enum text loc => nodeTree "EnumValue" loc [("value", some (.text text))]
  | .list values loc => nodeTree "ListValue" loc [("values", some (.array (valueTrees values)))]
  | .object fields loc => nodeTree "ObjectValue" loc [("fields", some (.array (objectFieldTrees fields)))]

def ObjectField.toTree : ObjectField → Tree
  | ⟨name, value, loc⟩ => nodeTree "ObjectField" loc [("name", some name.toTree), ("value", some value.toTree)]

def valueTrees : List Value → List Tree
  | [] => []
  | v :: rest => v.toTree :: valueTrees rest

def objectFieldTrees : List ObjectField → List Tree
  | [] => []
  | f :: rest => f.toTree :: objectFieldTrees rest

end

def Argument.toTree (a : Argument) : Tree :=
  nodeTree "Argument" a.loc [("name", some a.name.toTree), ("value", some a.value.toTree)]

def listTree (toTree : α → Tree) (parts : List α) : Option Tree := some (.array (parts.map toTree))

def Directive.toTree (d : Directive) : Tree :=
  nodeTree "Directive" d.loc [("name", some d.name.toTree), ("arguments", listTree Argument.toTree d.arguments)]

def NamedType.toTree (t : NamedType) : Tree := nodeTree "NamedType" t.loc [("name", some t.name.toTree)]

def TypeRef.toTree : TypeRef → Tree
  | .named type => type.toTree
  | .list item loc => nodeTree "ListType" loc [("type", some item.toTree)]
  | .nonNull type loc => nodeTree "NonNullType" loc [("type", some type.toTree)]

mutual

def Modifier.toTree : Modifier → Tree
  | .list element loc => nodeTree "ListNullability" loc [("element", elementTree element)]
  | .required element loc => nodeTree "RequiredModifier" loc [("element", elementTree element)]
  | .optional element loc => nodeTree "OptionalModifier" loc [("element", elementTree element)]

def elementTree : Option Modifier → Option Tree
  | none => none
  | some modifier => some modifier.toTree

end

def FragmentSpread.toTree (s : FragmentSpread) : Tree :=
  nodeTree "FragmentSpread" s.loc
    [("name", some s.name.toTree), ("directives", listTree Directive.toTree s.directives)]

mutual

def Field.toTree : Field → Tree
  | ⟨responseName, name, arguments, modifier, directives, selectionSet, loc⟩ =>
    nodeTree "Field" loc
      [("alias", responseName.map Name.toTree), ("name", some name.toTree),
        ("arguments", listTree Argument.toTree arguments), ("nullabilityAssertion", modifier.map Modifier.toTree),
        ("directives", listTree Directive.toTree directives),
        ("selectionSet", match selectionSet with | none => none | some set => some set.toTree)]

def InlineFragment.toTree : InlineFragment → Tree
  | ⟨typeCondition, directives, selectionSet, loc⟩ =>
    nodeTree "InlineFragment" loc
      [("typeCondition", typeCondition.map NamedType.toTree),
        ("directives", listTree Directive.toTree directives), ("selectionSet", some selectionSet.toTree)]

def Selection.toTree : Selection → Tree
  | .field f => f.toTree
  | .spread s => s.toTree
  | .inline f => f.toTree

def SelectionSet.toTree : SelectionSet → Tree
  | ⟨selections, loc⟩ => nodeTree "SelectionSet" loc [("selections", some (.array (selectionTrees selections)))]

def selectionTrees : List Selection → List Tree
  | [] => []
  | s :: rest => s.toTree :: selectionTrees rest

end

def VariableDefinition.toTree (d : VariableDefinition) : Tree :=
  nodeTree "VariableDefinition" d.loc
    [("variable", some d.var.toTree), ("type", some d.type.toTree),
      ("defaultValue", d.defaultValue.map Value.toTree), ("directives", listTree Directive.toTree d.directives)]

def Operation.toTree (o : Operation) : Tree :=
  nodeTree "OperationDefinition" o.loc
    [("operation", some (.text o.type.text)), ("name", o.name.map Name.toTree),
      ("variableDefinitions", listTree VariableDefinition.toTree o.variableDefinitions),
      ("directives", listTree Directive.toTree o.directives), ("selectionSet", some o.selectionSet.toTree)]

def Fragment.toTree (f : Fragment) : Tree :=
  nodeTree "FragmentDefinition" f.loc
    [("name", some f.name.toTree),
      ("variableDefinitions", f.variableDefinitions.bind (listTree VariableDefinition.toTree)),
      ("typeCondition", some f.typeCondition.toTree), ("directives", listTree Directive.toTree f.directives),
      ("selectionSet", some f.selectionSet.toTree)]

def Definition.toTree : Definition → Tree
  | .operation o => o.toTree
  | .fragment f => f.toTree

def Document.toTree (d : Document) : Tree :=
  nodeTree "Document" d.loc [("definitions", listTree Definition.toTree d.definitions)]

def Node.toTree : Node → Tree
  | name n => n.toTree
  | value v => v.toTree
  | objectField f => f.toTree
  | argument a => a.toTree
  | directive d => d.toTree
  | type t => t.toTree
  | modifier m => m.toTree
  | selection s => s.toTree
  | selectionSet s => s.toTree
  | variableDefinition d => d.toTree
  | definition d => d.toTree
  | document d => d.toTree

def Node.equals (a b : Node) : Bool := a.toTree.equals b.toTree

end QueryPlanner
