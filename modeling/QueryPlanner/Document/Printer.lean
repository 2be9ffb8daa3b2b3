import QueryPlanner.Text.BlockString
import QueryPlanner.Text.Quoted
import QueryPlanner.Document.Node

namespace QueryPlanner

open Text (join joinFilled wrap indent)

def Name.render (n : Name) : Text := n.text

def Variable.render (v : Variable) : Text := "$" ++ v.name.render

mutual

def Value.render : Value → Text
  | .var v => v.render
  | .int text _ | .float text _ | .enum text _ => text
  | .string text block _ => if block then BlockString.render text else Quoted.literal text
  | .boolean b _ => if b then "true" else "false"
  | .null _ => "null"
  | .list values _ => "[" ++ joinFilled ", " (renderValues values) ++ "]"
  | .object fields _ => "\x7b" ++ joinFilled ", " (renderObjectFields fields) ++ "\x7d"

def ObjectField.render : ObjectField → Text
  | ⟨name, value, _⟩ => name.render ++ ": " ++ value.render

def renderValues : List Value → List Text
  | [] => []
  | v :: rest => v.render :: renderValues rest

def renderObjectFields : List ObjectField → List Text
  | [] => []
  | f :: rest => f.render :: renderObjectFields rest

end

def Argument.render (a : Argument) : Text := a.name.render ++ ": " ++ a.value.render

def Directive.render (d : Directive) : Text :=
  "@" ++ d.name.render ++ wrap "(" (joinFilled ", " (d.arguments.map Argument.render)) ")"

def renderDirectives (directives : List Directive) : Text := joinFilled " " (directives.map Directive.render)

def NamedType.render (t : NamedType) : Text := t.name.render

def TypeRef.render : TypeRef → Text
  | .named type => type.render
  | .list item _ => "[" ++ item.render ++ "]"
  | .nonNull type _ => type.render ++ "!"

mutual

def Modifier.render : Modifier → Text
  | .list element _ => "[" ++ renderElement element ++ "]"
  | .required element _ => renderElement element ++ "!"
  | .optional element _ => renderElement element ++ "?"

def renderElement : Option Modifier → Text
  | none => []
  | some modifier => modifier.render

end

def FragmentSpread.render (s : FragmentSpread) : Text :=
  "..." ++ s.name.render ++ wrap " " (renderDirectives s.directives) []

def maxLineLength : Nat := 80

def renderCall (name : Text) (arguments : List Text) : Text :=
  let line := name ++ wrap "(" (joinFilled ", " arguments) ")"
  if line.length > maxLineLength then name ++ wrap "(\n" (indent (joinFilled "\n" arguments)) "\n)" else line

mutual

def Field.render : Field → Text
  | ⟨responseName, name, arguments, modifier, directives, selectionSet, _⟩ =>
    let called := wrap [] ((responseName.map Name.render).getD []) ": " ++ name.render
    joinFilled " "
      [renderCall called (arguments.map Argument.render) ++ renderElement modifier,
        renderDirectives directives,
        match selectionSet with | none => [] | some set => set.render]

def InlineFragment.render : InlineFragment → Text
  | ⟨typeCondition, directives, selectionSet, _⟩ =>
    joinFilled " "
      ["...", wrap "on " ((typeCondition.map NamedType.render).getD []) [], renderDirectives directives,
        selectionSet.render]

def Selection.render : Selection → Text
  | .field f => f.render
  | .spread s => s.render
  | .inline f => f.render

def SelectionSet.render : SelectionSet → Text
  | ⟨selections, _⟩ => wrap "\x7b\n" (indent (joinFilled "\n" (renderSelections selections))) "\n\x7d"

def renderSelections : List Selection → List Text
  | [] => []
  | s :: rest => s.render :: renderSelections rest

end

def VariableDefinition.render (d : VariableDefinition) : Text :=
  d.var.render ++ ": " ++ d.type.render ++ wrap " = " ((d.defaultValue.map Value.render).getD []) [] ++
    wrap " " (renderDirectives d.directives) []

def renderVariableDefinitions (definitions : List VariableDefinition) : Text :=
  wrap "(" (joinFilled ", " (definitions.map VariableDefinition.render)) ")"

/-- A query without name, variables and directives is written as its selection set alone. -/
def Operation.render (o : Operation) : Text :=
  let head := joinFilled " "
    [o.type.text, (o.name.map Name.render).getD [] ++ renderVariableDefinitions o.variableDefinitions,
      renderDirectives o.directives]
  let opening : Text := if head = OperationType.query.text then [] else head ++ " "
  opening ++ o.selectionSet.render

def Fragment.render (f : Fragment) : Text :=
  "fragment " ++ f.name.render ++ renderVariableDefinitions (f.variableDefinitions.getD []) ++ " on " ++
    f.typeCondition.render ++ " " ++ wrap [] (renderDirectives f.directives) " " ++ f.selectionSet.render

def Definition.render : Definition → Text
  | .operation o => o.render
  | .fragment f => f.render

def Document.render (d : Document) : Text := join "\n\n" (d.definitions.map Definition.render)

def Node.render : Node → Text
  | name n => n.render
  | value v => v.render
  | objectField f => f.render
  | argument a => a.render
  | directive d => d.render
  | type t => t.render
  | modifier m => m.render
  | selection s => s.render
  | selectionSet s => s.render
  | variableDefinition d => d.render
  | definition d => d.render
  | document d => d.render

end QueryPlanner
