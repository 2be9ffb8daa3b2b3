import QueryPlanner.Document.Selection

namespace QueryPlanner

inductive OperationType where
  | query | mutation | subscription
  deriving DecidableEq, Repr

namespace OperationType

def text : OperationType → Text
  | query => "query"
  | mutation => "mutation"
  | subscription => "subscription"

def all : List OperationType := [query, mutation, subscription]

def ofText? (text : Text) : Option OperationType := all.find? (·.text = text)

@[simp] theorem ofText?_text (type : OperationType) : ofText? type.text = some type := by
  cases type <;> decide

end OperationType

structure VariableDefinition where
  var : Variable
  type : TypeRef
  defaultValue : Option Value
  directives : List Directive
  loc : Option Location := none

structure Operation where
  type : OperationType
  name : Option Name
  variableDefinitions : List VariableDefinition
  directives : List Directive
  selectionSet : SelectionSet
  loc : Option Location := none

/-- The variable definitions are absent where a document may not have any on fragments. -/
structure Fragment where
  name : Name
  variableDefinitions : Option (List VariableDefinition)
  typeCondition : NamedType
  directives : List Directive
  selectionSet : SelectionSet
  loc : Option Location := none

inductive Definition where
  | operation (operation : Operation)
  | fragment (fragment : Fragment)

def Definition.loc : Definition → Option Location
  | operation o => o.loc
  | fragment f => f.loc

structure Document where
  definitions : List Definition
  loc : Option Location := none

end QueryPlanner
