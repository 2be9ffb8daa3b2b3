import QueryPlanner.Operation.Inlining

namespace QueryPlanner

structure PreparedOperation where
  document : Document
  operation : Placed Operation
  fragments : List (Placed Fragment)
  /-- The selection set without spreads; absent if the operation's own has none. -/
  inlined : Option SelectionSet

namespace PreparedOperation

def type (p : PreparedOperation) : OperationType := p.operation.definition.type

def name (p : PreparedOperation) : Option Text := p.operation.definition.name.map (·.text)

def variableDefinitions (p : PreparedOperation) : List VariableDefinition :=
  p.operation.definition.variableDefinitions

def selectionSet (p : PreparedOperation) : SelectionSet := p.inlined.getD p.operation.definition.selectionSet

def fragmentNames (p : PreparedOperation) : List Text := p.fragments.map (·.definition.name.text)

def verbatim (document : Document) (operation : Placed Operation) : PreparedOperation :=
  { document, operation, fragments := [], inlined := none }

end PreparedOperation

structure Choice where
  operation : Option (Placed Operation) := none
  fragments : List (Placed Fragment) := []

namespace Choice

def operationMessage : Text := "Must provide operation name if query contains multiple operations."

/-- Without a name there may be one operation only; of several with the name, the last one counts. -/
def addOperation (c : Choice) (wanted : Option Text) (o : Placed Operation) : Except Diagnostic Choice :=
  match wanted with
  | none =>
    if c.operation.isSome then .error ⟨.operationNotFound operationMessage none, {}⟩
    else .ok { c with operation := some o }
  | some wanted =>
    .ok (if o.definition.name.map (·.text) = some wanted then { c with operation := some o } else c)

def addFragment (c : Choice) (f : Placed Fragment) : Except Diagnostic Choice :=
  let name := f.definition.name.text
  if (Inliner.findFragment? c.fragments name).isSome then
    .error ⟨.duplicateFragment name, .ofLocation? f.definition.loc⟩
  else .ok { c with fragments := c.fragments ++ [f] }

def add (wanted : Option Text) (c : Choice) (d : Placed Definition) : Except Diagnostic Choice :=
  match d.definition with
  | .operation o => c.addOperation wanted ⟨d.index, o⟩
  | .fragment f => c.addFragment ⟨d.index, f⟩

def missing (wanted : Option Text) : Diagnostic :=
  match wanted with
  | some name => ⟨.operationNotFound ("Unknown operation named \"" ++ name ++ "\".") (some name), {}⟩
  | none => ⟨.operationNotFound "Must provide an operation." none, {}⟩

end Choice

namespace Document

def placed (d : Document) : List (Placed Definition) :=
  d.definitions.zipIdx.map fun (definition, index) => ⟨index, definition⟩

def prepare (d : Document) (wanted : Option Text) : Except Diagnostic PreparedOperation := do
  let choice ← d.placed.foldlM (Choice.add wanted) {}
  match choice.operation with
  | none => throw (Choice.missing wanted)
  | some operation =>
    let (inlined, inlining) ← Inliner.inlineAll choice.fragments operation.definition.selectionSet
    return { document := d, operation, fragments := inlining.used, inlined }

end Document

end QueryPlanner
