import QueryPlanner.Log
import QueryPlanner.Schema.Metadata

namespace QueryPlanner

structure PlanField where
  responseKey : Text
  fieldName : Text
  parentType : Text
  /-- The type of the fragment through which the field was selected, if it is not the enclosing one. -/
  typeCondition : Option Text
  path : ResponsePath
  fieldNodes : List Field
  arguments : List Argument
  directives : List Directive
  resultType : TypeRef
  metadata : FieldMetadata

inductive InitialCount where
  | items (n : Nat)
  | var (name : Text)
  deriving DecidableEq

mutual

/-- A leaf, or a field with what is selected on it; nothing is left there if all of that is deferred or excluded. -/
inductive ResolvePlan where
  | resolver (field : PlanField)
  | composite (field : PlanField) (selections : Option SelectionPlan)

structure StreamPlan where
  id : Nat
  label : Option Text
  path : ResponsePath
  initialCount : InitialCount
  condition : Option Text
  node : ResolvePlan

inductive FieldPlan where
  | resolve (plan : ResolvePlan)
  | stream (plan : StreamPlan)

/-- Fields side by side; or fields in order, with the remaining ones side by side behind them, if there are any. -/
inductive SelectionPlan where
  | parallel (nodes : List FieldPlan)
  | serial (ordered : List FieldPlan) (others : List FieldPlan)

end

structure DeferPlan where
  label : Option Text
  path : ResponsePath
  parentType : Text
  condition : Option Text
  node : Option SelectionPlan
  deferred : List DeferPlan

inductive RootPlan where
  | selections (plan : Option SelectionPlan)
  | subscription (field : PlanField) (selections : Option SelectionPlan)

structure OperationPlan where
  type : OperationType
  name : Option Text
  root : RootPlan

structure QueryPlan where
  root : OperationPlan
  streams : List (Nat × StreamPlan)
  deferred : List DeferPlan

namespace ResolvePlan

def field : ResolvePlan → PlanField
  | resolver field | composite field _ => field

def selections? : ResolvePlan → Option SelectionPlan
  | resolver _ => none
  | composite _ selections => selections

end ResolvePlan

namespace FieldPlan

def field : FieldPlan → PlanField
  | resolve plan => plan.field
  | stream plan => plan.node.field

/-- The field waits for those before it, unless it is pure. -/
def isOrdered (plan : FieldPlan) : Bool := plan.field.metadata.isSerial && !plan.field.metadata.isPure

end FieldPlan

namespace SelectionPlan

def ofFields (nodes : List FieldPlan) : Option SelectionPlan :=
  let ordered := nodes.filter (·.isOrdered)
  let others := nodes.filter (!·.isOrdered)
  if nodes.isEmpty then none
  else if ordered.isEmpty then some (.parallel others)
  else some (.serial ordered others)

theorem ofFields_eq_none_iff {nodes : List FieldPlan} : ofFields nodes = none ↔ nodes = [] := by
  unfold ofFields
  split <;> rename_i empty
  · simpa using empty
  · refine iff_of_false ?_ (by simpa using empty)
    dsimp only
    split <;> simp

end SelectionPlan

mutual

def DeferPlan.count : DeferPlan → Nat
  | ⟨_, _, _, _, _, deferred⟩ => countDeferred deferred + 1

def countDeferred : List DeferPlan → Nat
  | [] => 0
  | d :: rest => d.count + countDeferred rest

end

end QueryPlanner
