import QueryPlanner.Document.Printer
import QueryPlanner.Plan.Basic

namespace QueryPlanner

open Text (join wrap spaces)

def renderPath (path : ResponsePath) : Text := "\x27" ++ join "." path ++ "\x27"

def PlanField.render (f : PlanField) : Text :=
  renderPath f.path ++ " (" ++ f.parentType ++ "." ++ f.fieldName ++ ": " ++ f.resultType.render ++ ")"

def renderVariable (name : Text) : Text := "$" ++ name

def InitialCount.render : InitialCount → Text
  | items n => Text.ofNat n
  | var name => renderVariable name

def renderOptions (options : List (Text × Option Text)) : Text :=
  join ", " (options.filterMap fun (name, value) => value.map fun value => name ++ ": " ++ value)

mutual

def ResolvePlan.lines (indent : Nat) : ResolvePlan → List Text
  | .resolver field => [spaces indent ++ "Resolver " ++ field.render]
  | .composite field none => [spaces indent ++ "Composite " ++ field.render]
  | .composite field (some plan) => (spaces indent ++ "Composite " ++ field.render ++ ":") :: plan.lines (indent + 2)

def StreamPlan.lines (indent : Nat) : StreamPlan → List Text
  | ⟨id, label, path, initialCount, condition, node⟩ =>
    let options := renderOptions
      [("initialCount", some initialCount.render), ("label", label.map Quoted.label),
        ("if", condition.map renderVariable)]
    (spaces indent ++ "Stream #" ++ Text.ofNat id ++ " " ++ renderPath path ++ " (" ++ options ++ "):") ::
      node.lines (indent + 2)

def FieldPlan.lines (indent : Nat) : FieldPlan → List Text
  | .resolve plan => plan.lines indent
  | .stream plan => plan.lines indent

def SelectionPlan.lines (indent : Nat) : SelectionPlan → List Text
  | .parallel nodes => (spaces indent ++ "Parallel:") :: fieldPlanLines (indent + 2) nodes
  | .serial ordered [] => (spaces indent ++ "Serial:") :: fieldPlanLines (indent + 2) ordered
  | .serial ordered (other :: others) =>
    (spaces indent ++ "Serial:") :: fieldPlanLines (indent + 2) ordered ++
      (spaces (indent + 2) ++ "Parallel:") :: (other.lines (indent + 4) ++ fieldPlanLines (indent + 4) others)

def fieldPlanLines (indent : Nat) : List FieldPlan → List Text
  | [] => []
  | plan :: rest => plan.lines indent ++ fieldPlanLines indent rest

end

def selectionLines (indent : Nat) : Option SelectionPlan → List Text
  | none => []
  | some plan => plan.lines indent

mutual

def DeferPlan.lines (indent : Nat) : DeferPlan → List Text
  | ⟨label, path, parentType, condition, node, deferred⟩ =>
    let place : Text := if path = [] then "root" else renderPath path
    let options := renderOptions [("label", label.map Quoted.label), ("if", condition.map renderVariable)]
    let ending : Text := if node.isSome || !deferred.isEmpty then ":" else []
    (spaces indent ++ "Defer at " ++ place ++ " on " ++ parentType ++ wrap " (" options ")" ++ ending) ::
      (selectionLines (indent + 2) node ++ deferPlanLines (indent + 2) deferred)

def deferPlanLines (indent : Nat) : List DeferPlan → List Text
  | [] => []
  | plan :: rest => plan.lines indent ++ deferPlanLines indent rest

end

def RootPlan.lines (indent : Nat) : RootPlan → List Text
  | .selections plan => selectionLines indent plan
  | .subscription field plan =>
    let ending : Text := if plan.isSome then ":" else []
    (spaces indent ++ "Subscription " ++ field.render ++ ending) :: selectionLines (indent + 2) plan

def OperationPlan.lines (indent : Nat) : OperationPlan → List Text
  | ⟨type, name, root⟩ =>
    let ending : Text := match name with
      | none => []
      | some name => " " ++ name
    (spaces indent ++ "Operation: " ++ type.text ++ ending) :: root.lines (indent + 2)

def renderLines (lines : List Text) : Text := join "\n" lines

def QueryPlan.render (plan : QueryPlan) : Text :=
  renderLines (plan.root.lines 0 ++ deferPlanLines 0 plan.deferred)

end QueryPlanner
