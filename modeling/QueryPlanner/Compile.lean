import QueryPlanner.Parser.Definitions
import QueryPlanner.Plan.Build
import QueryPlanner.Memo

namespace QueryPlanner

structure Compiled where
  document : Document
  operation : PreparedOperation
  plan : QueryPlan

def compile (provider : MetadataProvider) (source : Source) (options : ParseOptions) (operationName : Option Text) :
    Except PlanFailure Compiled × List Event :=
  let prepared := do
    let document ← Document.parse source options
    return (document, ← document.prepare operationName)
  match prepared with
  | .error d => (.error (.reported d), [])
  | .ok (document, operation) =>
    let event := Event.operationPrepared operation.name operation.fragmentNames
    let (result, planning) := operation.plan provider
    (result.map fun plan => { document, operation, plan }, event :: planning.log)

/-- A plan as an object of its own: no other plan that is made has its number. -/
structure MadePlan extends QueryPlan where
  number : Nat

abbrev PlanMemo (α β : Type) := Memo α β MadePlan

namespace PlanMemo

variable {α β : Type} [DecidableEq α] [DecidableEq β]

def make (operations : α → PreparedOperation) (providers : β → MetadataProvider) (a : α) (b : β) :
    EStateM PlanFailure Nat (Option MadePlan) := fun number =>
  match ((operations a).plan (providers b)).1 with
  | .ok plan => .ok (some { plan with number }) (number + 1)
  | .error failure => .error failure number

def plan (operations : α → PreparedOperation) (providers : β → MetadataProvider) (a : α) (b : β) (memo : PlanMemo α β) :
    Except PlanFailure (Option MadePlan × PlanMemo α β) :=
  match Memo.call (make operations providers) a b memo memo.entries.length with
  | .ok result _ => .ok result
  | .error failure _ => .error failure

def attempt (operations : α → PreparedOperation) (providers : β → MetadataProvider) (a : α) (b : β)
    (memo : PlanMemo α β) : Except PlanFailure (Option MadePlan) × PlanMemo α β :=
  match plan operations providers a b memo with
  | .ok (made, memo) => (.ok made, memo)
  | .error failure => (.error failure, memo.opened a)

def planAll (operations : α → PreparedOperation) (providers : β → MetadataProvider) :
    List (α × β) → PlanMemo α β → Memo.History α β MadePlan PlanFailure × PlanMemo α β
  | [], memo => ([], memo)
  | (a, b) :: calls, memo =>
    let (outcome, memo) := attempt operations providers a b memo
    let (history, memo) := planAll operations providers calls memo
    (((a, b), outcome) :: history, memo)

end PlanMemo

end QueryPlanner
