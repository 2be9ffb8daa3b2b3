import QueryPlanner.Plan.Basic
import QueryPlanner.Plan.Failure

namespace QueryPlanner

/-- The fields entered, outermost first, below the path of the object that a part of the plan starts from. -/
structure Position where
  basePath : ResponsePath := []
  entered : List PlanField := []

namespace Position

def branch (basePath : ResponsePath) : Position := { basePath }

def push (p : Position) (field : PlanField) : Position := { p with entered := p.entered ++ [field] }

/-- Leaves the innermost field; where none was entered there is nothing to leave. -/
def pop (p : Position) : Except BrokenInvariant Position :=
  if p.entered.isEmpty then .error .popAtRoot else .ok { p with entered := p.entered.dropLast }

def currentField? (p : Position) : Option PlanField := p.entered.getLast?

/-- Fragments may be deferred at the start and on fields that allow it. -/
def isDeferrable (p : Position) : Bool := p.currentField?.all (·.metadata.isDeferrable)

def responsePath (p : Position) : ResponsePath := p.basePath ++ p.entered.map (·.responseKey)

@[simp] theorem responsePath_push (p : Position) (field : PlanField) :
    (p.push field).responsePath = p.responsePath ++ [field.responseKey] := by
  simp [push, responsePath]

@[simp] theorem currentField?_push (p : Position) (field : PlanField) :
    (p.push field).currentField? = some field := by
  simp [push, currentField?]

@[simp] theorem pop_push (p : Position) (field : PlanField) : (p.push field).pop = .ok p := by
  simp [push, pop]

end Position

end QueryPlanner
