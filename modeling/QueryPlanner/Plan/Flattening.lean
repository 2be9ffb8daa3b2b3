import QueryPlanner.Plan.Basic

namespace QueryPlanner

structure DeferredFragment where
  selectionSet : SelectionSet
  parentType : Text
  path : ResponsePath
  label : Option Text
  condition : Option Text

/-- The enclosing object: its path, whether fragments on it may be deferred, and its type. -/
structure Scope where
  path : ResponsePath
  isDeferrable : Bool
  parentType : Text

inductive Flattened where
  | field (condition : Option Text) (field : Field)
  | deferred (fragment : DeferredFragment)
  | inlined (reason : Event)
  | spread (name : Text)

namespace Flattened

def field? : Flattened → Option (Option Text × Field)
  | field condition f => some (condition, f)
  | _ => none

def deferred? : Flattened → Option DeferredFragment
  | deferred fragment => some fragment
  | _ => none

def event? : Flattened → Option Event
  | deferred fragment => some (.fragmentDeferred fragment.path fragment.parentType)
  | inlined reason => some reason
  | _ => none

def spread? : Flattened → Option Text
  | spread name => some name
  | _ => none

end Flattened

/-- A literal condition that takes a selection out. Conditions on variables are left to execution. -/
def Directive.excludes (d : Directive) : Bool :=
  match (d.argument? "if").bind Value.boolean? with
  | some true => d.name.text = "skip"
  | some false => d.name.text = "include"
  | none => false

def isExcluded (directives : List Directive) : Bool := directives.any (·.excludes)

/-- The condition in force inside a fragment; the type already in force adds nothing. -/
def narrow (parentType : Text) (condition : Option Text) (typeCondition : Option NamedType) : Option Text :=
  match typeCondition with
  | none => condition
  | some type => if type.name.text = condition.getD parentType then condition else some type.name.text

inductive Deferral where
  | inline (reason : Option Event)
  | aside (label condition : Option Text)

def Deferral.decide (scope : Scope) (parentType : Text) (directives : List Directive) : Deferral :=
  match Directive.find? directives "defer" with
  | none => .inline none
  | some d =>
    let condition := d.argument? "if"
    if condition.bind Value.boolean? = some false then .inline (some (.deferDisabled scope.path))
    else if !scope.isDeferrable then .inline (some (.deferNotAllowed scope.path parentType))
    else .aside ((d.argument? "label").bind Value.string?) (condition.bind Value.varName?)

mutual

def Selection.flatten (scope : Scope) (condition : Option Text) : Selection → List Flattened
  | .field f => if isExcluded f.directives then [] else [.field condition f]
  | .spread s => [.spread s.name.text]
  | .inline ⟨typeCondition, directives, set, _⟩ =>
    if isExcluded directives then []
    else
      let inside := narrow scope.parentType condition typeCondition
      let parentType := inside.getD scope.parentType
      match Deferral.decide scope parentType directives with
      | .inline none => set.flatten scope inside
      | .inline (some reason) => .inlined reason :: set.flatten scope inside
      | .aside label deferCondition =>
        [.deferred { selectionSet := set, parentType, path := scope.path, label, condition := deferCondition }]

def SelectionSet.flatten (scope : Scope) (condition : Option Text) : SelectionSet → List Flattened
  | ⟨selections, _⟩ => flattenSelections scope condition selections

def flattenSelections (scope : Scope) (condition : Option Text) : List Selection → List Flattened
  | [] => []
  | s :: rest => s.flatten scope condition ++ flattenSelections scope condition rest

end

structure FieldGroup where
  responseKey : Text
  fieldName : Text
  parentType : Text
  typeCondition : Option Text
  first : Field
  others : List Field

namespace FieldGroup

def fieldNodes (g : FieldGroup) : List Field := g.first :: g.others

def single (parentType : Text) (condition : Option Text) (field : Field) : FieldGroup where
  responseKey := field.responseKey
  fieldName := field.name.text
  parentType := condition.getD parentType
  typeCondition := condition
  first := field
  others := []

def add (parentType : Text) (condition : Option Text) (field : Field) : List FieldGroup → List FieldGroup
  | [] => [single parentType condition field]
  | g :: rest =>
    if g.typeCondition = condition ∧ g.responseKey = field.responseKey then
      { g with others := g.others ++ [field] } :: rest
    else g :: add parentType condition field rest

def ofFields (parentType : Text) (fields : List (Option Text × Field)) : List FieldGroup :=
  fields.foldl (fun groups field => add parentType field.1 field.2 groups) []

end FieldGroup

end QueryPlanner
