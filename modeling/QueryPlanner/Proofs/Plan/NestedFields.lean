import QueryPlanner.Plan.Flattening
import Mathlib.Tactic.SplitIfs

namespace QueryPlanner

inductive Enclosure where
  | field (f : Field)
  | fragment (f : InlineFragment)

namespace Enclosure

def directives : Enclosure → List Directive
  | field f => f.directives
  | fragment f => f.directives

def responseKey? : Enclosure → Option Text
  | field f => some f.responseKey
  | fragment _ => none

end Enclosure

/-- A field somewhere below a selection set and all that it stands in there, outermost first. -/
structure NestedField where
  field : Field
  within : List Enclosure

namespace NestedField

def inside (enclosure : Enclosure) (n : NestedField) : NestedField := { n with within := enclosure :: n.within }

def responsePath (n : NestedField) : ResponsePath := n.within.filterMap (·.responseKey?) ++ [n.field.responseKey]

def isIncluded (n : NestedField) : Bool :=
  !isExcluded n.field.directives && n.within.all fun e => !isExcluded e.directives

end NestedField

mutual

def Selection.nestedFields : Selection → List NestedField
  | .field ⟨responseName, name, arguments, modifier, directives, none, loc⟩ =>
    [⟨⟨responseName, name, arguments, modifier, directives, none, loc⟩, []⟩]
  | .field ⟨responseName, name, arguments, modifier, directives, some set, loc⟩ =>
    let f : Field := ⟨responseName, name, arguments, modifier, directives, some set, loc⟩
    ⟨f, []⟩ :: set.nestedFields.map (.inside (.field f))
  | .spread _ => []
  | .inline ⟨typeCondition, directives, set, loc⟩ =>
    set.nestedFields.map (.inside (.fragment ⟨typeCondition, directives, set, loc⟩))

def SelectionSet.nestedFields : SelectionSet → List NestedField
  | ⟨selections, _⟩ => nestedFieldsIn selections

def nestedFieldsIn : List Selection → List NestedField
  | [] => []
  | s :: rest => s.nestedFields ++ nestedFieldsIn rest

end

/-- The fields among the given ones, nested in an object at a base path, that stand at a path and are included. -/
def fieldsReached (base path : ResponsePath) (nested : List NestedField) : List Field :=
  (nested.filter fun n => n.isIncluded && decide (base ++ n.responsePath = path)).map (·.field)

def SelectionSet.fieldsAt (set : SelectionSet) (path : ResponsePath) : List Field :=
  fieldsReached [] path set.nestedFields

section
variable (base path : ResponsePath)

@[simp] theorem fieldsReached_nil : fieldsReached base path [] = [] := rfl

@[simp] theorem fieldsReached_append (nested nested' : List NestedField) :
    fieldsReached base path (nested ++ nested') = fieldsReached base path nested ++ fieldsReached base path nested' := by
  simp [fieldsReached]

@[simp] theorem fieldsReached_single (f : Field) :
    fieldsReached base path [⟨f, []⟩] =
      if isExcluded f.directives then [] else if base ++ [f.responseKey] = path then [f] else [] := by
  by_cases excluded : isExcluded f.directives <;> by_cases here : base ++ [f.responseKey] = path <;>
    simp [fieldsReached, NestedField.isIncluded, NestedField.responsePath, excluded, here]

theorem fieldsReached_inside_fragment (f : InlineFragment) (nested : List NestedField) :
    fieldsReached base path (nested.map (.inside (.fragment f))) =
      if isExcluded f.directives then [] else fieldsReached base path nested := by
  have decided (n : NestedField) : ((n.inside (.fragment f)).isIncluded &&
      decide (base ++ (n.inside (.fragment f)).responsePath = path)) =
        (!isExcluded f.directives && (n.isIncluded && decide (base ++ n.responsePath = path))) := by
    simp only [NestedField.isIncluded, NestedField.inside, List.all_cons, NestedField.responsePath,
      List.filterMap_cons, Enclosure.responseKey?, Enclosure.directives]
    ac_rfl
  unfold fieldsReached
  rw [List.filter_map, List.map_map]
  simp only [Function.comp_def, decided]
  split_ifs with excluded <;> simp [excluded, NestedField.inside]

theorem fieldsReached_inside_field (f : Field) (nested : List NestedField) :
    fieldsReached base path (nested.map (.inside (.field f))) =
      if isExcluded f.directives then [] else fieldsReached (base ++ [f.responseKey]) path nested := by
  have decided (n : NestedField) : ((n.inside (.field f)).isIncluded &&
      decide (base ++ (n.inside (.field f)).responsePath = path)) =
        (!isExcluded f.directives && (n.isIncluded && decide (base ++ [f.responseKey] ++ n.responsePath = path))) := by
    simp only [NestedField.isIncluded, NestedField.inside, List.all_cons, NestedField.responsePath,
      List.filterMap_cons, Enclosure.responseKey?, Enclosure.directives, List.append_assoc, List.cons_append,
      List.nil_append]
    ac_rfl
  unfold fieldsReached
  rw [List.filter_map, List.map_map]
  simp only [Function.comp_def, decided]
  split_ifs with excluded <;> simp [excluded, NestedField.inside]

end

def Field.reached (base path : ResponsePath) (f : Field) : List Field :=
  (if base ++ [f.responseKey] = path then [f] else []) ++
    f.selectionSet.elim [] fun set => fieldsReached (base ++ [f.responseKey]) path set.nestedFields

def DeferredFragment.reached (path : ResponsePath) (f : DeferredFragment) : List Field :=
  fieldsReached f.path path f.selectionSet.nestedFields

def Flattened.reached (base path : ResponsePath) : Flattened → List Field
  | field _ f => f.reached base path
  | deferred f => f.reached path
  | _ => []

mutual

theorem Selection.flatten_reached (scope : Scope) (condition : Option Text) (path : ResponsePath) : (s : Selection) →
    fieldsReached scope.path path s.nestedFields = (s.flatten scope condition).flatMap (·.reached scope.path path)
  | .field ⟨_, _, _, _, directives, none, _⟩ => by
      rw [Selection.nestedFields, fieldsReached_single, Selection.flatten]
      by_cases excluded : isExcluded directives <;>
        simp [excluded, Flattened.reached, Field.reached]
  | .field ⟨responseName, name, arguments, modifier, directives, some set, loc⟩ => by
      rw [Selection.nestedFields, ← List.singleton_append, fieldsReached_append, fieldsReached_single,
        fieldsReached_inside_field, Selection.flatten]
      by_cases excluded : isExcluded directives <;>
        simp [excluded, Flattened.reached, Field.reached]
  | .spread _ => rfl
  | .inline ⟨typeCondition, directives, set, loc⟩ => by
      have inner := set.flatten_reached scope (narrow scope.parentType condition typeCondition) path
      rw [Selection.nestedFields, fieldsReached_inside_fragment, Selection.flatten]
      split_ifs
      · rfl
      · dsimp only
        split
        · exact inner
        · rw [List.flatMap_cons]
          exact inner
        · rw [List.flatMap_singleton]
          rfl

theorem SelectionSet.flatten_reached (scope : Scope) (condition : Option Text) (path : ResponsePath) :
    (set : SelectionSet) → fieldsReached scope.path path set.nestedFields =
      (set.flatten scope condition).flatMap (·.reached scope.path path)
  | ⟨selections, _⟩ => flattenSelections_reached scope condition path selections

theorem flattenSelections_reached (scope : Scope) (condition : Option Text) (path : ResponsePath) :
    (selections : List Selection) → fieldsReached scope.path path (nestedFieldsIn selections) =
      (flattenSelections scope condition selections).flatMap (·.reached scope.path path)
  | [] => rfl
  | s :: rest => by
      rw [nestedFieldsIn, fieldsReached_append, s.flatten_reached scope condition path,
        flattenSelections_reached scope condition path rest, flattenSelections, List.flatMap_append]

end

end QueryPlanner
