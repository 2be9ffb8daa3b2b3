import QueryPlanner.Proofs.Document.Bare
import QueryPlanner.Proofs.Plan.Alike
import QueryPlanner.Proofs.Plan.Laws

namespace QueryPlanner

@[simp] theorem Value.boolean?_bare (v : Value) : v.bare.boolean? = v.boolean? := by
  cases v <;> rfl

@[simp] theorem Value.string?_bare (v : Value) : v.bare.string? = v.string? := by
  cases v <;> rfl

@[simp] theorem Value.varName?_bare (v : Value) : v.bare.varName? = v.varName? := by
  cases v <;> rfl

theorem InitialCount.ofValue_bare (v : Option Value) : ofValue (v.map Value.bare) = ofValue v := by
  rcases v with _ | v
  · rfl
  · cases v <;> rfl

theorem option_bind_bare {α β : Type} {bare : α → α} {read : α → Option β} (same : ∀ part, read (bare part) = read part)
    (part : Option α) : (part.map bare).bind read = part.bind read := by
  cases part with
  | none => rfl
  | some part => exact same part

namespace Directive

@[simp] theorem argument?_bare (d : Directive) (name : Text) :
    d.bare.argument? name = (d.argument? name).map Value.bare := by
  unfold argument? bare
  rw [List.find?_map, Option.map_map, Option.map_map]
  rfl

@[simp] theorem find?_bare (directives : List Directive) (name : Text) :
    find? (directives.map Directive.bare) name = (find? directives name).map Directive.bare := by
  unfold find?
  rw [List.find?_map]
  rfl

theorem excludes_bare (d : Directive) : d.bare.excludes = d.excludes := by
  unfold excludes
  rw [argument?_bare, option_bind_bare Value.boolean?_bare]
  rfl

end Directive

@[simp] theorem isExcluded_bare (directives : List Directive) :
    isExcluded (directives.map Directive.bare) = isExcluded directives := by
  unfold isExcluded
  rw [List.any_map]
  congr 1
  funext d
  exact d.excludes_bare

@[simp] theorem Deferral.decide_bare (scope : Scope) (parentType : Text) (directives : List Directive) :
    Deferral.decide scope parentType (directives.map Directive.bare) = Deferral.decide scope parentType directives := by
  unfold Deferral.decide
  rw [Directive.find?_bare]
  cases Directive.find? directives "defer" with
  | none => rfl
  | some d =>
      dsimp only [Option.map_some]
      rw [d.argument?_bare, d.argument?_bare, option_bind_bare Value.boolean?_bare, option_bind_bare Value.string?_bare,
        option_bind_bare Value.varName?_bare]

@[simp] theorem narrow_bare (parentType : Text) (condition : Option Text) (typeCondition : Option NamedType) :
    narrow parentType condition (typeCondition.map NamedType.bare) = narrow parentType condition typeCondition := by
  cases typeCondition <;> rfl

theorem PlanField.Alike.streaming_eq {nodes : NodesRelation} {f f' : PlanField} (alike : f.Alike nodes f') :
    f.streaming = f'.streaming := by
  have bare (f : PlanField) :
      f.streaming = PlanField.streaming { f with directives := f.directives.map Directive.bare } := by
    unfold streaming
    dsimp only
    rw [Directive.find?_bare]
    cases Directive.find? f.directives "stream" with
    | none => rfl
    | some d =>
        dsimp only [Option.map_some]
        rw [d.argument?_bare, d.argument?_bare, d.argument?_bare, option_bind_bare Value.boolean?_bare,
          option_bind_bare Value.string?_bare, option_bind_bare Value.varName?_bare, InitialCount.ofValue_bare]
  rw [bare f, bare f', alike.directives]
  unfold streaming
  dsimp only
  rw [alike.path, alike.parentType, alike.fieldName, alike.metadata, alike.resultType]

mutual

theorem Modifier.apply_bare (type : TypeRef) : (modifier : Modifier) → modifier.bare.apply type = modifier.apply type
  | .list element _ => by
      rw [Modifier.bare, Modifier.apply, Modifier.apply]
      cases type.nullable with
      | list item _ =>
          dsimp only
          rw [Modifier.applyElement_bare item element]
      | _ => rfl
  | .required element _ => by
      rw [Modifier.bare, Modifier.apply, Modifier.apply, Modifier.applyElement_bare type.nullable element]
  | .optional element _ => by
      rw [Modifier.bare, Modifier.apply, Modifier.apply, Modifier.applyElement_bare type element]

theorem Modifier.applyElement_bare (type : TypeRef) : (element : Option Modifier) →
    Modifier.applyElement (bareElement element) type = Modifier.applyElement element type
  | none => rfl
  | some modifier => modifier.apply_bare type

end

theorem TypeRef.modifiedBy_bare (type : TypeRef) (modifier : Option Modifier) :
    type.modifiedBy (modifier.map Modifier.bare) = type.modifiedBy modifier := by
  rw [← bareElement_eq_map]
  exact Modifier.applyElement_bare type modifier

namespace Field

@[simp] theorem name_bare (f : Field) : f.bare.name.text = f.name.text := by
  cases f
  rw [bare_mk]
  rfl

@[simp] theorem directives_bare (f : Field) : f.bare.directives = f.directives.map Directive.bare := by
  cases f
  rw [bare_mk]

@[simp] theorem arguments_bare (f : Field) : f.bare.arguments = f.arguments.map Argument.bare := by
  cases f
  rw [bare_mk]

@[simp] theorem modifier_bare (f : Field) : f.bare.modifier = f.modifier.map Modifier.bare := by
  cases f
  rw [bare_mk]

@[simp] theorem selectionSet_bare (f : Field) : f.bare.selectionSet = f.selectionSet.map SelectionSet.bare := by
  cases f
  rw [bare_mk]

@[simp] theorem responseKey_bare (f : Field) : f.bare.responseKey = f.responseKey := by
  obtain ⟨responseName, _, _, _, _, _, _⟩ := f
  rw [bare_mk]
  cases responseName <;> rfl

end Field

def DeferredFragment.bare (f : DeferredFragment) : DeferredFragment := { f with selectionSet := f.selectionSet.bare }

def Flattened.bare : Flattened → Flattened
  | field condition f => field condition f.bare
  | deferred fragment => deferred fragment.bare
  | inlined reason => inlined reason
  | spread name => spread name

mutual

theorem Selection.flatten_bare (scope : Scope) (condition : Option Text) : (selection : Selection) →
    selection.bare.flatten scope condition = (selection.flatten scope condition).map Flattened.bare
  | .field f => by
      rw [Selection.bare, Selection.flatten, Selection.flatten, f.directives_bare, isExcluded_bare]
      split_ifs <;> rfl
  | .spread s => rfl
  | .inline ⟨typeCondition, directives, set, _⟩ => by
      have inside := set.flatten_bare scope (narrow scope.parentType condition typeCondition)
      rw [Selection.bare, InlineFragment.bare, Selection.flatten, Selection.flatten, isExcluded_bare, narrow_bare]
      dsimp only
      rw [Deferral.decide_bare]
      split_ifs
      · rfl
      · cases Deferral.decide scope ((narrow scope.parentType condition typeCondition).getD scope.parentType)
            directives with
        | inline reason =>
            cases reason with
            | none => exact inside
            | some reason => exact congrArg (Flattened.inlined reason :: ·) inside
        | aside label deferCondition => rfl

theorem SelectionSet.flatten_bare (scope : Scope) (condition : Option Text) : (set : SelectionSet) →
    set.bare.flatten scope condition = (set.flatten scope condition).map Flattened.bare
  | ⟨selections, _⟩ => flattenSelections_bare scope condition selections

theorem flattenSelections_bare (scope : Scope) (condition : Option Text) : (selections : List Selection) →
    flattenSelections scope condition (bareSelections selections) =
      (flattenSelections scope condition selections).map Flattened.bare
  | [] => rfl
  | s :: rest => by
      rw [bareSelections, flattenSelections, flattenSelections, s.flatten_bare scope condition,
        flattenSelections_bare scope condition rest, List.map_append]

end

theorem Scope.found_bare (scope : Scope) (sets : List SelectionSet) :
    scope.found (sets.map SelectionSet.bare) = (scope.found sets).map Flattened.bare := by
  unfold found
  rw [List.flatMap_map, List.map_flatMap]
  congr 1
  funext set
  exact set.flatten_bare scope none

end QueryPlanner
