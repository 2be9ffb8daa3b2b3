import QueryPlanner.Proofs.Syntax.Tree
import Mathlib.Logic.Basic

namespace QueryPlanner

theorem deepest_map {depth : α → Nat} {bare : α → α} {parts : List α}
    (same : ∀ part ∈ parts, depth (bare part) = depth part) : deepest depth (parts.map bare) = deepest depth parts := by
  induction parts with
  | nil => rfl
  | cons part rest ih =>
      obtain ⟨first, others⟩ := List.forall_mem_cons.1 same
      rw [List.map_cons, deepest, deepest, first, ih others]

mutual

theorem Value.depth_bare : (value : Value) → value.bare.depth = value.depth
  | .var _ | .int .. | .float .. | .string .. | .boolean .. | .null _ | .enum .. => rfl
  | .list values _ => congrArg (· + 1) (valuesDepth_bare values)
  | .object fields _ => congrArg (· + 1) (objectFieldsDepth_bare fields)

theorem ObjectField.depth_bare : (f : ObjectField) → f.bare.depth = f.depth
  | ⟨_, value, _⟩ => value.depth_bare

theorem valuesDepth_bare : (values : List Value) → valuesDepth (bareValues values) = valuesDepth values
  | [] => rfl
  | value :: rest => congrArg₂ max value.depth_bare (valuesDepth_bare rest)

theorem objectFieldsDepth_bare : (fields : List ObjectField) →
    objectFieldsDepth (bareObjectFields fields) = objectFieldsDepth fields
  | [] => rfl
  | f :: rest => congrArg₂ max f.depth_bare (objectFieldsDepth_bare rest)

end

theorem TypeRef.depth_bare (type : TypeRef) : type.bare.depth = type.depth := by
  induction type with
  | named _ => rfl
  | list _ _ ih => exact congrArg (· + 1) ih
  | nonNull _ _ ih => exact ih

mutual

theorem Modifier.depth_bare : (modifier : Modifier) → modifier.bare.depth = modifier.depth
  | .list element _ => congrArg (· + 1) (elementDepth_bare element)
  | .required element _ | .optional element _ => elementDepth_bare element

theorem elementDepth_bare : (element : Option Modifier) → elementDepth (bareElement element) = elementDepth element
  | none => rfl
  | some modifier => modifier.depth_bare

end

theorem Directive.depth_bare (d : Directive) : d.bare.depth = d.depth :=
  deepest_map fun argument _ => argument.value.depth_bare

theorem arguments_depth_bare (arguments : List Argument) :
    deepest Argument.depth (arguments.map Argument.bare) = deepest Argument.depth arguments :=
  deepest_map fun argument _ => argument.value.depth_bare

theorem directives_depth_bare (directives : List Directive) :
    deepest Directive.depth (directives.map Directive.bare) = deepest Directive.depth directives :=
  deepest_map fun d _ => d.depth_bare

mutual

theorem Field.depth_bare : (f : Field) → f.bare.depth = f.depth
  | ⟨_, _, arguments, modifier, directives, none, _⟩ => by
      have element := elementDepth_bare modifier
      rw [bareElement_eq_map] at element
      simp only [Field.bare, Field.depth, arguments_depth_bare, directives_depth_bare, element]
  | ⟨_, _, arguments, modifier, directives, some set, _⟩ => by
      have element := elementDepth_bare modifier
      rw [bareElement_eq_map] at element
      simp only [Field.bare, Field.depth, arguments_depth_bare, directives_depth_bare, element, set.depth_bare]

theorem InlineFragment.depth_bare : (f : InlineFragment) → f.bare.depth = f.depth
  | ⟨_, directives, set, _⟩ => congrArg₂ max (directives_depth_bare directives) set.depth_bare

theorem Selection.depth_bare : (selection : Selection) → selection.bare.depth = selection.depth
  | .field f => f.depth_bare
  | .spread s => directives_depth_bare s.directives
  | .inline f => f.depth_bare

theorem SelectionSet.depth_bare : (set : SelectionSet) → set.bare.depth = set.depth
  | ⟨selections, _⟩ => congrArg (· + 1) (selectionsDepth_bare selections)

theorem selectionsDepth_bare : (selections : List Selection) →
    selectionsDepth (bareSelections selections) = selectionsDepth selections
  | [] => rfl
  | selection :: rest => congrArg₂ max selection.depth_bare (selectionsDepth_bare rest)

end

theorem VariableDefinition.depth_bare (d : VariableDefinition) : d.bare.depth = d.depth := by
  obtain ⟨_, type, value, directives, _⟩ := d
  have value_depth : ((value.map Value.bare).map Value.depth).getD 0 = (value.map Value.depth).getD 0 := by
    cases value with
    | none => rfl
    | some value => exact value.depth_bare
  exact congrArg₂ max type.depth_bare (congrArg₂ max value_depth (directives_depth_bare directives))

theorem variableDefinitions_depth_bare (definitions : List VariableDefinition) :
    deepest VariableDefinition.depth (definitions.map VariableDefinition.bare) =
      deepest VariableDefinition.depth definitions :=
  deepest_map fun d _ => d.depth_bare

theorem Operation.depth_bare (o : Operation) : o.bare.depth = o.depth :=
  congrArg₂ max (variableDefinitions_depth_bare o.variableDefinitions)
    (congrArg₂ max (directives_depth_bare o.directives) o.selectionSet.depth_bare)

theorem Fragment.depth_bare (f : Fragment) : f.bare.depth = f.depth := by
  obtain ⟨_, definitions, _, directives, set, _⟩ := f
  have declared : deepest VariableDefinition.depth ((definitions.map (List.map VariableDefinition.bare)).getD []) =
      deepest VariableDefinition.depth (definitions.getD []) := by
    cases definitions with
    | none => rfl
    | some definitions => exact variableDefinitions_depth_bare definitions
  exact congrArg₂ max declared (congrArg₂ max (directives_depth_bare directives) set.depth_bare)

theorem Definition.depth_bare : (d : Definition) → d.bare.depth = d.depth
  | .operation o => o.depth_bare
  | .fragment f => f.depth_bare

theorem Document.depth_bare (d : Document) : d.bare.depth = d.depth := deepest_map fun d _ => d.depth_bare

end QueryPlanner
