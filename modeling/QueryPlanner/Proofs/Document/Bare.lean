import QueryPlanner.Document.Printer
import QueryPlanner.Proofs.Syntax.Tree
import QueryPlanner.Proofs.Tree

namespace QueryPlanner

@[simp] theorem Name.render_bare (n : Name) : n.bare.render = n.render := rfl

@[simp] theorem Variable.render_bare (v : Variable) : v.bare.render = v.render := rfl

mutual

@[simp] theorem Value.render_bare : ∀ v : Value, v.bare.render = v.render
  | .var _ | .int _ _ | .float _ _ | .string _ _ _ | .boolean _ _ | .null _ | .enum _ _ => rfl
  | .list values _ => by rw [Value.bare, Value.render, Value.render, renderValues_bare values]
  | .object fields _ => by rw [Value.bare, Value.render, Value.render, renderObjectFields_bare fields]

@[simp] theorem ObjectField.render_bare : ∀ f : ObjectField, f.bare.render = f.render
  | ⟨name, value, _⟩ => by rw [ObjectField.bare, ObjectField.render, ObjectField.render, name.render_bare, value.render_bare]

theorem renderValues_bare : ∀ values : List Value, renderValues (bareValues values) = renderValues values
  | [] => rfl
  | v :: rest => by rw [bareValues, renderValues, renderValues, v.render_bare, renderValues_bare rest]

theorem renderObjectFields_bare : ∀ fields : List ObjectField,
    renderObjectFields (bareObjectFields fields) = renderObjectFields fields
  | [] => rfl
  | f :: rest => by rw [bareObjectFields, renderObjectFields, renderObjectFields, f.render_bare, renderObjectFields_bare rest]

end

variable {α : Type} {bare : α → α} {render : α → Text}

theorem map_render_bare (same : ∀ part, render (bare part) = render part) (parts : List α) :
    (parts.map bare).map render = parts.map render := by
  rw [List.map_map]
  exact List.map_congr_left fun part _ => same part

theorem option_map_render_bare (same : ∀ part, render (bare part) = render part) (part : Option α) :
    (part.map bare).map render = part.map render := by
  rw [Option.map_map]
  exact Option.map_congr fun part _ => same part

@[simp] theorem Argument.render_bare (a : Argument) : a.bare.render = a.render := by
  simp [Argument.bare, Argument.render]

@[simp] theorem Directive.render_bare (d : Directive) : d.bare.render = d.render := by
  rw [Directive.bare, Directive.render, map_render_bare Argument.render_bare, Directive.render, Name.render_bare]

@[simp] theorem renderDirectives_bare (directives : List Directive) :
    renderDirectives (directives.map Directive.bare) = renderDirectives directives := by
  rw [renderDirectives, map_render_bare Directive.render_bare, renderDirectives]

@[simp] theorem NamedType.render_bare (t : NamedType) : t.bare.render = t.render := rfl

@[simp] theorem TypeRef.render_bare (t : TypeRef) : t.bare.render = t.render := by
  induction t with
  | named => rfl
  | list item _ ih => rw [TypeRef.bare, TypeRef.render, TypeRef.render, ih]
  | nonNull type _ ih => rw [TypeRef.bare, TypeRef.render, TypeRef.render, ih]

mutual

@[simp] theorem Modifier.render_bare : ∀ m : Modifier, m.bare.render = m.render
  | .list element _ | .required element _ | .optional element _ => by
      rw [Modifier.bare, Modifier.render, Modifier.render, renderElement_bare element]

theorem renderElement_bare : ∀ element : Option Modifier, renderElement (bareElement element) = renderElement element
  | none => rfl
  | some m => m.render_bare

end

@[simp] theorem FragmentSpread.render_bare (s : FragmentSpread) : s.bare.render = s.render := by
  simp [FragmentSpread.bare, FragmentSpread.render]

mutual

@[simp] theorem Field.render_bare : ∀ f : Field, f.bare.render = f.render
  | ⟨responseName, name, arguments, modifier, directives, set, _⟩ => by
      have modified := renderElement_bare modifier
      rw [bareElement_eq_map] at modified
      rw [Field.bare_mk, Field.render.eq_def, Field.render.eq_def]
      dsimp only
      rw [option_map_render_bare Name.render_bare, map_render_bare Argument.render_bare, modified, renderDirectives_bare,
        name.render_bare]
      cases set with
      | none => rfl
      | some set =>
          dsimp only [Option.map_some]
          rw [set.render_bare]

@[simp] theorem InlineFragment.render_bare : ∀ f : InlineFragment, f.bare.render = f.render
  | ⟨type, directives, set, _⟩ => by
      rw [InlineFragment.bare, InlineFragment.render, InlineFragment.render, option_map_render_bare NamedType.render_bare,
        renderDirectives_bare, set.render_bare]

@[simp] theorem Selection.render_bare : ∀ s : Selection, s.bare.render = s.render
  | .field f => f.render_bare
  | .spread s => s.render_bare
  | .inline f => f.render_bare

@[simp] theorem SelectionSet.render_bare : ∀ s : SelectionSet, s.bare.render = s.render
  | ⟨selections, _⟩ => by
      rw [SelectionSet.bare, SelectionSet.render, SelectionSet.render, renderSelections_bare selections]

theorem renderSelections_bare : ∀ selections : List Selection,
    renderSelections (bareSelections selections) = renderSelections selections
  | [] => rfl
  | s :: rest => by rw [bareSelections, renderSelections, renderSelections, s.render_bare, renderSelections_bare rest]

end

@[simp] theorem VariableDefinition.render_bare (d : VariableDefinition) : d.bare.render = d.render := by
  rw [VariableDefinition.bare, VariableDefinition.render, VariableDefinition.render]
  simp [option_map_render_bare Value.render_bare]

@[simp] theorem renderVariableDefinitions_bare (definitions : List VariableDefinition) :
    renderVariableDefinitions (definitions.map VariableDefinition.bare) = renderVariableDefinitions definitions := by
  rw [renderVariableDefinitions, map_render_bare VariableDefinition.render_bare, renderVariableDefinitions]

@[simp] theorem Operation.render_bare (o : Operation) : o.bare.render = o.render := by
  rw [Operation.bare, Operation.render, Operation.render, option_map_render_bare Name.render_bare]
  simp

@[simp] theorem Fragment.render_bare (f : Fragment) : f.bare.render = f.render := by
  rw [Fragment.bare, Fragment.render, Fragment.render]
  cases f.variableDefinitions <;> simp

@[simp] theorem Definition.render_bare (d : Definition) : d.bare.render = d.render := by
  cases d with
  | operation o => exact o.render_bare
  | fragment f => exact f.render_bare

theorem Document.render_bare (d : Document) : d.bare.render = d.render := by
  rw [Document.bare, Document.render, map_render_bare Definition.render_bare, Document.render]

open QueryPlanner.Tree (HasBare BareEntries)

theorem Location.toTree_distinct (l : Location) : l.toTree.Distinct := by
  refine .array (List.forall_mem_map.2 fun n _ => .number _)

theorem nodeTree_hasBare {kind : Text} {loc : Option Location} {keys : List Text} {entries entries' : List (Text × Option Tree)}
    (nodup : (("kind" : Text) :: (keys ++ [Tree.locationKey])).Nodup) (matched : BareEntries keys entries entries') :
    (nodeTree kind loc entries).HasBare (nodeTree kind none entries') := by
  refine .ofEntries (.cons (.some (.text kind)) matched) nodup fun t present => ?_
  obtain ⟨l, -, rfl⟩ := Option.map_eq_some_iff.1 present
  exact l.toTree_distinct

theorem hasBare_option {α : Type} {toTree : α → Tree} {bare : α → α} (all : ∀ part, (toTree part).HasBare (toTree (bare part)))
    (part : Option α) : Option.Rel HasBare (part.map toTree) ((part.map bare).map toTree) := by
  cases part with
  | none => exact .none
  | some part => exact .some (all part)

theorem hasBare_list {α : Type} {toTree : α → Tree} {bare : α → α} (all : ∀ part, (toTree part).HasBare (toTree (bare part)))
    (parts : List α) : Option.Rel HasBare (listTree toTree parts) (listTree toTree (parts.map bare)) := by
  refine .some (.array ?_)
  induction parts with
  | nil => exact .nil
  | cons part rest ih => exact .cons (all part) ih

theorem Name.toTree_hasBare (n : Name) : n.toTree.HasBare n.bare.toTree :=
  nodeTree_hasBare (by decide) (.cons (.some (.text _)) .nil)

theorem Variable.toTree_hasBare (v : Variable) : v.toTree.HasBare v.bare.toTree :=
  nodeTree_hasBare (by decide) (.cons (.some v.name.toTree_hasBare) .nil)

mutual

theorem Value.toTree_hasBare : ∀ v : Value, v.toTree.HasBare v.bare.toTree
  | .var v => v.toTree_hasBare
  | .int text _ | .float text _ | .enum text _ => nodeTree_hasBare (by decide) (.cons (.some (.text text)) .nil)
  | .string text block _ =>
      nodeTree_hasBare (by decide) (.cons (.some (.text text)) (.cons (.some (.boolean block)) .nil))
  | .boolean b _ => nodeTree_hasBare (by decide) (.cons (.some (.boolean b)) .nil)
  | .null _ => nodeTree_hasBare (by decide) .nil
  | .list values _ => nodeTree_hasBare (by decide) (.cons (.some (.array (valueTrees_hasBare values))) .nil)
  | .object fields _ => nodeTree_hasBare (by decide) (.cons (.some (.array (objectFieldTrees_hasBare fields))) .nil)

theorem ObjectField.toTree_hasBare : ∀ f : ObjectField, f.toTree.HasBare f.bare.toTree
  | ⟨name, value, _⟩ =>
      nodeTree_hasBare (by decide) (.cons (.some name.toTree_hasBare) (.cons (.some value.toTree_hasBare) .nil))

theorem valueTrees_hasBare : ∀ values : List Value,
    List.Forall₂ HasBare (valueTrees values) (valueTrees (bareValues values))
  | [] => .nil
  | v :: rest => .cons v.toTree_hasBare (valueTrees_hasBare rest)

theorem objectFieldTrees_hasBare : ∀ fields : List ObjectField,
    List.Forall₂ HasBare (objectFieldTrees fields) (objectFieldTrees (bareObjectFields fields))
  | [] => .nil
  | f :: rest => .cons f.toTree_hasBare (objectFieldTrees_hasBare rest)

end

theorem Argument.toTree_hasBare (a : Argument) : a.toTree.HasBare a.bare.toTree :=
  nodeTree_hasBare (by decide) (.cons (.some a.name.toTree_hasBare) (.cons (.some a.value.toTree_hasBare) .nil))

theorem Directive.toTree_hasBare (d : Directive) : d.toTree.HasBare d.bare.toTree :=
  nodeTree_hasBare (by decide)
    (.cons (.some d.name.toTree_hasBare) (.cons (hasBare_list Argument.toTree_hasBare d.arguments) .nil))

theorem NamedType.toTree_hasBare (t : NamedType) : t.toTree.HasBare t.bare.toTree :=
  nodeTree_hasBare (by decide) (.cons (.some t.name.toTree_hasBare) .nil)

theorem TypeRef.toTree_hasBare (t : TypeRef) : t.toTree.HasBare t.bare.toTree := by
  induction t with
  | named type => exact type.toTree_hasBare
  | list _ _ ih => exact nodeTree_hasBare (by decide) (.cons (.some ih) .nil)
  | nonNull _ _ ih => exact nodeTree_hasBare (by decide) (.cons (.some ih) .nil)

mutual

theorem Modifier.toTree_hasBare : ∀ m : Modifier, m.toTree.HasBare m.bare.toTree
  | .list element _ | .required element _ | .optional element _ =>
      nodeTree_hasBare (by decide) (.cons (elementTree_hasBare element) .nil)

theorem elementTree_hasBare : ∀ element : Option Modifier,
    Option.Rel HasBare (elementTree element) (elementTree (bareElement element))
  | none => .none
  | some m => .some m.toTree_hasBare

end

theorem FragmentSpread.toTree_hasBare (s : FragmentSpread) : s.toTree.HasBare s.bare.toTree :=
  nodeTree_hasBare (by decide)
    (.cons (.some s.name.toTree_hasBare) (.cons (hasBare_list Directive.toTree_hasBare s.directives) .nil))

theorem Field.toTree_mk (responseName : Option Name) (name : Name) (arguments : List Argument) (modifier : Option Modifier)
    (directives : List Directive) (set : Option SelectionSet) (loc : Option Location) :
    Field.toTree ⟨responseName, name, arguments, modifier, directives, set, loc⟩ = nodeTree "Field" loc
      [("alias", responseName.map Name.toTree), ("name", some name.toTree), ("arguments", listTree Argument.toTree arguments),
        ("nullabilityAssertion", modifier.map Modifier.toTree), ("directives", listTree Directive.toTree directives),
        ("selectionSet", set.map SelectionSet.toTree)] := by
  cases set <;> rfl

theorem Field.hasBare_of_set (responseName : Option Name) (name : Name) (arguments : List Argument)
    (modifier : Option Modifier) (directives : List Directive) (set : Option SelectionSet) (loc : Option Location)
    (selected : ∀ s ∈ set, s.toTree.HasBare s.bare.toTree) :
    (Field.toTree ⟨responseName, name, arguments, modifier, directives, set, loc⟩).HasBare
      (Field.bare ⟨responseName, name, arguments, modifier, directives, set, loc⟩).toTree := by
  rw [Field.bare_mk, Field.toTree_mk, Field.toTree_mk]
  refine nodeTree_hasBare (by decide)
    (.cons (hasBare_option Name.toTree_hasBare responseName) (.cons (.some name.toTree_hasBare)
      (.cons (hasBare_list Argument.toTree_hasBare arguments) (.cons (hasBare_option Modifier.toTree_hasBare modifier)
        (.cons (hasBare_list Directive.toTree_hasBare directives) (.cons ?_ .nil))))))
  cases set with
  | none => exact .none
  | some set => exact .some (selected set rfl)

mutual

theorem Field.toTree_hasBare : ∀ f : Field, f.toTree.HasBare f.bare.toTree
  | ⟨responseName, name, arguments, modifier, directives, none, loc⟩ =>
      Field.hasBare_of_set responseName name arguments modifier directives none loc nofun
  | ⟨responseName, name, arguments, modifier, directives, some set, loc⟩ =>
      have selected := set.toTree_hasBare
      Field.hasBare_of_set responseName name arguments modifier directives (some set) loc fun _ same =>
        Option.some.inj same ▸ selected

theorem InlineFragment.toTree_hasBare : ∀ f : InlineFragment, f.toTree.HasBare f.bare.toTree
  | ⟨type, directives, set, _⟩ =>
      nodeTree_hasBare (by decide)
        (.cons (hasBare_option NamedType.toTree_hasBare type) (.cons (hasBare_list Directive.toTree_hasBare directives)
          (.cons (.some set.toTree_hasBare) .nil)))

theorem Selection.toTree_hasBare : ∀ s : Selection, s.toTree.HasBare s.bare.toTree
  | .field f => f.toTree_hasBare
  | .spread s => s.toTree_hasBare
  | .inline f => f.toTree_hasBare

theorem SelectionSet.toTree_hasBare : ∀ s : SelectionSet, s.toTree.HasBare s.bare.toTree
  | ⟨selections, _⟩ => nodeTree_hasBare (by decide) (.cons (.some (.array (selectionTrees_hasBare selections))) .nil)

theorem selectionTrees_hasBare : ∀ selections : List Selection,
    List.Forall₂ HasBare (selectionTrees selections) (selectionTrees (bareSelections selections))
  | [] => .nil
  | s :: rest => .cons s.toTree_hasBare (selectionTrees_hasBare rest)

end

theorem VariableDefinition.toTree_hasBare (d : VariableDefinition) : d.toTree.HasBare d.bare.toTree :=
  nodeTree_hasBare (by decide)
    (.cons (.some d.var.toTree_hasBare) (.cons (.some d.type.toTree_hasBare)
      (.cons (hasBare_option Value.toTree_hasBare d.defaultValue)
        (.cons (hasBare_list Directive.toTree_hasBare d.directives) .nil))))

theorem Operation.toTree_hasBare (o : Operation) : o.toTree.HasBare o.bare.toTree :=
  nodeTree_hasBare (by decide)
    (.cons (.some (.text o.type.text)) (.cons (hasBare_option Name.toTree_hasBare o.name)
      (.cons (hasBare_list VariableDefinition.toTree_hasBare o.variableDefinitions)
        (.cons (hasBare_list Directive.toTree_hasBare o.directives) (.cons (.some o.selectionSet.toTree_hasBare) .nil)))))

theorem Fragment.toTree_hasBare (f : Fragment) : f.toTree.HasBare f.bare.toTree := by
  have defined : Option.Rel HasBare (f.variableDefinitions.bind (listTree VariableDefinition.toTree))
      (f.bare.variableDefinitions.bind (listTree VariableDefinition.toTree)) := by
    unfold Fragment.bare
    cases f.variableDefinitions with
    | none => exact .none
    | some definitions => exact hasBare_list VariableDefinition.toTree_hasBare definitions
  exact nodeTree_hasBare (by decide)
    (.cons (.some f.name.toTree_hasBare) (.cons defined (.cons (.some f.typeCondition.toTree_hasBare)
      (.cons (hasBare_list Directive.toTree_hasBare f.directives) (.cons (.some f.selectionSet.toTree_hasBare) .nil)))))

theorem Definition.toTree_hasBare : ∀ d : Definition, d.toTree.HasBare d.bare.toTree
  | .operation o => o.toTree_hasBare
  | .fragment f => f.toTree_hasBare

theorem Document.toTree_hasBare (d : Document) : d.toTree.HasBare d.bare.toTree :=
  nodeTree_hasBare (by decide) (.cons (hasBare_list Definition.toTree_hasBare d.definitions) .nil)

end QueryPlanner
