import QueryPlanner.Document.Definition

namespace QueryPlanner

def Name.bare (n : Name) : Name := { text := n.text }

def Variable.bare (v : Variable) : Variable := { name := v.name.bare }

mutual

def Value.bare : Value → Value
  | .var v => .var v.bare
  | .int text _ => .int text none
  | .float text _ => .float text none
  | .string text block _ => .string text block none
  | .boolean b _ => .boolean b none
  | .null _ => .null none
  | .enum text _ => .enum text none
  | .list values _ => .list (bareValues values) none
  | .object fields _ => .object (bareObjectFields fields) none

def ObjectField.bare : ObjectField → ObjectField
  | ⟨name, value, _⟩ => { name := name.bare, value := value.bare }

def bareValues : List Value → List Value
  | [] => []
  | v :: rest => v.bare :: bareValues rest

def bareObjectFields : List ObjectField → List ObjectField
  | [] => []
  | f :: rest => f.bare :: bareObjectFields rest

end

@[simp] theorem bareValues_eq_map (values : List Value) : bareValues values = values.map Value.bare := by
  induction values with
  | nil => rfl
  | cons v rest ih => rw [bareValues, ih, List.map_cons]

@[simp] theorem bareObjectFields_eq_map (fields : List ObjectField) :
    bareObjectFields fields = fields.map ObjectField.bare := by
  induction fields with
  | nil => rfl
  | cons f rest ih => rw [bareObjectFields, ih, List.map_cons]

def Argument.bare (a : Argument) : Argument := { name := a.name.bare, value := a.value.bare }

def Directive.bare (d : Directive) : Directive := { name := d.name.bare, arguments := d.arguments.map Argument.bare }

def NamedType.bare (t : NamedType) : NamedType := { name := t.name.bare }

def TypeRef.bare : TypeRef → TypeRef
  | named type => named type.bare
  | list item _ => list item.bare none
  | nonNull type _ => nonNull type.bare none

@[simp] theorem TypeRef.isNonNull_bare (type : TypeRef) : type.bare.isNonNull = type.isNonNull := by
  cases type <;> rfl

mutual

def Modifier.bare : Modifier → Modifier
  | .list element _ => .list (bareElement element) none
  | .required element _ => .required (bareElement element) none
  | .optional element _ => .optional (bareElement element) none

def bareElement : Option Modifier → Option Modifier
  | none => none
  | some modifier => some modifier.bare

end

@[simp] theorem bareElement_eq_map (element : Option Modifier) : bareElement element = element.map Modifier.bare := by
  cases element <;> rfl

def FragmentSpread.bare (s : FragmentSpread) : FragmentSpread where
  name := s.name.bare
  directives := s.directives.map Directive.bare

mutual

def Field.bare : Field → Field
  | ⟨responseName, name, arguments, modifier, directives, selectionSet, _⟩ =>
    ⟨responseName.map Name.bare, name.bare, arguments.map Argument.bare, modifier.map Modifier.bare,
      directives.map Directive.bare, match selectionSet with | none => none | some set => some set.bare, none⟩

def InlineFragment.bare : InlineFragment → InlineFragment
  | ⟨typeCondition, directives, selectionSet, _⟩ =>
    ⟨typeCondition.map NamedType.bare, directives.map Directive.bare, selectionSet.bare, none⟩

def Selection.bare : Selection → Selection
  | .field f => .field f.bare
  | .spread s => .spread s.bare
  | .inline f => .inline f.bare

def SelectionSet.bare : SelectionSet → SelectionSet
  | ⟨selections, _⟩ => ⟨bareSelections selections, none⟩

def bareSelections : List Selection → List Selection
  | [] => []
  | s :: rest => s.bare :: bareSelections rest

end

@[simp] theorem bareSelections_eq_map (selections : List Selection) :
    bareSelections selections = selections.map Selection.bare := by
  induction selections with
  | nil => rfl
  | cons s rest ih => rw [bareSelections, ih, List.map_cons]

@[simp] theorem Field.bare_mk (responseName : Option Name) (name : Name) (arguments : List Argument)
    (modifier : Option Modifier) (directives : List Directive) (set : Option SelectionSet) (loc : Option Location) :
    Field.bare ⟨responseName, name, arguments, modifier, directives, set, loc⟩ =
      ⟨responseName.map Name.bare, name.bare, arguments.map Argument.bare, modifier.map Modifier.bare,
        directives.map Directive.bare, set.map SelectionSet.bare, none⟩ := by
  cases set <;> rfl

def VariableDefinition.bare (d : VariableDefinition) : VariableDefinition where
  var := d.var.bare
  type := d.type.bare
  defaultValue := d.defaultValue.map Value.bare
  directives := d.directives.map Directive.bare

def Operation.bare (o : Operation) : Operation where
  type := o.type
  name := o.name.map Name.bare
  variableDefinitions := o.variableDefinitions.map VariableDefinition.bare
  directives := o.directives.map Directive.bare
  selectionSet := o.selectionSet.bare

def Fragment.bare (f : Fragment) : Fragment where
  name := f.name.bare
  variableDefinitions := f.variableDefinitions.map fun definitions => definitions.map VariableDefinition.bare
  typeCondition := f.typeCondition.bare
  directives := f.directives.map Directive.bare
  selectionSet := f.selectionSet.bare

def Definition.bare : Definition → Definition
  | operation o => operation o.bare
  | fragment f => fragment f.bare

def Document.bare (d : Document) : Document := { definitions := d.definitions.map Definition.bare }

def deepest (depth : α → Nat) : List α → Nat
  | [] => 0
  | part :: rest => max (depth part) (deepest depth rest)

@[simp] theorem deepest_le_iff {depth : α → Nat} {parts : List α} {n : Nat} :
    deepest depth parts ≤ n ↔ ∀ part ∈ parts, depth part ≤ n := by
  induction parts with
  | nil => simp [deepest]
  | cons part rest ih => rw [deepest, Nat.max_le, ih, List.forall_mem_cons]

mutual

def Value.depth : Value → Nat
  | .list values _ => valuesDepth values + 1
  | .object fields _ => objectFieldsDepth fields + 1
  | _ => 0

def ObjectField.depth : ObjectField → Nat
  | ⟨_, value, _⟩ => value.depth

def valuesDepth : List Value → Nat
  | [] => 0
  | v :: rest => max v.depth (valuesDepth rest)

def objectFieldsDepth : List ObjectField → Nat
  | [] => 0
  | f :: rest => max f.depth (objectFieldsDepth rest)

end

@[simp] theorem valuesDepth_eq (values : List Value) : valuesDepth values = deepest Value.depth values := by
  induction values with
  | nil => rfl
  | cons v rest ih => rw [valuesDepth, ih, deepest]

@[simp] theorem objectFieldsDepth_eq (fields : List ObjectField) :
    objectFieldsDepth fields = deepest ObjectField.depth fields := by
  induction fields with
  | nil => rfl
  | cons f rest ih => rw [objectFieldsDepth, ih, deepest]

def Argument.depth (a : Argument) : Nat := a.value.depth

def Directive.depth (d : Directive) : Nat := deepest Argument.depth d.arguments

def TypeRef.depth : TypeRef → Nat
  | named _ => 0
  | list item _ => item.depth + 1
  | nonNull type _ => type.depth

mutual

def Modifier.depth : Modifier → Nat
  | .list element _ => elementDepth element + 1
  | .required element _ => elementDepth element
  | .optional element _ => elementDepth element

def elementDepth : Option Modifier → Nat
  | none => 0
  | some modifier => modifier.depth

end

def FragmentSpread.depth (s : FragmentSpread) : Nat := deepest Directive.depth s.directives

mutual

def Field.depth : Field → Nat
  | ⟨_, _, arguments, modifier, directives, selectionSet, _⟩ =>
    max (deepest Argument.depth arguments) (max (elementDepth modifier) (max (deepest Directive.depth directives)
      (match selectionSet with | none => 0 | some set => set.depth)))

def InlineFragment.depth : InlineFragment → Nat
  | ⟨_, directives, selectionSet, _⟩ => max (deepest Directive.depth directives) selectionSet.depth

def Selection.depth : Selection → Nat
  | .field f => f.depth
  | .spread s => s.depth
  | .inline f => f.depth

def SelectionSet.depth : SelectionSet → Nat
  | ⟨selections, _⟩ => selectionsDepth selections + 1

def selectionsDepth : List Selection → Nat
  | [] => 0
  | s :: rest => max s.depth (selectionsDepth rest)

end

@[simp] theorem selectionsDepth_eq (selections : List Selection) :
    selectionsDepth selections = deepest Selection.depth selections := by
  induction selections with
  | nil => rfl
  | cons s rest ih => rw [selectionsDepth, ih, deepest]

@[simp] theorem Field.depth_mk (responseName : Option Name) (name : Name) (arguments : List Argument)
    (modifier : Option Modifier) (directives : List Directive) (set : Option SelectionSet) (loc : Option Location) :
    Field.depth ⟨responseName, name, arguments, modifier, directives, set, loc⟩ =
      max (deepest Argument.depth arguments) (max (elementDepth modifier)
        (max (deepest Directive.depth directives) ((set.map SelectionSet.depth).getD 0))) := by
  cases set <;> rfl

def VariableDefinition.depth (d : VariableDefinition) : Nat :=
  max d.type.depth (max ((d.defaultValue.map Value.depth).getD 0) (deepest Directive.depth d.directives))

def Operation.depth (o : Operation) : Nat :=
  max (deepest VariableDefinition.depth o.variableDefinitions)
    (max (deepest Directive.depth o.directives) o.selectionSet.depth)

def Fragment.depth (f : Fragment) : Nat :=
  max (deepest VariableDefinition.depth (f.variableDefinitions.getD []))
    (max (deepest Directive.depth f.directives) f.selectionSet.depth)

def Definition.depth : Definition → Nat
  | operation o => o.depth
  | fragment f => f.depth

def Document.depth (d : Document) : Nat := deepest Definition.depth d.definitions

end QueryPlanner
