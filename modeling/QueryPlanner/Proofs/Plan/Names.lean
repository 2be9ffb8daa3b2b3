import QueryPlanner.Proofs.Document.Image
import QueryPlanner.Proofs.Operation.Dependence
import QueryPlanner.Proofs.Operation.Preparation
import QueryPlanner.Proofs.Plan.Coherence
import QueryPlanner.Proofs.Plan.Headings

namespace QueryPlanner

section
variable {fragment? : Text → Option Fragment}

mutual

theorem SelectionSet.Expands.isWellFormed (fragments : ∀ name f, fragment? name = some f → f.IsWellFormed)
    {set expanded : SelectionSet} : set.Expands fragment? expanded → set.IsWellFormed → expanded.IsWellFormed
  | .intro all, wellFormed => by
      obtain ⟨filled, selections⟩ := wellFormed
      refine ⟨fun empty => filled ?_, all.areWellFormed fragments selections⟩
      subst empty
      cases all
      rfl

theorem Selection.Expands.isWellFormed (fragments : ∀ name f, fragment? name = some f → f.IsWellFormed)
    {s expanded : Selection} : s.Expands fragment? expanded → s.IsWellFormed → expanded.IsWellFormed
  | .leaf, wellFormed => wellFormed
  | .field inner, ⟨responseName, name, arguments, modifier, directives, set⟩ =>
      ⟨responseName, name, arguments, modifier, directives, inner.isWellFormed fragments set⟩
  | .inline inner, ⟨typeCondition, directives, set⟩ => ⟨typeCondition, directives, inner.isWellFormed fragments set⟩
  | .spread found inner, wellFormed => by
      have f := fragments _ _ found
      exact ⟨fun type same => Option.some.inj same ▸ f.typeCondition, wellFormed.directives,
        inner.isWellFormed fragments f.selectionSet⟩

theorem ExpandsAll.areWellFormed (fragments : ∀ name f, fragment? name = some f → f.IsWellFormed)
    {selections expanded : List Selection} : ExpandsAll fragment? selections expanded →
      areWellFormedSelections selections → areWellFormedSelections expanded
  | .nil, _ => trivial
  | .cons first rest, ⟨wellFormed, others⟩ => ⟨first.isWellFormed fragments wellFormed, rest.areWellFormed fragments others⟩

end

end

theorem Document.Selects.mem {d : Document} {wanted : Option Text} {o : Placed Operation} (selects : d.Selects wanted o) :
    o ∈ d.operations := by
  cases wanted with
  | none => exact (show d.operations = [o] from selects) ▸ List.mem_singleton_self o
  | some name => exact (List.mem_filter.1 (List.mem_of_getLast? selects)).1

structure PreparedOperation.IsWellFormed (p : PreparedOperation) : Prop where
  name : ∀ name ∈ p.name, IsNameText name
  selectionSet : p.selectionSet.IsWellFormed

theorem PreparedOperation.isWellFormed {d : Document} {wanted : Option Text} {p : PreparedOperation}
    (wellFormed : d.IsWellFormed) (prepared : d.prepare wanted = .ok p) : p.IsWellFormed := by
  obtain ⟨selects, distinct, st, inlines⟩ := Document.of_prepare prepared
  have operation : p.operation.definition.IsWellFormed := by
    have member := List.mem_map_of_mem (f := Placed.definition) selects.mem
    rw [Document.map_operations, List.mem_filterMap] at member
    obtain ⟨definition, among, same⟩ := member
    cases definition with
    | fragment => contradiction
    | operation o => exact Option.some.inj same ▸ wellFormed.definitions _ among
  have fragments (name : Text) (f : Fragment) (found : definition? d.fragments name = some f) : f.IsWellFormed :=
    wellFormed.definitions _ ((Document.definition?_eq_some_iff distinct).1 found).1
  have ends := inlineAll_ends d.fragments p.operation.definition.selectionSet
  rw [inlines] at ends
  refine ⟨fun name named => ?_, ends.1.isWellFormed fragments operation.selectionSet⟩
  obtain ⟨n, given, rfl⟩ := Option.map_eq_some_iff.1 named
  exact operation.name n given

namespace Directive

variable {directives : List Directive} {d : Directive} {name : Text}

theorem isWellFormed_of_find? (wellFormed : ∀ d ∈ directives, d.IsWellFormed false) (found : find? directives name = some d) :
    d.IsWellFormed false := wellFormed d (List.mem_of_find?_eq_some found)

theorem IsWellFormed.argument? {value : Value} (wellFormed : d.IsWellFormed false)
    (found : d.argument? name = some value) : value.IsWellFormed false := by
  obtain ⟨a, among, rfl⟩ := Option.map_eq_some_iff.1 found
  exact (wellFormed.arguments a (List.mem_of_find?_eq_some among)).value

theorem IsWellFormed.options (wellFormed : d.IsWellFormed false) :
    ∀ option ∈ PlanOption.ofDefer ((d.argument? "label").bind Value.string?) ((d.argument? "if").bind Value.varName?),
      option.IsNamed := by
  intro option member
  rw [PlanOption.ofDefer, List.mem_append, Option.mem_toList, Option.mem_toList, Option.map_eq_some_iff,
    Option.map_eq_some_iff] at member
  obtain ⟨text, given, rfl⟩ | ⟨text, given, rfl⟩ := member
  · obtain ⟨value, found, same⟩ := Option.bind_eq_some_iff.1 given
    have value_wellFormed := wellFormed.argument? found
    cases value <;> simp only [Value.string?, Option.some.injEq, reduceCtorEq] at same
    exact same ▸ value_wellFormed.1
  · obtain ⟨value, found, same⟩ := Option.bind_eq_some_iff.1 given
    have value_wellFormed := wellFormed.argument? found
    cases value <;> simp only [Value.varName?, Option.some.injEq, reduceCtorEq] at same
    exact same ▸ value_wellFormed.2

theorem IsWellFormed.initialCount (wellFormed : d.IsWellFormed false) :
    (InitialCount.ofValue (d.argument? "initialCount")).IsNamed := by
  cases found : d.argument? "initialCount" with
  | none => trivial
  | some value =>
      have value_wellFormed := wellFormed.argument? found
      cases value with
      | var v => exact value_wellFormed.2
      | _ => trivial

end Directive

structure Scope.IsNamed (scope : Scope) : Prop where
  path : ∀ key ∈ scope.path, IsNameText key
  parentType : IsNameText scope.parentType

structure DeferredFragment.IsNamed (f : DeferredFragment) : Prop where
  selectionSet : f.selectionSet.IsWellFormed
  parentType : IsNameText f.parentType
  path : ∀ key ∈ f.path, IsNameText key
  options : ∀ option ∈ PlanOption.ofDefer f.label f.condition, option.IsNamed

theorem DeferredFragment.IsNamed.scope {f : DeferredFragment} (named : f.IsNamed) : f.scope.IsNamed :=
  ⟨named.path, named.parentType⟩

def Flattened.IsNamed : Flattened → Prop
  | field condition f => (∀ type ∈ condition, IsNameText type) ∧ f.IsWellFormed
  | deferred f => f.IsNamed
  | inlined _ | spread _ => True

section
variable {scope : Scope} {condition : Option Text}

theorem narrow_named {parentType : Text} {typeCondition : Option NamedType}
    (inForce : ∀ type ∈ condition, IsNameText type) (named : ∀ type ∈ typeCondition, type.name.IsWellFormed) :
    ∀ type ∈ narrow parentType condition typeCondition, IsNameText type := by
  unfold narrow
  split
  · exact inForce
  · split_ifs
    · exact inForce
    · exact fun type same => Option.some.inj same ▸ named _ rfl

theorem getD_named (inForce : ∀ type ∈ condition, IsNameText type) {parentType : Text} (named : IsNameText parentType) :
    IsNameText (condition.getD parentType) := by
  cases condition with
  | none => exact named
  | some type => exact inForce type rfl

theorem Deferral.options_named {parentType : Text} {directives : List Directive} {label deferCondition : Option Text}
    (wellFormed : ∀ d ∈ directives, d.IsWellFormed false)
    (aside : Deferral.decide scope parentType directives = .aside label deferCondition) :
    ∀ option ∈ PlanOption.ofDefer label deferCondition, option.IsNamed := by
  unfold Deferral.decide at aside
  cases found : Directive.find? directives "defer" with
  | none => simp [found] at aside
  | some d =>
      simp only [found] at aside
      split_ifs at aside
      obtain ⟨rfl, rfl⟩ := Deferral.aside.inj aside
      exact (Directive.isWellFormed_of_find? wellFormed found).options

mutual

theorem Selection.flatten_named (inScope : scope.IsNamed) {condition : Option Text}
    (inForce : ∀ type ∈ condition, IsNameText type) : (s : Selection) → s.IsWellFormed →
      ∀ x ∈ s.flatten scope condition, x.IsNamed
  | .field f, wellFormed, x, member => by
      rw [Selection.flatten] at member
      split_ifs at member
      · contradiction
      · exact List.mem_singleton.1 member ▸ ⟨inForce, wellFormed⟩
  | .spread s, _, x, member => by
      rw [Selection.flatten] at member
      exact List.mem_singleton.1 member ▸ trivial
  | .inline ⟨typeCondition, directives, set, loc⟩, ⟨named, given, wellFormed⟩, x, member => by
      have inside : ∀ type ∈ narrow scope.parentType condition typeCondition, IsNameText type := narrow_named inForce named
      have below := set.flatten_named inScope inside wellFormed
      rw [Selection.flatten] at member
      split_ifs at member
      · contradiction
      · dsimp only at member
        split at member
        · exact below x member
        · obtain rfl | member := List.mem_cons.1 member
          · trivial
          · exact below x member
        · rename_i label deferCondition aside
          exact List.mem_singleton.1 member ▸
            ⟨wellFormed, getD_named inside inScope.parentType, inScope.path, Deferral.options_named given aside⟩

theorem SelectionSet.flatten_named (inScope : scope.IsNamed) {condition : Option Text}
    (inForce : ∀ type ∈ condition, IsNameText type) : (set : SelectionSet) → set.IsWellFormed →
      ∀ x ∈ set.flatten scope condition, x.IsNamed
  | ⟨selections, _⟩, ⟨_, wellFormed⟩ => flattenSelections_named inScope inForce selections wellFormed

theorem flattenSelections_named (inScope : scope.IsNamed) {condition : Option Text}
    (inForce : ∀ type ∈ condition, IsNameText type) : (selections : List Selection) →
      areWellFormedSelections selections → ∀ x ∈ flattenSelections scope condition selections, x.IsNamed
  | [], _, x, member => by cases member
  | s :: rest, ⟨wellFormed, others⟩, x, member => by
      obtain member | member := List.mem_append.1 member
      · exact s.flatten_named inScope inForce wellFormed x member
      · exact flattenSelections_named inScope inForce rest others x member

end

theorem Scope.found_named {sets : List SelectionSet} (inScope : scope.IsNamed)
    (wellFormed : ∀ set ∈ sets, set.IsWellFormed) : ∀ x ∈ scope.found sets, x.IsNamed := by
  intro x member
  obtain ⟨set, among, member⟩ := List.mem_flatMap.1 member
  exact set.flatten_named inScope (by simp) (wellFormed set among) x member

theorem Scope.setAside_named {sets : List SelectionSet} (inScope : scope.IsNamed)
    (wellFormed : ∀ set ∈ sets, set.IsWellFormed) : ∀ f ∈ scope.setAside sets, f.IsNamed :=
  fun _ member => Scope.found_named inScope wellFormed _ (Scope.found_of_mem_setAside member)

structure MetadataProvider.IsNamed (provider : MetadataProvider) : Prop where
  rootType : ∀ operation, ∀ type ∈ provider.rootType? operation, IsNameText type
  resultType : ∀ parentType field, ∀ metadata ∈ provider.field? parentType field, IsNameText metadata.resultType.namedType

theorem MetadataProvider.isNamed_ofTables {roots : List (OperationType × Text)} {fields : List (Text × FieldMetadata)}
    (rootTypes : ∀ root ∈ roots, IsNameText root.2)
    (resultTypes : ∀ field ∈ fields, IsNameText field.2.resultType.namedType) : (ofTables roots fields).IsNamed :=
  ⟨fun _ _ found => rootTypes _ (mem_of_lookup found), fun _ _ _ found => resultTypes _ (mem_of_lookup found)⟩

structure FieldGroup.IsNamed (g : FieldGroup) : Prop where
  responseKey : IsNameText g.responseKey
  fieldName : IsNameText g.fieldName
  parentType : IsNameText g.parentType
  fieldNodes : ∀ f ∈ g.fieldNodes, f.IsWellFormed

/-- The heading of the field, and what streams and parts of the plan below it are made from. -/
structure PlanField.IsNamed (f : PlanField) : Prop where
  heading : f.heading.IsNamed
  responseKey : IsNameText f.responseKey
  directives : ∀ d ∈ f.directives, d.IsWellFormed false
  sets : ∀ set ∈ f.sets, set.IsWellFormed

theorem Field.IsWellFormed.responseKey {f : Field} (wellFormed : f.IsWellFormed) : IsNameText f.responseKey := by
  obtain ⟨responseName, name, _, _, _, _, _⟩ := f
  rw [Field.isWellFormed_mk] at wellFormed
  cases responseName with
  | none => exact wellFormed.1.2
  | some n => exact wellFormed.1.1 n rfl

theorem Field.IsWellFormed.parts {f : Field} (wellFormed : f.IsWellFormed) :
    IsNameText f.name.text ∧ (∀ d ∈ f.directives, d.IsWellFormed false) ∧ ∀ set ∈ f.selectionSet, set.IsWellFormed := by
  obtain ⟨_, _, _, _, _, _, _⟩ := f
  rw [Field.isWellFormed_mk] at wellFormed
  exact ⟨wellFormed.1.2, wellFormed.2.2.2⟩

theorem Scope.groups_named {sets : List SelectionSet} (inScope : scope.IsNamed)
    (wellFormed : ∀ set ∈ sets, set.IsWellFormed) : ∀ g ∈ scope.groups sets, g.IsNamed := by
  intro g member
  have fieldNodes : ∀ f ∈ g.fieldNodes, f.IsWellFormed := fun f node => by
    obtain ⟨condition, found⟩ := Scope.found_of_mem_groups member node
    exact (Scope.found_named inScope wellFormed _ found).2
  obtain ⟨⟨condition, f⟩, collected, key⟩ :=
    List.mem_map.1 (FieldGroup.mem_keys_ofFields.1 (List.mem_map_of_mem member))
  obtain ⟨x, found, field⟩ := List.mem_filterMap.1 collected
  cases x <;> simp only [Flattened.field?, Option.some.injEq, reduceCtorEq, Prod.mk.injEq] at field
  obtain ⟨rfl, rfl⟩ := field
  obtain ⟨sameCondition, sameKey⟩ := Prod.mk.inj key
  have named := Scope.found_named inScope wellFormed _ found
  have first := fieldNodes g.first List.mem_cons_self
  refine ⟨sameKey ▸ named.2.responseKey, ?_, ?_, fieldNodes⟩
  · rw [FieldGroup.ofFields_named member]
    exact first.parts.1
  · rw [FieldGroup.ofFields_parentType member, ← sameCondition]
    exact getD_named named.1 inScope.parentType

variable {provider : MetadataProvider} {g : FieldGroup} {field : PlanField}

theorem TypeRef.namedType_bare (type : TypeRef) : type.bare.namedType = type.namedType := by
  induction type with
  | named => rfl
  | list _ _ ih | nonNull _ _ ih => exact ih

theorem TypeRef.bare_bare (type : TypeRef) : type.bare.bare = type.bare := by
  induction type with
  | named => rfl
  | list _ _ ih | nonNull _ _ ih => rw [bare, bare, ih]

theorem FieldGroup.metadata?_named (answers : provider.IsNamed) {metadata : FieldMetadata}
    (known : g.metadata? provider = some metadata) : IsNameText metadata.resultType.namedType := by
  unfold FieldGroup.metadata? at known
  split_ifs at known
  · obtain rfl := Option.some.inj known
    decide
  · exact answers.resultType _ _ metadata known

theorem FieldGroup.IsPlannedAs.isNamed (planned : g.IsPlannedAs provider scope field) (answers : provider.IsNamed)
    (inScope : scope.IsNamed) (named : g.IsNamed) : field.IsNamed := by
  obtain ⟨metadata, type, known, modified, rfl⟩ := planned
  have typed : IsNameText type.namedType := by
    rw [(TypeRef.modifiedBy_eq_some_iff.1 modified).namedType_eq]
    exact FieldGroup.metadata?_named answers known
  refine ⟨⟨?_, named.parentType, named.fieldName, ?_, type.bare_bare⟩, named.responseKey, ?_, ?_⟩
  · exact List.forall_mem_append.2 ⟨inScope.path, List.forall_mem_singleton.2 named.responseKey⟩
  · rw [← type.namedType_bare] at typed
    exact typed
  · intro d member
    obtain ⟨f, node, given⟩ := List.mem_flatMap.1 member
    exact (named.fieldNodes f node).parts.2.1 d given
  · intro set member
    obtain ⟨f, node, selects⟩ := List.mem_filterMap.1 member
    exact (named.fieldNodes f node).parts.2.2 set selects

theorem PlanField.IsNamed.below (named : field.IsNamed) (inScope : scope.IsNamed) : (scope.below field).IsNamed := by
  refine ⟨List.forall_mem_append.2 ⟨inScope.path, List.forall_mem_singleton.2 named.responseKey⟩, ?_⟩
  rw [Scope.below, ← field.resultType.namedType_bare]
  exact named.heading.resultType

end

mutual

def PlanOutline.IsNamed : PlanOutline → Prop
  | .node heading parts => heading.IsNamed ∧ areNamedOutlines parts

def areNamedOutlines : List PlanOutline → Prop
  | [] => True
  | part :: rest => part.IsNamed ∧ areNamedOutlines rest

end

theorem areNamedOutlines_iff {parts : List PlanOutline} : areNamedOutlines parts ↔ ∀ part ∈ parts, part.IsNamed := by
  induction parts with
  | nil => exact iff_of_true trivial (List.forall_mem_nil _)
  | cons part rest ih => rw [areNamedOutlines, ih, List.forall_mem_cons]

theorem areNamedOutlines_append {parts rest : List PlanOutline} :
    areNamedOutlines (parts ++ rest) ↔ areNamedOutlines parts ∧ areNamedOutlines rest := by
  simp only [areNamedOutlines_iff, List.forall_mem_append]

theorem areNamed_fieldOutlines {nodes : List FieldPlan} :
    areNamedOutlines (fieldOutlines nodes) ↔ ∀ node ∈ nodes, node.outline.IsNamed := by
  rw [fieldOutlines_eq_map, areNamedOutlines_iff, List.forall_mem_map]

theorem areNamed_selectionOutlines {plan : Option SelectionPlan} :
    areNamedOutlines (selectionOutlines plan) ↔ ∀ node ∈ SelectionPlan.nodesOf plan, node.outline.IsNamed := by
  match plan with
  | none => exact iff_of_true trivial (List.forall_mem_nil _)
  | some (.parallel nodes) => simp [selectionOutlines, SelectionPlan.outline, areNamedOutlines, PlanOutline.IsNamed,
      PlanHeading.IsNamed, SelectionPlan.nodesOf, SelectionPlan.nodes, areNamed_fieldOutlines]
  | some (.serial ordered []) => simp [selectionOutlines, SelectionPlan.outline, areNamedOutlines, PlanOutline.IsNamed,
      PlanHeading.IsNamed, SelectionPlan.nodesOf, SelectionPlan.nodes, areNamed_fieldOutlines]
  | some (.serial ordered (other :: others)) => simp [selectionOutlines, SelectionPlan.outline, areNamedOutlines,
      areNamedOutlines_append, PlanOutline.IsNamed, PlanHeading.IsNamed, SelectionPlan.nodesOf, SelectionPlan.nodes,
      areNamed_fieldOutlines, or_imp, forall_and]

theorem areNamed_ofFields {nodes : List FieldPlan} :
    areNamedOutlines (selectionOutlines (SelectionPlan.ofFields nodes)) ↔ ∀ node ∈ nodes, node.outline.IsNamed := by
  rw [areNamed_selectionOutlines]
  exact forall_congr' fun node => by rw [(SelectionPlan.nodesOf_ofFields nodes).mem_iff]

theorem ResolvePlan.isNamed_composite {field : PlanField} {selections : Option SelectionPlan} :
    (composite field selections).outline.IsNamed ↔
      field.heading.IsNamed ∧ areNamedOutlines (selectionOutlines selections) := by
  rw [outline_composite, PlanOutline.IsNamed, PlanHeading.IsNamed]

section
variable {provider : MetadataProvider}

theorem PlanField.IsNamed.fieldPlan {field : PlanField} (named : field.IsNamed) (id : Nat) {resolution : ResolvePlan}
    (below : resolution.outline.IsNamed) : (field.fieldPlan id resolution).outline.IsNamed := by
  unfold PlanField.fieldPlan
  cases streaming : field.streaming with
  | error reason => exact below
  | ok options =>
      refine ⟨⟨named.heading.path, ?_⟩, below, trivial⟩
      unfold PlanField.streaming at streaming
      cases found : Directive.find? field.directives "stream" with
      | none => simp [found] at streaming
      | some d =>
          simp only [found] at streaming
          split_ifs at streaming
          obtain rfl := Except.ok.inj streaming
          have wellFormed := Directive.isWellFormed_of_find? named.directives found
          exact ⟨wellFormed.initialCount, wellFormed.options⟩

mutual

theorem SetsCourse.isNamed (answers : provider.IsNamed) {scope : Scope} {sets : List SelectionSet}
    {plan : Option SelectionPlan} {aside : List DeferredFragment} {s s' : Planning} :
    SetsCourse provider scope sets plan aside s s' → scope.IsNamed → (∀ set ∈ sets, set.IsWellFormed) →
      areNamedOutlines (selectionOutlines plan) ∧ ∀ f ∈ aside, f.IsNamed
  | .intro course, inScope, wellFormed => by
      obtain ⟨nodes, others⟩ := course.isNamed answers inScope (Scope.groups_named inScope wellFormed)
      exact ⟨areNamed_ofFields.2 nodes, List.forall_mem_append.2 ⟨Scope.setAside_named inScope wellFormed, others⟩⟩

theorem FieldsCourse.isNamed (answers : provider.IsNamed) {scope : Scope} {groups : List FieldGroup}
    {nodes : List FieldPlan} {aside : List DeferredFragment} {s s' : Planning} :
    FieldsCourse provider scope groups nodes aside s s' → scope.IsNamed → (∀ g ∈ groups, g.IsNamed) →
      (∀ node ∈ nodes, node.outline.IsNamed) ∧ ∀ f ∈ aside, f.IsNamed
  | .nil, _, _ => ⟨by simp, by simp⟩
  | .leaf planned _ made rest, inScope, named => by
      rw [List.forall_mem_cons] at named
      have field := planned.isNamed answers inScope named.1
      obtain ⟨nodes, others⟩ := rest.isNamed answers inScope named.2
      exact ⟨List.forall_mem_cons.2 ⟨made ▸ field.fieldPlan _ ⟨field.heading, trivial⟩, nodes⟩, others⟩
  | .composite planned _ course made rest, inScope, named => by
      rw [List.forall_mem_cons] at named
      have field := planned.isNamed answers inScope named.1
      obtain ⟨selections, inside⟩ := course.isNamed answers (field.below inScope) field.sets
      obtain ⟨nodes, others⟩ := rest.isNamed answers inScope named.2
      have resolution := ResolvePlan.isNamed_composite.2 ⟨field.heading, selections⟩
      exact ⟨List.forall_mem_cons.2 ⟨made ▸ field.fieldPlan _ resolution, nodes⟩,
        List.forall_mem_append.2 ⟨inside, others⟩⟩

end

theorem FragmentsCourse.isNamed (answers : provider.IsNamed) {fragments : List DeferredFragment} {plans : List DeferPlan}
    {s s' : Planning} : FragmentsCourse provider fragments plans s s' → (∀ f ∈ fragments, f.IsNamed) →
      areNamedOutlines (deferOutlines plans)
  | .nil, _ => trivial
  | .cons course inner rest, named => by
      rw [List.forall_mem_cons] at named
      obtain ⟨node, aside⟩ := course.isNamed answers named.1.scope (by simpa using named.1.selectionSet)
      have nested := inner.isNamed answers aside
      exact ⟨⟨⟨named.1.path, named.1.parentType, named.1.options⟩, areNamedOutlines_append.2 ⟨node, nested⟩⟩,
        rest.isNamed answers named.2⟩

end

theorem RootPlan.Shows.areNamed {plan : Option SelectionPlan} {root : RootPlan} (shows : root.Shows plan)
    (named : areNamedOutlines (selectionOutlines plan)) : areNamedOutlines root.outlines := by
  cases root with
  | selections p => exact (show p = plan from shows) ▸ named
  | subscription field below =>
      obtain ⟨node, rfl, rfl, rfl⟩ := shows
      have node_named := areNamed_ofFields.1 named _ (List.mem_singleton_self _)
      cases node with
      | resolver field => exact ⟨⟨node_named.1, trivial⟩, trivial⟩
      | composite field selections => exact ⟨ResolvePlan.isNamed_composite.1 node_named, trivial⟩

theorem PreparedOperation.plan_isNamed {operation : PreparedOperation} {plan : QueryPlan}
    (wellFormed : operation.IsWellFormed) {provider : MetadataProvider} (answers : provider.IsNamed)
    (built : (operation.plan provider).1 = .ok plan) : areNamedOutlines plan.outline := by
  obtain ⟨rootType, s, typed, ⟨root, top, aside, s₁, s₂, shape, shows, course, fragments, -, -⟩, -⟩ :=
    operation.plan_course built
  have inScope : (Scope.root rootType).IsNamed := ⟨by simp [Scope.root], answers.rootType _ rootType typed⟩
  obtain ⟨selections, others⟩ := course.isNamed answers inScope (by simpa using wellFormed.selectionSet)
  have written : plan.root.outline = .node (.operation operation.type operation.name) root.outlines := by
    rw [shape]
    rfl
  rw [QueryPlan.outline, written]
  exact ⟨⟨wellFormed.name, shows.areNamed selections⟩, fragments.isNamed answers others⟩

end QueryPlanner
