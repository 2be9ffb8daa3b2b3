import QueryPlanner.Proofs.Document.Override
import QueryPlanner.Proofs.Plan.EncounterOrder

namespace QueryPlanner

structure PlanField.LiesOn (path : ResponsePath) (type : Text) (f : PlanField) : Prop where
  extends_path : f.path = path ++ [f.responseKey]
  on_type : f.parentType = f.typeCondition.getD type
  keyed : ∀ node ∈ f.fieldNodes, node.responseKey = f.responseKey

mutual

def ResolvePlan.SelectionsLie : ResolvePlan → Prop
  | .resolver _ => True
  | .composite _ none => True
  | .composite field (some plan) => plan.LiesOn field.path field.metadata.resultType.namedType

def FieldPlan.LiesOn (path : ResponsePath) (type : Text) : FieldPlan → Prop
  | .resolve plan => plan.field.LiesOn path type ∧ plan.SelectionsLie
  | .stream ⟨_, _, streamPath, _, _, node⟩ =>
    streamPath = node.field.path ∧ node.field.LiesOn path type ∧ node.SelectionsLie

def SelectionPlan.LiesOn (path : ResponsePath) (type : Text) : SelectionPlan → Prop
  | .parallel nodes => allLieOn path type nodes
  | .serial ordered others => allLieOn path type ordered ∧ allLieOn path type others

def allLieOn (path : ResponsePath) (type : Text) : List FieldPlan → Prop
  | [] => True
  | node :: rest => node.LiesOn path type ∧ allLieOn path type rest

end

mutual

def DeferPlan.LiesBelow (outer : ResponsePath) : DeferPlan → Prop
  | ⟨_, path, type, _, node, deferred⟩ =>
    outer <+: path ∧ (∀ plan ∈ node, plan.LiesOn path type) ∧ allLieBelow path deferred

def allLieBelow (outer : ResponsePath) : List DeferPlan → Prop
  | [] => True
  | plan :: rest => plan.LiesBelow outer ∧ allLieBelow outer rest

end

def RootPlan.LiesOn (rootType : Text) : RootPlan → Prop
  | selections plan => ∀ p ∈ plan, p.LiesOn [] rootType
  | subscription field below =>
    field.LiesOn [] rootType ∧ ∀ p ∈ below, p.LiesOn field.path field.metadata.resultType.namedType

def QueryPlan.LiesOn (rootType : Text) (plan : QueryPlan) : Prop :=
  plan.root.root.LiesOn rootType ∧ allLieBelow [] plan.deferred

theorem FieldGroup.IsPlannedAs.namedType_eq {provider : MetadataProvider} {scope : Scope} {g : FieldGroup}
    {field : PlanField} (planned : g.IsPlannedAs provider scope field) :
    field.resultType.namedType = field.metadata.resultType.namedType := by
  obtain ⟨metadata, type, -, modified, rfl⟩ := planned
  exact (TypeRef.modifiedBy_eq_some_iff.1 modified).namedType_eq

section
variable {path : ResponsePath} {type : Text}

theorem allLieOn_iff {nodes : List FieldPlan} : allLieOn path type nodes ↔ ∀ node ∈ nodes, node.LiesOn path type := by
  induction nodes with
  | nil => exact iff_of_true trivial (List.forall_mem_nil _)
  | cons node rest ih => rw [allLieOn, ih, List.forall_mem_cons]

theorem SelectionPlan.liesOn_iff {plan : Option SelectionPlan} :
    (∀ p ∈ plan, p.LiesOn path type) ↔ ∀ node ∈ nodesOf plan, node.LiesOn path type := by
  match plan with
  | none => exact iff_of_true nofun nofun
  | some (.parallel _) => simp [LiesOn, allLieOn_iff, nodesOf, nodes]
  | some (.serial ordered others) => simp [LiesOn, allLieOn_iff, nodesOf, nodes, or_imp, forall_and]

theorem SelectionPlan.liesOn_ofFields {nodes : List FieldPlan} :
    (∀ p ∈ ofFields nodes, p.LiesOn path type) ↔ ∀ node ∈ nodes, node.LiesOn path type := by
  simp only [liesOn_iff, (nodesOf_ofFields nodes).mem_iff]

theorem ResolvePlan.selectionsLie_iff {resolution : ResolvePlan} : resolution.SelectionsLie ↔
    ∀ plan ∈ resolution.selections?,
      plan.LiesOn resolution.field.path resolution.field.metadata.resultType.namedType := by
  cases resolution with
  | resolver f => simp [SelectionsLie, selections?]
  | composite f plan => cases plan <;> simp [SelectionsLie, selections?, field]

theorem ResolvePlan.liesOn_fieldPlan (resolution : ResolvePlan) (id : Nat) (here : resolution.field.LiesOn path type)
    (below : resolution.SelectionsLie) : (resolution.field.fieldPlan id resolution).LiesOn path type := by
  unfold PlanField.fieldPlan
  split
  · exact ⟨here, below⟩
  · exact ⟨rfl, here, below⟩

end

mutual

theorem Selection.flatten_path (scope : Scope) (condition : Option Text) : (s : Selection) →
    ∀ f ∈ (s.flatten scope condition).filterMap (·.deferred?), f.path = scope.path
  | .field f => by
      rw [Selection.flatten]
      split_ifs <;> simp [Flattened.deferred?]
  | .spread _ => by simp [Selection.flatten, Flattened.deferred?]
  | .inline ⟨typeCondition, directives, set, _⟩ => by
      have inner := set.flatten_path scope (narrow scope.parentType condition typeCondition)
      rw [Selection.flatten]
      split_ifs
      · simp
      · dsimp only
        split
        · exact inner
        · exact inner
        · simp [Flattened.deferred?]

theorem SelectionSet.flatten_path (scope : Scope) (condition : Option Text) : (set : SelectionSet) →
    ∀ f ∈ (set.flatten scope condition).filterMap (·.deferred?), f.path = scope.path
  | ⟨selections, _⟩ => flattenSelections_path scope condition selections

theorem flattenSelections_path (scope : Scope) (condition : Option Text) : (selections : List Selection) →
    ∀ f ∈ (flattenSelections scope condition selections).filterMap (·.deferred?), f.path = scope.path
  | [] => nofun
  | s :: rest => by
      rw [flattenSelections, List.filterMap_append, List.forall_mem_append]
      exact ⟨s.flatten_path scope condition, flattenSelections_path scope condition rest⟩

end

section
variable {provider : MetadataProvider}

theorem FieldGroup.IsPlannedAs.liesOn {scope : Scope} {sets : List SelectionSet} {g : FieldGroup} {field : PlanField}
    (member : g ∈ scope.groups sets) (planned : g.IsPlannedAs provider scope field) :
    field.LiesOn scope.path scope.parentType := by
  obtain ⟨metadata, type, -, -, rfl⟩ := planned
  exact ⟨rfl, FieldGroup.ofFields_parentType member, FieldGroup.ofFields_keyed member⟩

theorem Scope.setAside_path {scope : Scope} {sets : List SelectionSet} {f : DeferredFragment}
    (member : f ∈ scope.setAside sets) : f.path = scope.path := by
  rw [setAside, found, List.filterMap_flatMap] at member
  obtain ⟨set, -, found⟩ := List.mem_flatMap.1 member
  exact set.flatten_path scope none f found

mutual

theorem SetsCourse.liesOn {scope : Scope} {sets : List SelectionSet} {plan : Option SelectionPlan}
    {aside : List DeferredFragment} {s s' : Planning} : SetsCourse provider scope sets plan aside s s' →
      (∀ p ∈ plan, p.LiesOn scope.path scope.parentType) ∧ ∀ f ∈ aside, scope.path <+: f.path
  | .intro fields => by
      obtain ⟨lie, inside⟩ := fields.liesOn fun g member field planned => planned.liesOn member
      refine ⟨SelectionPlan.liesOn_ofFields.2 lie, List.forall_mem_append.2 ⟨fun f member => ?_, inside⟩⟩
      exact Scope.setAside_path member ▸ List.prefix_rfl

theorem FieldsCourse.liesOn {scope : Scope} {groups : List FieldGroup} {nodes : List FieldPlan}
    {aside : List DeferredFragment} {s s' : Planning} : FieldsCourse provider scope groups nodes aside s s' →
      (∀ g ∈ groups, ∀ field, g.IsPlannedAs provider scope field → field.LiesOn scope.path scope.parentType) →
        (∀ node ∈ nodes, node.LiesOn scope.path scope.parentType) ∧ ∀ f ∈ aside, scope.path <+: f.path
  | .nil => fun _ => ⟨nofun, nofun⟩
  | @FieldsCourse.leaf _ _ _ _ field _ _ _ _ _ planned _ made rest => fun lie => by
      rw [List.forall_mem_cons] at lie
      obtain ⟨others, inside⟩ := rest.liesOn lie.2
      subst made
      have here := lie.1 field planned
      exact ⟨List.forall_mem_cons.2 ⟨ResolvePlan.liesOn_fieldPlan (.resolver field) _ here trivial, others⟩, inside⟩
  | @FieldsCourse.composite _ _ _ _ field _ _ _ _ _ _ _ _ planned _ below made rest => fun lie => by
      obtain ⟨selections, insideBelow⟩ := below.liesOn
      rw [List.forall_mem_cons] at lie
      obtain ⟨others, inside⟩ := rest.liesOn lie.2
      have here := lie.1 field planned
      simp only [Scope.below, planned.namedType_eq, ← here.extends_path] at selections insideBelow
      subst made
      refine ⟨List.forall_mem_cons.2 ⟨ResolvePlan.liesOn_fieldPlan (.composite field _) _ here ?_, others⟩,
        List.forall_mem_append.2 ⟨fun f member => ?_, inside⟩⟩
      · exact ResolvePlan.selectionsLie_iff.2 selections
      · refine .trans ?_ (insideBelow f member)
        rw [here.extends_path]
        exact List.prefix_append _ _

end

theorem FragmentsCourse.lieBelow {fragments : List DeferredFragment} {plans : List DeferPlan} {s s' : Planning}
    (course : FragmentsCourse provider fragments plans s s') {outer : ResponsePath}
    (inside : ∀ f ∈ fragments, outer <+: f.path) : allLieBelow outer plans := by
  induction course generalizing outer with
  | nil => trivial
  | cons sets _ _ nested rest =>
      rw [List.forall_mem_cons] at inside
      obtain ⟨lie, within⟩ := sets.liesOn
      exact ⟨⟨inside.1, lie, nested within⟩, rest inside.2⟩

end

/-- A plan fits the response: every field, at any depth, lies on the object that it is planned for. -/
theorem plan_lies_on {operation : PreparedOperation} {provider : MetadataProvider} {plan : QueryPlan}
    (built : (operation.plan provider).1 = .ok plan) :
    ∃ rootType, provider.rootType? operation.type = some rootType ∧ plan.LiesOn rootType := by
  obtain ⟨rootType, s, known, ⟨root, top, aside, s₁, s₂, root_eq, shows, sets, fragments, -, -⟩, -⟩ :=
    operation.plan_course built
  obtain ⟨lie, inside⟩ := sets.liesOn
  refine ⟨rootType, known, ?_, fragments.lieBelow inside⟩
  rw [root_eq]
  cases root with
  | selections p =>
      obtain rfl : p = top := shows
      exact lie
  | subscription field below =>
      obtain ⟨node, rfl, rfl, rfl⟩ := shows
      obtain ⟨here, selections⟩ := SelectionPlan.liesOn_ofFields.1 lie (.resolve node) List.mem_cons_self
      exact ⟨here, ResolvePlan.selectionsLie_iff.1 selections⟩

theorem DeferredStreams.lies_on : ∃ plan, (operation.plan provider).1 = .ok plan ∧
    ∃ rootType, provider.rootType? operation.type = some rootType ∧ plan.LiesOn rootType := by
  obtain ⟨plan, made⟩ := built
  exact ⟨plan, made, plan_lies_on made⟩

end QueryPlanner
