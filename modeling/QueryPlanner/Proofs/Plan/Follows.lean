import QueryPlanner.Proofs.Plan.Course
import QueryPlanner.Proofs.Plan.Occurrence
import Mathlib.Data.List.Forall2

namespace QueryPlanner

def ResolvePlan.FitsSelections : ResolvePlan → Prop
  | resolver field => field.sets = []
  | composite field _ => field.sets ≠ []

def followsGroups (provider : MetadataProvider) : SelectionLaw := fun scope sets plan =>
  ∃ nodes, plan = SelectionPlan.ofFields nodes ∧
    List.Forall₂ (fun g node => g.IsPlannedAs provider scope node.field) (scope.groups sets) nodes ∧
    ∀ node ∈ nodes, node.resolution.FitsSelections

namespace PlanField

variable (f : PlanField) (id : Nat) (resolution : ResolvePlan)

@[simp] theorem resolution_fieldPlan : (f.fieldPlan id resolution).resolution = resolution := by
  unfold fieldPlan
  split <;> rfl

@[simp] theorem field_fieldPlan : (f.fieldPlan id resolution).field = resolution.field := by
  unfold fieldPlan
  split <;> rfl

end PlanField

section
variable {provider : MetadataProvider}

mutual

theorem SetsCourse.onSets {scope : Scope} {sets : List SelectionSet} {plan : Option SelectionPlan}
    {aside : List DeferredFragment} {s s' : Planning} : SetsCourse provider scope sets plan aside s s' →
      (followsGroups provider).OnSets scope sets plan aside
  | .intro fields => by
      obtain ⟨planned, fit, onFields⟩ := fields.onFields
      exact .intro ⟨_, rfl, planned, fit⟩ onFields

theorem FieldsCourse.onFields {scope : Scope} {groups : List FieldGroup} {nodes : List FieldPlan}
    {aside : List DeferredFragment} {s s' : Planning} : FieldsCourse provider scope groups nodes aside s s' →
      List.Forall₂ (fun g node => g.IsPlannedAs provider scope node.field) groups nodes ∧
        (∀ node ∈ nodes, node.resolution.FitsSelections) ∧ (followsGroups provider).OnFields scope nodes aside
  | .nil => ⟨.nil, nofun, .nil⟩
  | .leaf planned leaf made rest => by
      obtain ⟨arePlanned, fit, onRest⟩ := rest.onFields
      subst made
      refine ⟨.cons ?_ arePlanned, List.forall_mem_cons.2 ⟨?_, fit⟩, .leaf (PlanField.resolution_fieldPlan ..) onRest⟩
      · rw [PlanField.field_fieldPlan]
        exact planned
      · rw [PlanField.resolution_fieldPlan]
        exact leaf
  | .composite planned selects below made rest => by
      have onBelow := below.onSets
      obtain ⟨arePlanned, fit, onRest⟩ := rest.onFields
      subst made
      refine ⟨.cons ?_ arePlanned, List.forall_mem_cons.2 ⟨?_, fit⟩,
        .composite (PlanField.resolution_fieldPlan ..) onBelow onRest⟩
      · rw [PlanField.field_fieldPlan]
        exact planned
      · rw [PlanField.resolution_fieldPlan]
        exact selects

end

theorem FragmentsCourse.onAllDeferred {fragments : List DeferredFragment} {plans : List DeferPlan} {s s' : Planning}
    (course : FragmentsCourse provider fragments plans s s') :
    (followsGroups provider).OnAllDeferred fragments plans := by
  induction course with
  | nil => exact .nil
  | cons sets _ _ nested rest => exact .cons (.intro sets.onSets nested) rest

end

theorem PreparedOperation.plan_onPlan {operation : PreparedOperation} {provider : MetadataProvider} {plan : QueryPlan}
    (h : (operation.plan provider).1 = .ok plan) :
    ∃ rootType, provider.rootType? operation.type = some rootType ∧
      (followsGroups provider).OnPlan operation rootType plan := by
  obtain ⟨rootType, s, known, ⟨root, top, aside, s₁, s₂, root_eq, shows, sets, fragments, -, -⟩, -⟩ :=
    operation.plan_course h
  exact ⟨rootType, known, top, aside, root_eq ▸ shows, sets.onSets, fragments.onAllDeferred⟩

/-- The fields that stand in selection sets on an object, with the fragments around them. -/
def occurrencesOf (sets : List SelectionSet) : List Occurrence := sets.flatMap (·.occurrences)

theorem Scope.found_fields (scope : Scope) (sets : List SelectionSet) :
    (scope.found sets).filterMap (·.field?) =
      ((occurrencesOf sets).filter (·.isPlanned scope.isDeferrable)).map fun o =>
        (o.recorded scope.parentType none, o.field) := by
  induction sets with
  | nil => rfl
  | cons set rest ih =>
      simp only [found, occurrencesOf, List.flatMap_cons, List.filterMap_append, List.filter_append,
        List.map_append] at ih ⊢
      rw [ih, set.flatten_fields scope none]

def FieldPlan.key (node : FieldPlan) : GroupKey := (node.field.typeCondition, node.field.responseKey)

section
variable {provider : MetadataProvider} {scope : Scope} {groups : List FieldGroup} {nodes : List FieldPlan}

theorem FieldGroup.IsPlannedAs.key_eq {g : FieldGroup} {node : FieldPlan}
    (planned : g.IsPlannedAs provider scope node.field) : node.key = g.key := by
  obtain ⟨metadata, type, -, -, field⟩ := planned
  rw [FieldPlan.key, field]
  rfl

theorem FieldGroup.IsPlannedAs.fieldNodes_eq {g : FieldGroup} {field : PlanField}
    (planned : g.IsPlannedAs provider scope field) : field.fieldNodes = g.fieldNodes := by
  obtain ⟨metadata, type, -, -, rfl⟩ := planned
  rfl

theorem select_planned (wanted : GroupKey → Bool)
    (planned : List.Forall₂ (fun g node => g.IsPlannedAs provider scope node.field) groups nodes) :
    (nodes.filter (wanted ·.key)).flatMap (·.field.fieldNodes) =
      (groups.filter (wanted ·.key)).flatMap (·.fieldNodes) := by
  induction planned with
  | nil => rfl
  | cons first rest ih =>
      rw [List.filter_cons, List.filter_cons, first.key_eq]
      split_ifs
      · rw [List.flatMap_cons, List.flatMap_cons, ih, first.fieldNodes_eq]
      · exact ih

theorem exists_group {node : FieldPlan} (member : node ∈ nodes)
    (planned : List.Forall₂ (fun g node => g.IsPlannedAs provider scope node.field) groups nodes) :
    ∃ g ∈ groups, g.IsPlannedAs provider scope node.field := by
  induction planned with
  | nil => contradiction
  | @cons g other _ _ first rest ih =>
      rcases List.mem_cons.1 member with rfl | member
      · exact ⟨g, List.mem_cons_self, first⟩
      · obtain ⟨h, chosen, planned⟩ := ih member
        exact ⟨h, List.mem_cons_of_mem g chosen, planned⟩

theorem keys_planned
    (planned : List.Forall₂ (fun g node => g.IsPlannedAs provider scope node.field) groups nodes) :
    nodes.map FieldPlan.key = groups.map FieldGroup.key := by
  induction planned with
  | nil => rfl
  | cons first rest ih => rw [List.map_cons, List.map_cons, first.key_eq, ih]

theorem followsGroups_keys {sets : List SelectionSet} {plan : Option SelectionPlan}
    (follow : followsGroups provider scope sets plan) :
    ((SelectionPlan.nodesOf plan).map FieldPlan.key).Perm ((scope.groups sets).map FieldGroup.key) := by
  obtain ⟨nodes, rfl, planned, -⟩ := follow
  exact ((SelectionPlan.nodesOf_ofFields nodes).map _).trans (.of_eq (keys_planned planned))

theorem followsGroups_parentType {sets : List SelectionSet} {plan : Option SelectionPlan}
    (follow : followsGroups provider scope sets plan) {node : FieldPlan} (member : node ∈ SelectionPlan.nodesOf plan) :
    node.field.parentType = node.field.typeCondition.getD scope.parentType := by
  obtain ⟨nodes, rfl, planned, -⟩ := follow
  obtain ⟨g, chosen, metadata, type, -, -, field⟩ :=
    exists_group ((SelectionPlan.nodesOf_ofFields nodes).mem_iff.1 member) planned
  rw [field]
  exact FieldGroup.ofFields_parentType chosen

theorem followsGroups_select {sets : List SelectionSet} {plan : Option SelectionPlan}
    (follow : followsGroups provider scope sets plan) (wanted : GroupKey → Bool) :
    (((SelectionPlan.nodesOf plan).filter (wanted ·.key)).flatMap (·.field.fieldNodes)).Perm
      (((occurrencesOf sets).filter fun o =>
        o.isPlanned scope.isDeferrable && wanted (o.recorded scope.parentType none, o.responseKey)).map (·.field)) := by
  obtain ⟨nodes, rfl, planned, -⟩ := follow
  refine (((SelectionPlan.nodesOf_ofFields nodes).filter _).flatMap_right _).trans ?_
  rw [select_planned wanted planned]
  refine (FieldGroup.ofFields_select scope.parentType wanted _).trans (.of_eq ?_)
  rw [scope.found_fields, List.filter_map, List.map_map, List.filter_filter]
  exact congrArg (List.map _) (List.filter_congr fun o _ => Bool.and_comm _ _)

theorem followsGroups_fieldNodes {sets : List SelectionSet} {plan : Option SelectionPlan}
    (follow : followsGroups provider scope sets plan) {node : FieldPlan} (member : node ∈ SelectionPlan.nodesOf plan) :
    node.field.fieldNodes = ((occurrencesOf sets).filter fun o =>
      o.isPlanned scope.isDeferrable && decide ((o.recorded scope.parentType none, o.responseKey) = node.key)).map
        (·.field) := by
  obtain ⟨nodes, rfl, planned, -⟩ := follow
  obtain ⟨g, chosen, planned⟩ := exists_group ((SelectionPlan.nodesOf_ofFields nodes).mem_iff.1 member) planned
  rw [planned.fieldNodes_eq, planned.key_eq, FieldGroup.ofFields_fieldNodes chosen, scope.found_fields,
    List.filter_map, List.map_map, List.filter_filter]
  exact congrArg (List.map _) (List.filter_congr fun o _ => Bool.and_comm _ _)

end

end QueryPlanner
