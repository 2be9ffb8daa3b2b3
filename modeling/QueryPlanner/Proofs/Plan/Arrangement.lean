import QueryPlanner.Proofs.Plan.EncounterOrder

namespace QueryPlanner

inductive SelectionPlan.Arranges : List FieldPlan → List FieldPlan → Option SelectionPlan → Prop
  | nothing : Arranges [] [] none
  | sideBySide {others : List FieldPlan} : others ≠ [] → Arranges [] others (some (.parallel others))
  | inOrder {ordered : List FieldPlan} : ordered ≠ [] → Arranges ordered [] (some (.serial ordered []))
  | both {ordered others : List FieldPlan} : ordered ≠ [] → others ≠ [] →
      Arranges ordered others (some (.serial ordered others))

def PlanField.IsDescribedBy (provider : MetadataProvider) (f : PlanField) : Prop :=
  (if f.fieldName = FieldMetadata.typenameField then some .typename else provider.field? f.parentType f.fieldName) =
    some f.metadata

/-- One field plan for each condition and response key, in the order of the first field of each. -/
structure Scope.Collects (provider : MetadataProvider) (scope : Scope) (sets : List SelectionSet)
    (nodes : List FieldPlan) : Prop where
  keys : nodes.map FieldPlan.key = scope.keys sets
  fieldNodes : ∀ node ∈ nodes,
    node.field.fieldNodes = ((scope.planned sets).filter (·.key scope.parentType = node.key)).map (·.field)
  described : ∀ node ∈ nodes, node.field.IsDescribedBy provider

/--
The serial fields that are not pure and the other ones make up the plan, which is absent if there is none of either;
each field stands in the plan once.
-/
def arrangesFields (provider : MetadataProvider) : SelectionLaw := fun scope sets plan =>
  ∃ nodes, scope.Collects provider sets nodes ∧
    SelectionPlan.Arranges (nodes.filter fun node => node.field.metadata.isSerial && !node.field.metadata.isPure)
      (nodes.filter fun node => !(node.field.metadata.isSerial && !node.field.metadata.isPure)) plan ∧
    (plan = none ↔ scope.planned sets = []) ∧
    (SelectionPlan.nodesOf plan).Perm nodes ∧ (nodes.map FieldPlan.key).Nodup

theorem SelectionPlan.arranges_ofFields (nodes : List FieldPlan) :
    Arranges (nodes.filter (·.isOrdered)) (nodes.filter (!·.isOrdered)) (ofFields nodes) := by
  have parts : (nodes.filter (·.isOrdered) ++ nodes.filter (!·.isOrdered)).Perm nodes := List.filter_append_perm _ _
  unfold ofFields
  cases ordered : nodes.filter (·.isOrdered) with
  | nil =>
      rw [ordered, List.nil_append] at parts
      cases others : nodes.filter (!·.isOrdered) with
      | nil =>
          rw [others] at parts
          rw [List.nil_perm.1 parts]
          exact .nothing
      | cons other rest =>
          have some : nodes ≠ [] := fun empty => by simp [empty] at others
          rw [if_neg (by simpa using some)]
          exact .sideBySide (List.cons_ne_nil _ _)
  | cons first rest =>
      have some : nodes ≠ [] := fun empty => by simp [empty] at ordered
      rw [if_neg (by simpa using some)]
      cases others : nodes.filter (!·.isOrdered) with
      | nil => exact .inOrder (List.cons_ne_nil _ _)
      | cons other rest => exact .both (List.cons_ne_nil _ _) (List.cons_ne_nil _ _)

section
variable {provider : MetadataProvider} {scope : Scope} {sets : List SelectionSet}

theorem FieldGroup.IsPlannedAs.isDescribedBy {g : FieldGroup} {field : PlanField}
    (planned : g.IsPlannedAs provider scope field) : field.IsDescribedBy provider := by
  obtain ⟨metadata, type, known, -, rfl⟩ := planned
  exact known

theorem Scope.keys_eq_nil_iff : scope.keys sets = [] ↔ scope.planned sets = [] := by
  rw [keys, List.eq_nil_iff_forall_not_mem]
  simp only [List.mem_eraseDups, ← List.eq_nil_iff_forall_not_mem, List.map_eq_nil_iff]

theorem followsGroups_arranged {plan : Option SelectionPlan} (follow : followsGroups provider scope sets plan) :
    arrangesFields provider scope sets plan := by
  have fieldNodes := fun node => @followsGroups_fieldNodes _ _ _ _ follow node
  obtain ⟨nodes, rfl, planned, -⟩ := follow
  have once := SelectionPlan.nodesOf_ofFields nodes
  have keys : nodes.map FieldPlan.key = scope.keys sets := (keys_planned planned).trans (scope.keys_eq sets)
  refine ⟨nodes, ⟨keys, fun node member => ?_, fun node member => ?_⟩, SelectionPlan.arranges_ofFields nodes, ?_, once,
    keys ▸ scope.keys_nodup sets⟩
  · rw [fieldNodes node (once.mem_iff.2 member), Scope.planned, List.filter_filter]
    exact congrArg (List.map _) (List.filter_congr fun o _ => Bool.and_comm _ _)
  · obtain ⟨g, -, planned⟩ := exists_group member planned
    exact planned.isDescribedBy
  · rw [SelectionPlan.ofFields_eq_none_iff, ← Scope.keys_eq_nil_iff, ← keys, List.map_eq_nil_iff]

end

theorem plan_arranges_fields {operation : PreparedOperation} {provider : MetadataProvider} {plan : QueryPlan}
    (built : (operation.plan provider).1 = .ok plan) :
    ∃ rootType, provider.rootType? operation.type = some rootType ∧
      (arrangesFields provider).OnPlan operation rootType plan := by
  obtain ⟨rootType, known, follows⟩ := operation.plan_onPlan built
  exact ⟨rootType, known, follows.mono fun _ _ _ follow => followsGroups_arranged follow⟩

theorem DeferredStreams.arranges_fields : ∃ plan, (operation.plan provider).1 = .ok plan ∧
    ∃ rootType, provider.rootType? operation.type = some rootType ∧
      (arrangesFields provider).OnPlan operation rootType plan := by
  obtain ⟨plan, made⟩ := built
  exact ⟨plan, made, plan_arranges_fields made⟩

end QueryPlanner
