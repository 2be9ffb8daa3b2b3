import QueryPlanner.Proofs.Plan.PlannedFields
import Mathlib.Data.List.Flatten

namespace QueryPlanner

def PlanField.IsAmong (whole : ResponsePath → List Field) (f : PlanField) : Prop :=
  f.fieldNodes.Sublist (whole f.path) ∧ ∀ path, (reachedIn f.path path f.sets).Sublist (whole path)

def DeferredFragment.IsAmong (whole : ResponsePath → List Field) (f : DeferredFragment) : Prop :=
  ∀ path, (f.reached path).Sublist (whole path)

section
variable {base path : ResponsePath} {key : Text} {fields : List Field}

theorem here_sublist (keyed : ∀ f ∈ fields, f.responseKey = key) :
    fields.Sublist (fields.flatMap (·.reached base (base ++ [key]))) := by
  have here : (fields.flatMap fun f => if base ++ [f.responseKey] = base ++ [key] then [f] else []) = fields :=
    (flatMap_here keyed).trans (if_pos rfl)
  nth_rewrite 1 [← here]
  exact List.Sublist.flatMap_right fields fun f _ => List.sublist_append_left _ _

theorem below_sublist (keyed : ∀ f ∈ fields, f.responseKey = key) :
    (reachedIn (base ++ [key]) path (fields.filterMap (·.selectionSet))).Sublist
      (fields.flatMap (·.reached base path)) := by
  rw [← flatMap_below keyed]
  exact List.Sublist.flatMap_right fields fun f _ => List.sublist_append_right _ _

theorem found_sublist (found : List Flattened) :
    (((found.filterMap (·.field?)).map (·.2)).flatMap (·.reached base path)).Sublist
      (found.flatMap (·.reached base path)) := by
  induction found with
  | nil => exact .refl _
  | cons x rest ih =>
      cases x with
      | field condition f => exact (List.Sublist.refl _).append ih
      | deferred f => exact ih.trans (List.sublist_append_right _ _)
      | inlined reason => exact ih
      | spread name => exact ih

end

section
variable {provider : MetadataProvider} {scope : Scope} {sets : List SelectionSet} {nodes : List FieldPlan}
  {whole : ResponsePath → List Field}

theorem group_sublist {g : FieldGroup} (member : g ∈ scope.groups sets) (path : ResponsePath) :
    (g.fieldNodes.flatMap (·.reached scope.path path)).Sublist (reachedIn scope.path path sets) := by
  have among : g.fieldNodes.Sublist (((scope.found sets).filterMap (·.field?)).map (·.2)) := by
    rw [FieldGroup.ofFields_fieldNodes member]
    exact List.filter_sublist.map _
  rw [scope.reachedIn_eq]
  exact (among.flatMap _).trans (found_sublist _)

theorem followsGroups_isAmong (follow : followsGroups provider scope sets (SelectionPlan.ofFields nodes))
    (among : ∀ path, (reachedIn scope.path path sets).Sublist (whole path)) :
    ∀ node ∈ nodes, node.field.IsAmong whole := by
  obtain ⟨nodes', same, planned, -⟩ := follow
  intro node member
  obtain ⟨g, chosen, metadata, type, -, -, field⟩ := exists_group ((reordered same).mem_iff.1 member) planned
  have keyed := FieldGroup.ofFields_keyed chosen
  rw [field]
  refine ⟨?_, fun path => ?_⟩
  · exact (here_sublist keyed).trans ((group_sublist chosen _).trans (among _))
  · exact (below_sublist keyed).trans ((group_sublist chosen path).trans (among path))

theorem setAside_isAmong (among : ∀ path, (reachedIn scope.path path sets).Sublist (whole path)) :
    ∀ f ∈ scope.setAside sets, f.IsAmong whole := by
  intro f member path
  obtain ⟨x, found, aside⟩ := List.mem_filterMap.1 member
  cases x with
  | deferred fragment =>
      obtain rfl := Option.some.inj aside
      refine List.Sublist.trans ?_ (scope.reachedIn_eq path sets ▸ among path)
      have single := (List.singleton_sublist.2 found).flatMap (Flattened.reached scope.path path)
      rwa [List.flatMap_singleton] at single
  | _ => contradiction

end

namespace SelectionLaw

variable {provider : MetadataProvider} {whole : ResponsePath → List Field}

mutual

theorem OnSets.fields_ordered {scope : Scope} {sets : List SelectionSet} {plan : Option SelectionPlan}
    {aside : List DeferredFragment} : (followsGroups provider).OnSets scope sets plan aside →
      (∀ path, (reachedIn scope.path path sets).Sublist (whole path)) →
        (∀ f ∈ SelectionPlan.fieldsOf plan, f.fieldNodes.Sublist (whole f.path)) ∧ ∀ f ∈ aside, f.IsAmong whole
  | @OnSets.intro _ _ _ nodes _ here fields => fun among => by
      obtain ⟨ordered, aside⟩ := fields.fields_ordered (followsGroups_coherent here) (followsGroups_isAmong here among)
      refine ⟨fun f member => ordered f ?_, List.forall_mem_append.2 ⟨setAside_isAmong among, aside⟩⟩
      exact (SelectionPlan.fieldsOf_ofFields nodes).mem_iff.1 member

theorem OnFields.fields_ordered {scope : Scope} {nodes : List FieldPlan} {aside : List DeferredFragment} :
    (followsGroups provider).OnFields scope nodes aside → (∀ node ∈ nodes, node.IsCoherent scope) →
      (∀ node ∈ nodes, node.field.IsAmong whole) →
        (∀ f ∈ nodes.flatMap (·.fields), f.fieldNodes.Sublist (whole f.path)) ∧ ∀ f ∈ aside, f.IsAmong whole
  | .nil => fun _ _ => ⟨nofun, nofun⟩
  | .leaf leaf rest => fun coherent among => by
      rw [List.forall_mem_cons] at coherent among
      obtain ⟨ordered, aside⟩ := rest.fields_ordered coherent.2 among.2
      refine ⟨?_, aside⟩
      rw [List.flatMap_cons, (coherent.1.leaf_fields leaf).1, List.singleton_append, List.forall_mem_cons]
      exact ⟨among.1.1, ordered⟩
  | .composite composite inner rest => fun coherent among => by
      have inside := inner.fields_ordered
      rw [List.forall_mem_cons] at coherent among
      obtain ⟨ordered, aside⟩ := rest.fields_ordered coherent.2 among.2
      obtain ⟨fields, rfl, located⟩ := coherent.1.composite_fields composite
      rw [located] at inside
      obtain ⟨ordered', aside'⟩ := inside among.1.2
      refine ⟨?_, List.forall_mem_append.2 ⟨aside', aside⟩⟩
      rw [List.flatMap_cons, fields, List.cons_append, List.forall_mem_cons, List.forall_mem_append]
      exact ⟨among.1.1, ordered', ordered⟩

end

mutual

theorem OnDeferred.fields_ordered {f : DeferredFragment} {plan : DeferPlan} :
    (followsGroups provider).OnDeferred f plan → f.IsAmong whole →
      ∀ field ∈ plan.fields, field.fieldNodes.Sublist (whole field.path)
  | .intro sets nested => fun among => by
      have start (path : ResponsePath) : (reachedIn f.scope.path path [f.selectionSet]).Sublist (whole path) := by
        rw [reachedIn_single]
        exact among path
      obtain ⟨ordered, aside⟩ := sets.fields_ordered start
      rw [DeferPlan.fields, List.forall_mem_append]
      exact ⟨ordered, nested.fields_ordered aside⟩

theorem OnAllDeferred.fields_ordered {fragments : List DeferredFragment} {plans : List DeferPlan} :
    (followsGroups provider).OnAllDeferred fragments plans → (∀ f ∈ fragments, f.IsAmong whole) →
      ∀ field ∈ deferredFields plans, field.fieldNodes.Sublist (whole field.path)
  | .nil => fun _ => nofun
  | .cons first rest => fun among => by
      rw [List.forall_mem_cons] at among
      rw [deferredFields, List.forall_mem_append]
      exact ⟨first.fields_ordered among.1, rest.fields_ordered among.2⟩

end

theorem OnPlan.fields_ordered {operation : PreparedOperation} {rootType : Text} {plan : QueryPlan}
    (h : (followsGroups provider).OnPlan operation rootType plan) :
    ∀ f ∈ plan.fields, f.fieldNodes.Sublist (operation.selectionSet.fieldsAt f.path) := by
  obtain ⟨top, aside, shows, sets, deferred⟩ := h
  have start (path : ResponsePath) :
      (reachedIn (Scope.root rootType).path path [operation.selectionSet]).Sublist
        (operation.selectionSet.fieldsAt path) := by
    rw [reachedIn_single]
    exact .refl _
  obtain ⟨ordered, among⟩ := sets.fields_ordered start
  rw [QueryPlan.fields, shows.fields_eq, List.forall_mem_append]
  exact ⟨ordered, deferred.fields_ordered among⟩

end SelectionLaw

theorem plan_keeps_fields {operation : PreparedOperation} {provider : MetadataProvider} {plan : QueryPlan}
    (built : (operation.plan provider).1 = .ok plan) :
    (∀ path, (nodesAt path plan.fields).Perm (operation.selectionSet.fieldsAt path)) ∧
      ∀ f ∈ plan.fields, f.fieldNodes.Sublist (operation.selectionSet.fieldsAt f.path) := by
  obtain ⟨rootType, -, follows⟩ := operation.plan_onPlan built
  exact ⟨follows.fields_perm, follows.fields_ordered⟩

namespace NestedDeferral

def field (name : String) (directives : List Directive) (selections : List Selection) : Selection :=
  .field ⟨none, { text := name }, [], none, directives, if selections.isEmpty then none else some ⟨selections, none⟩, none⟩

def deferred (selections : List Selection) : Selection :=
  .inline ⟨none, [{ name := { text := "defer" }, arguments := [] }], ⟨selections, none⟩, none⟩

def skipped : Directive where
  name := { text := "skip" }
  arguments := [{ name := { text := "if" }, value := .boolean true none }]

/-- `{ a { b ... @defer { c } } ... @defer { a { c b @skip(if: true) } ... @defer { a { b } } } }` -/
def query : Operation where
  type := .query
  name := none
  variableDefinitions := []
  directives := []
  selectionSet := ⟨[field "a" [] [field "b" [] [], deferred [field "c" [] []]],
    deferred [field "a" [] [field "c" [] [], field "b" [skipped] []], deferred [field "a" [] [field "b" [] []]]]], none⟩

def operation : PreparedOperation := .verbatim { definitions := [.operation query] } ⟨0, query⟩

def metadata (type : Text) : FieldMetadata := ⟨.ofName type, false, true, false, true⟩

def provider : MetadataProvider :=
  .ofTables [(.query, "Query")] [("Query.a", metadata "A"), ("A.b", metadata "String"), ("A.c", metadata "String")]

theorem keeps_fields : ∃ plan, (operation.plan provider).1 = .ok plan ∧
    (∀ path, (nodesAt path plan.fields).Perm (operation.selectionSet.fieldsAt path)) ∧
      ∀ f ∈ plan.fields, f.fieldNodes.Sublist (operation.selectionSet.fieldsAt f.path) := by
  obtain ⟨plan, built⟩ := Run.exists_of_isOk (show (operation.plan provider).1.isOk = true by decide +kernel)
  exact ⟨plan, built, plan_keeps_fields built⟩

example : (operation.selectionSet.fieldsAt ["a", "b"]).length = 2 ∧
    (operation.selectionSet.fieldsAt ["a", "c"]).length = 2 := by decide

end NestedDeferral

end QueryPlanner
