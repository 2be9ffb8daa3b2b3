import QueryPlanner.Proofs.Plan.FieldPlans
import QueryPlanner.Proofs.Plan.OncePerType
import Mathlib.Data.List.Induction

namespace QueryPlanner

def Occurrence.key (parentType : Text) (o : Occurrence) : GroupKey := (o.recorded parentType none, o.responseKey)

def Scope.keys (scope : Scope) (sets : List SelectionSet) : List GroupKey :=
  ((scope.planned sets).map (·.key scope.parentType)).eraseDups

mutual

/-- `order` are the field plans of selection sets and below, `aside` the fragments recorded for them and below. -/
inductive EncountersSets :
    Scope → List SelectionSet → Option SelectionPlan → List FieldPlan → List DeferredFragment → Prop
  | intro {scope : Scope} {sets : List SelectionSet} {plan : Option SelectionPlan} {nodes order : List FieldPlan}
      {aside : List DeferredFragment} : nodes.Perm (SelectionPlan.nodesOf plan) →
      nodes.map FieldPlan.key = scope.keys sets → EncountersFields scope nodes order aside →
      EncountersSets scope sets plan order (scope.setAside sets ++ aside)

inductive EncountersFields : Scope → List FieldPlan → List FieldPlan → List DeferredFragment → Prop
  | nil {scope : Scope} : EncountersFields scope [] [] []
  | leaf {scope : Scope} {node : FieldPlan} {rest order : List FieldPlan} {field : PlanField}
      {aside : List DeferredFragment} : node.resolution = .resolver field → field.sets = [] →
      EncountersFields scope rest order aside → EncountersFields scope (node :: rest) (node :: order) aside
  | composite {scope : Scope} {node : FieldPlan} {rest inner order : List FieldPlan} {field : PlanField}
      {selections : Option SelectionPlan} {below aside : List DeferredFragment} :
      node.resolution = .composite field selections → field.sets ≠ [] →
      EncountersSets (scope.below field) field.sets selections inner below →
      EncountersFields scope rest order aside →
      EncountersFields scope (node :: rest) (node :: inner ++ order) (below ++ aside)

end

inductive EncountersFragments : List DeferredFragment → List DeferPlan → List FieldPlan → Prop
  | nil : EncountersFragments [] [] []
  | cons {f : DeferredFragment} {plan : DeferPlan} {rest aside : List DeferredFragment} {plans : List DeferPlan}
      {here nested order : List FieldPlan} : EncountersSets f.scope [f.selectionSet] plan.node here aside →
      EncountersFragments aside plan.deferred nested → EncountersFragments rest plans order →
      EncountersFragments (f :: rest) (plan :: plans) (here ++ nested ++ order)

/-- The field plans of a plan in encounter order: those of the root, then those of the fragments set aside. -/
def EncounterOrder (operation : PreparedOperation) (rootType : Text) (plan : QueryPlan) (order : List FieldPlan) :
    Prop :=
  ∃ top aside main later, plan.root.root.Shows top ∧
    EncountersSets (.root rootType) [operation.selectionSet] top main aside ∧
    EncountersFragments aside plan.deferred later ∧ order = main ++ later

namespace FieldGroup

theorem keys_ofFields (parentType : Text) (fields : List (Option Text × Field)) :
    (ofFields parentType fields).map key = (fields.map groupKey).eraseDups := by
  induction fields using List.reverseRecOn with
  | nil => rfl
  | append_singleton seen field ih =>
      have last : ofFields parentType (seen ++ [field]) = add parentType field.1 field.2 (ofFields parentType seen) :=
        List.foldl_concat ..
      have known : groupKey field ∈ (ofFields parentType seen).map key ↔ groupKey field ∈ seen.map groupKey := by
        rw [ih, List.mem_eraseDups]
      rw [last, List.map_append, List.map_singleton, List.eraseDups_append, ← ih]
      obtain ⟨new, added⟩ | ⟨before, g, after, split, same, added⟩ :=
        add_cases parentType field.1 field.2 (ofFields parentType seen)
      · have kept : [groupKey field].removeAll (seen.map groupKey) = [groupKey field] := by
          simpa [List.removeAll] using known.not.1 new
        rw [added, kept, List.map_append]
        rfl
      · have dropped : [groupKey field].removeAll (seen.map groupKey) = [] := by
          have member : groupKey field ∈ (ofFields parentType seen).map key :=
            split ▸ same ▸ List.mem_map_of_mem (List.mem_append_right _ List.mem_cons_self)
          simpa [List.removeAll] using known.1 member
        rw [added, dropped, split, List.map_append, List.map_append, List.map_cons, List.map_cons, key_joined]
        exact (List.append_nil _).symm

end FieldGroup

theorem Scope.keys_eq (scope : Scope) (sets : List SelectionSet) :
    (scope.groups sets).map FieldGroup.key = scope.keys sets := by
  rw [groups, FieldGroup.keys_ofFields, scope.found_fields, List.map_map]
  rfl

theorem Scope.keys_nodup (scope : Scope) (sets : List SelectionSet) : (scope.keys sets).Nodup :=
  scope.keys_eq sets ▸ (FieldGroup.collects_ofFields _ _).distinct

theorem eq_of_keys {nodes nodes' : List FieldPlan} (same : nodes.map FieldPlan.key = nodes'.map FieldPlan.key)
    (distinct : (nodes.map FieldPlan.key).Nodup) (reordered : nodes'.Perm nodes) : nodes = nodes' := by
  induction nodes generalizing nodes' with
  | nil => exact (List.perm_nil.1 reordered).symm
  | cons node rest ih =>
      cases nodes' with
      | nil => contradiction
      | cons node' rest' =>
          rw [List.map_cons, List.map_cons, List.cons.injEq] at same
          rw [List.map_cons, List.nodup_cons] at distinct
          obtain rfl | among := List.mem_cons.1 (reordered.mem_iff.1 List.mem_cons_self)
          · rw [ih same.2 distinct.2 reordered.cons_inv]
          · exact absurd (same.1 ▸ List.mem_map_of_mem among) distinct.1

mutual

theorem EncountersSets.perm {scope : Scope} {sets : List SelectionSet} {plan : Option SelectionPlan}
    {order : List FieldPlan} {aside : List DeferredFragment} : EncountersSets scope sets plan order aside →
      order.Perm (SelectionPlan.allNodesOf plan)
  | .intro perm _ fields => by
      rw [SelectionPlan.allNodesOf_eq]
      exact fields.perm.trans (perm.flatMap_right _)

theorem EncountersFields.perm {scope : Scope} {nodes order : List FieldPlan} {aside : List DeferredFragment} :
    EncountersFields scope nodes order aside → order.Perm (nodes.flatMap (·.allNodes))
  | .nil => .refl _
  | .leaf resolver _ rest => by
      rw [List.flatMap_cons, FieldPlan.allNodes_eq, resolver]
      exact rest.perm.cons _
  | .composite composite _ below rest => by
      rw [List.flatMap_cons, FieldPlan.allNodes_eq, composite]
      exact (below.perm.cons _).append rest.perm

end

theorem EncountersFragments.perm {fragments : List DeferredFragment} {plans : List DeferPlan} {order : List FieldPlan}
    (h : EncountersFragments fragments plans order) : order.Perm (deferredNodes plans) := by
  induction h with
  | nil => exact .refl _
  | cons sets _ _ nested rest =>
      rw [deferredNodes, DeferPlan.allNodes_eq]
      exact .append (sets.perm.append nested) rest

namespace EncounterOrder

variable {operation : PreparedOperation} {rootType : Text} {plan : QueryPlan} {order order' : List FieldPlan}

theorem fields_perm (h : EncounterOrder operation rootType plan order) :
    (order.map (·.field)).Perm plan.fields := by
  obtain ⟨top, aside, main, later, shows, sets, fragments, rfl⟩ := h
  rw [QueryPlan.fields, shows.fields_eq, SelectionPlan.fieldsOf_eq_nodes, deferredFields_eq_nodes, ← List.map_append]
  exact (sets.perm.append fragments.perm).map _

theorem streams_perm (h : EncounterOrder operation rootType plan order) :
    (streamsAmong order).Perm plan.streamNodes := by
  obtain ⟨top, aside, main, later, shows, sets, fragments, rfl⟩ := h
  rw [QueryPlan.streamNodes, streamsAmong_append, streamsAmong_append, shows.streams_eq]
  exact (sets.perm.filterMap _).append (fragments.perm.filterMap _)

end EncounterOrder

mutual

theorem EncountersSets.unique {scope : Scope} {sets : List SelectionSet} {plan : Option SelectionPlan}
    {order order' : List FieldPlan} {aside aside' : List DeferredFragment} :
    EncountersSets scope sets plan order aside → EncountersSets scope sets plan order' aside' →
      order = order' ∧ aside = aside'
  | .intro perm keys fields => fun
    | .intro perm' keys' fields' => by
        obtain rfl := eq_of_keys (keys.trans keys'.symm) (keys ▸ scope.keys_nodup sets) (perm'.trans perm.symm)
        obtain ⟨rfl, rfl⟩ := fields.unique fields'
        exact ⟨rfl, rfl⟩

theorem EncountersFields.unique {scope : Scope} {nodes order order' : List FieldPlan}
    {aside aside' : List DeferredFragment} :
    EncountersFields scope nodes order aside → EncountersFields scope nodes order' aside' →
      order = order' ∧ aside = aside'
  | .nil => fun
    | .nil => ⟨rfl, rfl⟩
  | .leaf resolver _ rest => fun
    | .leaf _ _ rest' => by
        obtain ⟨rfl, rfl⟩ := rest.unique rest'
        exact ⟨rfl, rfl⟩
    | .composite composite _ _ _ => nomatch resolver.symm.trans composite
  | .composite composite _ below rest => fun
    | .leaf resolver _ _ => nomatch composite.symm.trans resolver
    | .composite composite' _ below' rest' => by
        have inside (inner' : List FieldPlan) (aside' : List DeferredFragment)
            (h : EncountersSets _ _ _ inner' aside') := below.unique h
        obtain ⟨rfl, rfl⟩ := ResolvePlan.composite.inj (composite.symm.trans composite')
        obtain ⟨rfl, rfl⟩ := inside _ _ below'
        obtain ⟨rfl, rfl⟩ := rest.unique rest'
        exact ⟨rfl, rfl⟩

end

theorem EncountersFragments.unique {fragments : List DeferredFragment} {plans : List DeferPlan}
    {order order' : List FieldPlan} (h : EncountersFragments fragments plans order)
    (h' : EncountersFragments fragments plans order') : order = order' := by
  induction h generalizing order' with
  | nil =>
      cases h'
      rfl
  | cons sets _ _ nested rest =>
      obtain ⟨⟩ | ⟨sets', nested', rest'⟩ := h'
      obtain ⟨rfl, rfl⟩ := sets.unique sets'
      rw [nested nested', rest rest']

theorem EncountersFields.fits {scope : Scope} {nodes order : List FieldPlan} {aside : List DeferredFragment} :
    EncountersFields scope nodes order aside → ∀ node ∈ nodes, node.resolution.FitsSelections
  | .nil => List.forall_mem_nil _
  | .leaf resolver empty rest => List.forall_mem_cons.2 ⟨by rw [resolver]; exact empty, rest.fits⟩
  | .composite resolution selects _ rest => List.forall_mem_cons.2 ⟨by rw [resolution]; exact selects, rest.fits⟩

theorem RootPlan.Shows.unique {root : RootPlan} {top top' : Option SelectionPlan} (shows : root.Shows top)
    (shows' : root.Shows top') (fits : ∀ node ∈ SelectionPlan.nodesOf top, node.resolution.FitsSelections)
    (fits' : ∀ node ∈ SelectionPlan.nodesOf top', node.resolution.FitsSelections) : top = top' := by
  cases root with
  | selections plan => exact shows.symm.trans shows'
  | subscription field below =>
      obtain ⟨node, rfl, rfl, rfl⟩ := shows
      obtain ⟨node', rfl, field, below⟩ := shows'
      have leaf := fits (.resolve node) ((SelectionPlan.nodesOf_ofFields _).mem_iff.2 List.mem_cons_self)
      have leaf' := fits' (.resolve node') ((SelectionPlan.nodesOf_ofFields _).mem_iff.2 List.mem_cons_self)
      have same : node = node' := by
        cases node <;> cases node' <;> simp only [ResolvePlan.field, ResolvePlan.selections?] at field below <;>
          subst field
        case resolver.resolver => rfl
        case composite.composite => rw [below]
        case resolver.composite => exact absurd leaf leaf'
        case composite.resolver => exact absurd leaf' leaf
      rw [same]

theorem EncounterOrder.unique {operation : PreparedOperation} {rootType : Text} {plan : QueryPlan}
    {order order' : List FieldPlan} (h : EncounterOrder operation rootType plan order)
    (h' : EncounterOrder operation rootType plan order') : order = order' := by
  have fits {top : Option SelectionPlan} {main : List FieldPlan} {aside : List DeferredFragment}
      (sets : EncountersSets (.root rootType) [operation.selectionSet] top main aside) :
      ∀ node ∈ SelectionPlan.nodesOf top, node.resolution.FitsSelections := by
    obtain ⟨perm, -, fields⟩ := sets
    exact fun node member => fields.fits node (perm.mem_iff.2 member)
  obtain ⟨top, aside, main, later, shows, sets, fragments, rfl⟩ := h
  obtain ⟨top', aside', main', later', shows', sets', fragments', rfl⟩ := h'
  obtain rfl := shows.unique shows' (fits sets) (fits sets')
  obtain ⟨rfl, rfl⟩ := sets.unique sets'
  rw [fragments.unique fragments']

structure Planning.Notes (s s' : Planning) (order : List FieldPlan) : Prop where
  lookups : s'.lookups = s.lookups ++ order.flatMap (·.field.lookups)
  nextStream : s'.nextStream = s.nextStream + (streamsAmong order).length
  ids : (streamsAmong order).map (·.id) = List.range' s.nextStream (streamsAmong order).length
  streams : s'.streams.Perm (s.streams ++ (streamsAmong order).map fun p => (p.id, p))

namespace Planning.Notes

variable {s s₁ s' : Planning} {order order' : List FieldPlan}

theorem refl (s : Planning) : s.Notes s [] := ⟨by simp, rfl, rfl, by simp [streamsAmong]⟩

theorem trans (first : s.Notes s₁ order) (second : s₁.Notes s' order') : s.Notes s' (order ++ order') := by
  have split := streamsAmong_append order order'
  refine ⟨?_, ?_, ?_, ?_⟩
  · rw [second.lookups, first.lookups, List.append_assoc, List.flatMap_append]
  · rw [second.nextStream, first.nextStream, split, List.length_append, Nat.add_assoc]
  · rw [split, List.map_append, first.ids, second.ids, first.nextStream, List.length_append, List.range'_append_1]
  · rw [split, List.map_append, ← List.append_assoc]
    exact second.streams.trans (first.streams.append_right _)

theorem withoutDeferred (notes : s.Notes s' order) : s.Notes s'.withoutDeferred order :=
  ⟨notes.lookups, notes.nextStream, notes.ids, notes.streams⟩

theorem field {field : PlanField} {node : FieldPlan} {resolution : ResolvePlan}
    (made : node = field.fieldPlan s.nextStream resolution) (same : resolution.field = field)
    (inner : (s.entering field).Notes s₁ order) : s.Notes (s₁.leaving node) (node :: order) := by
  have lookups : (s.entering field).lookups = s.lookups ++ field.lookups := by
    unfold Planning.entering
    split <;> rfl
  have named : node.field = field := by rw [made, PlanField.field_fieldPlan, same]
  have asked : s₁.lookups = s.lookups ++ (node :: order).flatMap (·.field.lookups) := by
    rw [inner.lookups, lookups, List.flatMap_cons, named, List.append_assoc]
  cases streaming : field.streaming with
  | error reason =>
      have plain : node = .resolve resolution := by rw [made, PlanField.fieldPlan, streaming]
      simp only [Planning.entering, streaming] at inner
      subst plain
      exact ⟨asked, inner.nextStream, inner.ids, inner.streams⟩
  | ok options =>
      have numbered : node = .stream ⟨s.nextStream, options.label, field.path, options.initialCount,
          options.condition, resolution⟩ := by
        rw [made, PlanField.fieldPlan, streaming]
      simp only [Planning.entering, streaming] at inner
      subst numbered
      refine ⟨asked, ?_, ?_, ?_⟩
      · exact inner.nextStream.trans (Nat.add_right_comm _ _ _)
      · exact (congrArg (s.nextStream :: ·) inner.ids).trans List.range'_succ.symm
      · -- The stream was numbered in front of those below it, but is listed behind them.
        exact (inner.streams.append_right _).trans
          ((List.perm_append_singleton _ _).trans List.perm_middle.symm)

end Planning.Notes

section
variable {provider : MetadataProvider}

mutual

theorem SetsCourse.encounters {scope : Scope} {sets : List SelectionSet} {plan : Option SelectionPlan}
    {aside : List DeferredFragment} {s s' : Planning} : SetsCourse provider scope sets plan aside s s' →
      ∃ order, EncountersSets scope sets plan order aside ∧ s.Notes s' order
  | @SetsCourse.intro _ _ _ nodes _ _ _ fields => by
      have keys := (keys_planned fields.onFields.1).trans (scope.keys_eq sets)
      obtain ⟨order, encounters, notes⟩ := fields.encounters
      refine ⟨order, .intro (SelectionPlan.nodesOf_ofFields nodes).symm keys encounters, ?_⟩
      exact ⟨notes.lookups, notes.nextStream, notes.ids, notes.streams⟩

theorem FieldsCourse.encounters {scope : Scope} {groups : List FieldGroup} {nodes : List FieldPlan}
    {aside : List DeferredFragment} {s s' : Planning} : FieldsCourse provider scope groups nodes aside s s' →
      ∃ order, EncountersFields scope nodes order aside ∧ s.Notes s' order
  | .nil => ⟨[], .nil, .refl s⟩
  | .leaf _ leaf made rest => by
      obtain ⟨order, encounters, notes⟩ := rest.encounters
      refine ⟨_, .leaf ?_ leaf encounters, (Planning.Notes.field made rfl (.refl _)).trans notes⟩
      rw [made, PlanField.resolution_fieldPlan]
  | .composite _ selects below made rest => by
      obtain ⟨inner, encountersBelow, notesBelow⟩ := below.encounters
      obtain ⟨order, encounters, notes⟩ := rest.encounters
      refine ⟨_, .composite ?_ selects encountersBelow encounters, (Planning.Notes.field made rfl notesBelow).trans notes⟩
      rw [made, PlanField.resolution_fieldPlan]

end

theorem FragmentsCourse.encounters {fragments : List DeferredFragment} {plans : List DeferPlan} {s s' : Planning}
    (course : FragmentsCourse provider fragments plans s s') :
    ∃ order, EncountersFragments fragments plans order ∧ s.Notes s' order := by
  induction course with
  | @nil s => exact ⟨[], .nil, .refl s⟩
  | cons sets _ _ nested rest =>
      obtain ⟨here, encounters, notes⟩ := sets.encounters
      obtain ⟨inner, encountersNested, notesNested⟩ := nested
      obtain ⟨order, encountersRest, notesRest⟩ := rest
      exact ⟨_, .cons encounters encountersNested encountersRest,
        (notes.withoutDeferred.trans notesNested).trans notesRest⟩

theorem PlanCourse.encounters {operation : PreparedOperation} {rootType : Text} {plan : QueryPlan} {s' : Planning}
    (course : PlanCourse provider operation rootType plan s') :
    ∃ order, EncounterOrder operation rootType plan order ∧ Planning.Notes {} s' order := by
  obtain ⟨root, top, aside, s₁, s₂, root_eq, shows, sets, fragments, -, rfl⟩ := course
  obtain ⟨main, encounters, notes⟩ := sets.encounters
  obtain ⟨later, encountersLater, notesLater⟩ := fragments.encounters
  have whole := notes.withoutDeferred.trans notesLater
  exact ⟨_, ⟨top, aside, main, later, root_eq ▸ shows, encounters, encountersLater, rfl⟩,
    whole.lookups, whole.nextStream, whole.ids, whole.streams⟩

end

def FieldPlan.isStreamed (node : FieldPlan) : Bool := node.stream?.isSome

theorem lookups_eq (nodes : List FieldPlan) :
    nodes.flatMap (·.field.lookups) =
      ((nodes.map (·.field)).filter (·.fieldName ≠ FieldMetadata.typenameField)).map fun f =>
        (f.parentType, f.fieldName) := by
  induction nodes with
  | nil => rfl
  | cons node rest ih =>
      rw [List.flatMap_cons, ih, PlanField.lookups]
      by_cases typename : node.field.fieldName = FieldMetadata.typenameField <;> simp [typename]

theorem id_of_ids {before after : List FieldPlan} {stream : StreamPlan}
    (ids : (streamsAmong (before ++ .stream stream :: after)).map (·.id) =
      List.range' 0 (streamsAmong (before ++ .stream stream :: after)).length) :
    stream.id = before.countP (·.isStreamed) := by
  have counted : before.countP (·.isStreamed) = (streamsAmong before).length :=
    (List.length_filterMap_eq_countP ..).symm
  have split : streamsAmong (before ++ .stream stream :: after) =
      streamsAmong before ++ stream :: streamsAmong after := streamsAmong_append _ _
  have here := congrArg (·[(streamsAmong before).length]?) ids
  rw [split] at here
  simpa [counted] using here

theorem plan_in_encounter_order {operation : PreparedOperation} {provider : MetadataProvider} {plan : QueryPlan}
    (built : (operation.plan provider).1 = .ok plan) :
    ∃ rootType order, provider.rootType? operation.type = some rootType ∧
      EncounterOrder operation rootType plan order ∧
      (∀ order', EncounterOrder operation rootType plan order' → order' = order) ∧
      (order.map (·.field)).Perm plan.fields ∧
      (operation.plan provider).2.lookups =
        ((order.map (·.field)).filter (·.fieldName ≠ FieldMetadata.typenameField)).map (fun f =>
          (f.parentType, f.fieldName)) ∧
      ∀ before stream after, order = before ++ .stream stream :: after →
        stream.id = before.countP (·.isStreamed) := by
  obtain ⟨rootType, s, known, course, -, asked⟩ := operation.plan_course built
  obtain ⟨order, encounters, notes⟩ := course.encounters
  refine ⟨rootType, order, known, encounters, fun order' other => other.unique encounters, encounters.fields_perm, ?_, ?_⟩
  · rw [← lookups_eq, asked]
    exact notes.lookups
  · rintro before stream after rfl
    exact id_of_ids notes.ids

namespace DeferredStreams

def stream : Directive where
  name := { text := "stream" }
  arguments := []

def field (name : String) (directives : List Directive) (selections : List Selection) : Selection :=
  .field ⟨none, { text := name }, [], none, directives, if selections.isEmpty then none else some ⟨selections, none⟩, none⟩

def deferred (selections : List Selection) : Selection :=
  .inline ⟨none, [{ name := { text := "defer" }, arguments := [] }], ⟨selections, none⟩, none⟩

def query : Operation where
  type := .query
  name := none
  variableDefinitions := []
  directives := []
  selectionSet := ⟨[
    field "a" [stream] [field "b" [] [], deferred [field "c" [stream] [], deferred [field "b" [] []]]],
    field "s" [] [field "b" [] [], field "c" [stream] []],
    field "__typename" [] [],
    deferred [field "a" [] [field "c" [stream] []],
      deferred [field "s" [] [deferred [field "b" [] []]]]]], none⟩

def operation : PreparedOperation := .verbatim { definitions := [.operation query] } ⟨0, query⟩

def provider : MetadataProvider :=
  .ofTables [(.query, "Query")] [
    ("Query.a", ⟨.list (.ofName "A") none, false, true, true, true⟩),
    ("Query.s", ⟨.ofName "A", true, false, false, false⟩),
    ("A.b", ⟨.ofName "String", false, true, false, true⟩),
    ("A.c", ⟨.list (.ofName "String") none, false, true, true, true⟩)]

theorem built : ∃ plan, (operation.plan provider).1 = .ok plan :=
  Run.exists_of_isOk (by decide +kernel)

theorem in_encounter_order : ∃ plan, (operation.plan provider).1 = .ok plan ∧
    ∃ rootType order, provider.rootType? operation.type = some rootType ∧
      EncounterOrder operation rootType plan order ∧
      (∀ order', EncounterOrder operation rootType plan order' → order' = order) ∧
      (order.map (·.field)).Perm plan.fields ∧
      (operation.plan provider).2.lookups =
        ((order.map (·.field)).filter (·.fieldName ≠ FieldMetadata.typenameField)).map (fun f =>
          (f.parentType, f.fieldName)) ∧
      ∀ before stream after, order = before ++ .stream stream :: after →
        stream.id = before.countP (·.isStreamed) := by
  obtain ⟨plan, made⟩ := built
  exact ⟨plan, made, plan_in_encounter_order made⟩

example : (operation.plan provider).2.lookups =
    [("Query", "a"), ("A", "b"), ("Query", "s"), ("A", "b"), ("A", "c"), ("Query", "a"), ("A", "c"), ("Query", "s"),
      ("A", "b"), ("A", "c"), ("A", "b")].map fun (type, name) => (Text.ofString type, Text.ofString name) := by
  decide +kernel

end DeferredStreams

end QueryPlanner
