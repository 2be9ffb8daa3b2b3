import QueryPlanner.Proofs.Plan.Follows
import QueryPlanner.Proofs.Plan.NestedFields
import Mathlib.Data.List.Perm.Basic

namespace QueryPlanner

mutual

def ResolvePlan.fields : ResolvePlan → List PlanField
  | .resolver field => [field]
  | .composite field none => [field]
  | .composite field (some plan) => field :: plan.fields

def StreamPlan.fields : StreamPlan → List PlanField
  | ⟨_, _, _, _, _, node⟩ => node.fields

def FieldPlan.fields : FieldPlan → List PlanField
  | .resolve plan => plan.fields
  | .stream plan => plan.fields

def SelectionPlan.fields : SelectionPlan → List PlanField
  | .parallel nodes => fieldsIn nodes
  | .serial ordered others => fieldsIn ordered ++ fieldsIn others

def fieldsIn : List FieldPlan → List PlanField
  | [] => []
  | node :: rest => node.fields ++ fieldsIn rest

end

def SelectionPlan.fieldsOf (plan : Option SelectionPlan) : List PlanField := plan.elim [] fields

mutual

def DeferPlan.fields : DeferPlan → List PlanField
  | ⟨_, _, _, _, node, deferred⟩ => SelectionPlan.fieldsOf node ++ deferredFields deferred

def deferredFields : List DeferPlan → List PlanField
  | [] => []
  | plan :: rest => plan.fields ++ deferredFields rest

end

def RootPlan.fields : RootPlan → List PlanField
  | selections plan => SelectionPlan.fieldsOf plan
  | subscription field below => field :: SelectionPlan.fieldsOf below

def QueryPlan.fields (plan : QueryPlan) : List PlanField := plan.root.root.fields ++ deferredFields plan.deferred

theorem fieldsIn_eq_flatMap (nodes : List FieldPlan) : fieldsIn nodes = nodes.flatMap (·.fields) := by
  induction nodes with
  | nil => rfl
  | cons node rest ih => rw [fieldsIn, ih, List.flatMap_cons]

theorem ResolvePlan.fields_eq (plan : ResolvePlan) :
    plan.fields = plan.field :: SelectionPlan.fieldsOf plan.selections? := by
  match plan with
  | .resolver _ | .composite _ none | .composite _ (some _) => rfl

theorem FieldPlan.fields_eq (node : FieldPlan) : node.fields = node.resolution.fields := by
  match node with
  | .resolve _ | .stream ⟨_, _, _, _, _, _⟩ => rfl

theorem FieldPlan.field_resolution (node : FieldPlan) : node.resolution.field = node.field := by
  cases node <;> rfl

namespace SelectionPlan

theorem fieldsOf_eq (plan : Option SelectionPlan) : fieldsOf plan = (nodesOf plan).flatMap (·.fields) := by
  match plan with
  | none => rfl
  | some (.parallel nodes) => exact fieldsIn_eq_flatMap nodes
  | some (.serial ordered others) =>
      change fieldsIn ordered ++ fieldsIn others = (ordered ++ others).flatMap (·.fields)
      rw [fieldsIn_eq_flatMap, fieldsIn_eq_flatMap, List.flatMap_append]

theorem fieldsOf_ofFields (nodes : List FieldPlan) : (fieldsOf (ofFields nodes)).Perm (nodes.flatMap (·.fields)) := by
  rw [fieldsOf_eq]
  exact (nodesOf_ofFields nodes).flatMap_right _

end SelectionPlan

theorem RootPlan.Shows.fields_eq {plan : Option SelectionPlan} {root : RootPlan} (shows : root.Shows plan) :
    root.fields = SelectionPlan.fieldsOf plan := by
  cases root with
  | selections p => exact congrArg SelectionPlan.fieldsOf shows
  | subscription field below =>
      obtain ⟨node, rfl, rfl, rfl⟩ := shows
      have single : SelectionPlan.nodesOf (SelectionPlan.ofFields [.resolve node]) = [.resolve node] :=
        List.perm_singleton.1 (SelectionPlan.nodesOf_ofFields _)
      rw [SelectionPlan.fieldsOf_eq, single, List.flatMap_singleton, FieldPlan.fields_eq]
      exact (ResolvePlan.fields_eq node).symm

def nodesAt (path : ResponsePath) (fields : List PlanField) : List Field :=
  (fields.filter (·.path = path)).flatMap (·.fieldNodes)

@[simp] theorem nodesAt_append (path : ResponsePath) (fields fields' : List PlanField) :
    nodesAt path (fields ++ fields') = nodesAt path fields ++ nodesAt path fields' := by
  simp [nodesAt]

theorem nodesAt_cons (path : ResponsePath) (f : PlanField) (fields : List PlanField) :
    nodesAt path (f :: fields) = (if f.path = path then f.fieldNodes else []) ++ nodesAt path fields := by
  by_cases here : f.path = path <;> simp [nodesAt, here]

theorem nodesAt_perm (path : ResponsePath) {fields fields' : List PlanField} (same : fields.Perm fields') :
    (nodesAt path fields).Perm (nodesAt path fields') := (same.filter _).flatMap_right _

def reachedIn (base path : ResponsePath) (sets : List SelectionSet) : List Field :=
  sets.flatMap fun set => fieldsReached base path set.nestedFields

theorem reachedIn_single (base path : ResponsePath) (set : SelectionSet) :
    reachedIn base path [set] = fieldsReached base path set.nestedFields := List.flatMap_singleton _ _

def PlanField.reached (path : ResponsePath) (f : PlanField) : List Field :=
  (if f.path = path then f.fieldNodes else []) ++ reachedIn f.path path f.sets

section
variable {base path : ResponsePath} {key : Text} {fields : List Field}

theorem flatMap_here (keyed : ∀ f ∈ fields, f.responseKey = key) :
    (fields.flatMap fun f => if base ++ [f.responseKey] = path then [f] else []) =
      if base ++ [key] = path then fields else [] := by
  induction fields with
  | nil => simp
  | cons f rest ih =>
      rw [List.forall_mem_cons] at keyed
      rw [List.flatMap_cons, ih keyed.2, keyed.1]
      split_ifs <;> rfl

theorem flatMap_below (keyed : ∀ f ∈ fields, f.responseKey = key) :
    (fields.flatMap fun f =>
      f.selectionSet.elim [] fun set => fieldsReached (base ++ [f.responseKey]) path set.nestedFields) =
        reachedIn (base ++ [key]) path (fields.filterMap (·.selectionSet)) := by
  induction fields with
  | nil => rfl
  | cons f rest ih =>
      rw [List.forall_mem_cons] at keyed
      rw [List.flatMap_cons, ih keyed.2, keyed.1, List.filterMap_cons]
      cases f.selectionSet <;> rfl

theorem reached_merged (keyed : ∀ f ∈ fields, f.responseKey = key) :
    ((if base ++ [key] = path then fields else []) ++
      reachedIn (base ++ [key]) path (fields.filterMap (·.selectionSet))).Perm (fields.flatMap (·.reached base path)) := by
  rw [← flatMap_here keyed, ← flatMap_below keyed]
  exact List.flatMap_append_perm fields _ _

end

namespace Scope

theorem reachedIn_eq (scope : Scope) (path : ResponsePath) (sets : List SelectionSet) :
    reachedIn scope.path path sets = (scope.found sets).flatMap (·.reached scope.path path) := by
  rw [found, List.flatMap_assoc]
  exact List.flatMap_congr fun set _ => set.flatten_reached scope none path

theorem reached_found (base path : ResponsePath) (found : List Flattened) :
    (((found.filterMap (·.field?)).map (·.2)).flatMap (·.reached base path) ++
      (found.filterMap (·.deferred?)).flatMap (·.reached path)).Perm (found.flatMap (·.reached base path)) := by
  induction found with
  | nil => rfl
  | cons x rest ih =>
      cases x with
      | field condition f =>
          simp only [List.filterMap_cons, Flattened.field?, Flattened.deferred?, List.map_cons, List.flatMap_cons,
            List.append_assoc]
          exact ih.append_left _
      | deferred f =>
          simp only [List.filterMap_cons, Flattened.field?, Flattened.deferred?, List.flatMap_cons]
          exact (List.perm_append_comm_assoc _ _ _).trans (ih.append_left _)
      | inlined reason => exact ih
      | spread name => exact ih

end Scope

theorem FieldGroup.ofFields_keyed {parentType : Text} {fields : List (Option Text × Field)} {g : FieldGroup}
    (member : g ∈ ofFields parentType fields) : ∀ f ∈ g.fieldNodes, f.responseKey = g.responseKey := by
  intro f node
  rw [ofFields_fieldNodes member] at node
  obtain ⟨x, kept, rfl⟩ := List.mem_map.1 node
  exact congrArg Prod.snd (of_decide_eq_true (List.mem_filter.1 kept).2)

section
variable {provider : MetadataProvider} {scope : Scope} {path : ResponsePath}

theorem FieldGroup.IsPlannedAs.reached_eq {g : FieldGroup} {field : PlanField}
    (planned : g.IsPlannedAs provider scope field) :
    field.reached path = (if scope.path ++ [g.responseKey] = path then g.fieldNodes else []) ++
      reachedIn (scope.path ++ [g.responseKey]) path (g.fieldNodes.filterMap (·.selectionSet)) := by
  obtain ⟨metadata, type, -, -, rfl⟩ := planned
  rfl

theorem FieldGroup.IsPlannedAs.path_eq {g : FieldGroup} {field : PlanField}
    (planned : g.IsPlannedAs provider scope field) : field.path = scope.path ++ [field.responseKey] := by
  obtain ⟨metadata, type, -, -, rfl⟩ := planned
  rfl

theorem planned_reached {groups : List FieldGroup} {nodes : List FieldPlan}
    (keyed : ∀ g ∈ groups, ∀ f ∈ g.fieldNodes, f.responseKey = g.responseKey)
    (planned : List.Forall₂ (fun g node => g.IsPlannedAs provider scope node.field) groups nodes) :
    (nodes.flatMap (·.field.reached path)).Perm
      ((groups.flatMap (·.fieldNodes)).flatMap (·.reached scope.path path)) := by
  induction planned with
  | nil => rfl
  | cons first rest ih =>
      rw [List.forall_mem_cons] at keyed
      rw [List.flatMap_cons, List.flatMap_cons, List.flatMap_append, first.reached_eq]
      exact (reached_merged keyed.1).append (ih keyed.2)

theorem groups_fieldNodes (scope : Scope) (sets : List SelectionSet) :
    ((scope.groups sets).flatMap (·.fieldNodes)).Perm (((scope.found sets).filterMap (·.field?)).map (·.2)) := by
  have all := FieldGroup.ofFields_select scope.parentType (fun _ => true) ((scope.found sets).filterMap (·.field?))
  rw [List.filter_true, List.filter_true] at all
  exact all

theorem reordered {nodes nodes' : List FieldPlan}
    (same : SelectionPlan.ofFields nodes = SelectionPlan.ofFields nodes') : nodes.Perm nodes' :=
  (SelectionPlan.nodesOf_ofFields nodes).symm.trans (same ▸ SelectionPlan.nodesOf_ofFields nodes')

theorem followsGroups_reached {sets : List SelectionSet} {nodes : List FieldPlan}
    (follow : followsGroups provider scope sets (SelectionPlan.ofFields nodes)) :
    (nodes.flatMap (·.field.reached path) ++ (scope.setAside sets).flatMap (·.reached path)).Perm
      (reachedIn scope.path path sets) := by
  obtain ⟨nodes', same, planned, -⟩ := follow
  have here : (nodes'.flatMap (·.field.reached path)).Perm
      ((((scope.found sets).filterMap (·.field?)).map (·.2)).flatMap (·.reached scope.path path)) :=
    (planned_reached (fun g member => FieldGroup.ofFields_keyed member) planned).trans
      ((groups_fieldNodes scope sets).flatMap_right _)
  rw [scope.reachedIn_eq]
  exact ((((reordered same).flatMap_right _).trans here).append_right _).trans (Scope.reached_found _ _ _)

def FieldPlan.IsCoherent (scope : Scope) (node : FieldPlan) : Prop :=
  node.field.path = scope.path ++ [node.field.responseKey] ∧ node.resolution.FitsSelections

theorem followsGroups_coherent {sets : List SelectionSet} {nodes : List FieldPlan}
    (follow : followsGroups provider scope sets (SelectionPlan.ofFields nodes)) :
    ∀ node ∈ nodes, node.IsCoherent scope := by
  obtain ⟨nodes', same, planned, fit⟩ := follow
  intro node member
  have member' : node ∈ nodes' := (reordered same).mem_iff.1 member
  obtain ⟨g, -, isPlanned⟩ := exists_group member' planned
  exact ⟨isPlanned.path_eq, fit node member'⟩

namespace FieldPlan.IsCoherent

variable {node : FieldPlan} {field : PlanField}

theorem leaf_fields (coherent : node.IsCoherent scope) (leaf : node.resolution = .resolver field) :
    node.fields = [node.field] ∧ node.field.sets = [] := by
  have none := coherent.2
  rw [leaf] at none
  rw [node.fields_eq, ← node.field_resolution, leaf]
  exact ⟨rfl, none⟩

theorem composite_fields {selections : Option SelectionPlan} (coherent : node.IsCoherent scope)
    (composite : node.resolution = .composite field selections) :
    node.fields = node.field :: SelectionPlan.fieldsOf selections ∧ node.field = field ∧
      (scope.below field).path = node.field.path := by
  have field_eq : node.field = field := by
    rw [← node.field_resolution, composite]
    rfl
  rw [node.fields_eq, ResolvePlan.fields_eq, composite, field_eq]
  exact ⟨rfl, rfl, field_eq ▸ coherent.1.symm⟩

end FieldPlan.IsCoherent

end

theorem append_interchange {α : Type} (a b c d : List α) : ((a ++ b) ++ (c ++ d)).Perm ((a ++ c) ++ (b ++ d)) := by
  rw [List.append_assoc, List.append_assoc]
  exact (List.perm_append_comm_assoc b c d).append_left a

namespace SelectionLaw

variable {provider : MetadataProvider}

mutual

theorem OnSets.fields_perm {scope : Scope} {sets : List SelectionSet} {plan : Option SelectionPlan}
    {aside : List DeferredFragment} (path : ResponsePath) : (followsGroups provider).OnSets scope sets plan aside →
      (nodesAt path (SelectionPlan.fieldsOf plan) ++ aside.flatMap (·.reached path)).Perm
        (reachedIn scope.path path sets)
  | @OnSets.intro _ _ _ nodes _ here fields => by
      have below := fields.fields_perm path (followsGroups_coherent here)
      have regrouped := nodesAt_perm path (SelectionPlan.fieldsOf_ofFields nodes)
      rw [List.flatMap_append]
      refine (regrouped.append List.perm_append_comm).trans ?_
      rw [← List.append_assoc]
      exact (below.append_right _).trans (followsGroups_reached here)

theorem OnFields.fields_perm {scope : Scope} {nodes : List FieldPlan} {aside : List DeferredFragment}
    (path : ResponsePath) : (followsGroups provider).OnFields scope nodes aside →
      (∀ node ∈ nodes, node.IsCoherent scope) →
        (nodesAt path (nodes.flatMap (·.fields)) ++ aside.flatMap (·.reached path)).Perm
          (nodes.flatMap (·.field.reached path))
  | .nil => fun _ => .refl _
  | .leaf leaf rest => fun coherent => by
      rw [List.forall_mem_cons] at coherent
      obtain ⟨fields, none⟩ := coherent.1.leaf_fields leaf
      rw [List.flatMap_cons, fields, nodesAt_append, List.flatMap_cons, PlanField.reached, none, List.append_assoc,
        nodesAt_cons]
      exact .append (.of_eq rfl) (rest.fields_perm path coherent.2)
  | .composite composite inner rest => fun coherent => by
      have inside := inner.fields_perm path
      have outside := rest.fields_perm path (List.forall_mem_cons.1 coherent).2
      obtain ⟨fields, rfl, located⟩ := (List.forall_mem_cons.1 coherent).1.composite_fields composite
      rw [located] at inside
      rw [List.flatMap_cons, fields, nodesAt_append, nodesAt_cons, List.flatMap_append, List.flatMap_cons,
        PlanField.reached]
      refine (append_interchange _ _ _ _).trans (.append ?_ outside)
      rw [List.append_assoc]
      exact inside.append_left _

end

mutual

theorem OnDeferred.fields_perm {f : DeferredFragment} {plan : DeferPlan} (path : ResponsePath) :
    (followsGroups provider).OnDeferred f plan → (nodesAt path plan.fields).Perm (f.reached path)
  | .intro sets nested => by
      have whole : reachedIn f.scope.path path [f.selectionSet] = f.reached path := reachedIn_single _ _ _
      rw [DeferPlan.fields, nodesAt_append, ← whole]
      exact ((nested.fields_perm path).append_left _).trans (sets.fields_perm path)

theorem OnAllDeferred.fields_perm {fragments : List DeferredFragment} {plans : List DeferPlan} (path : ResponsePath) :
    (followsGroups provider).OnAllDeferred fragments plans →
      (nodesAt path (deferredFields plans)).Perm (fragments.flatMap (·.reached path))
  | .nil => .refl _
  | .cons first rest => by
      rw [deferredFields, nodesAt_append, List.flatMap_cons]
      exact (first.fields_perm path).append (rest.fields_perm path)

end

theorem OnPlan.fields_perm {operation : PreparedOperation} {rootType : Text} {plan : QueryPlan}
    (h : (followsGroups provider).OnPlan operation rootType plan) (path : ResponsePath) :
    (nodesAt path plan.fields).Perm (operation.selectionSet.fieldsAt path) := by
  obtain ⟨top, aside, shows, sets, deferred⟩ := h
  rw [QueryPlan.fields, shows.fields_eq, nodesAt_append, SelectionSet.fieldsAt, ← reachedIn_single]
  exact ((deferred.fields_perm path).append_left _).trans (sets.fields_perm path)

end SelectionLaw

end QueryPlanner
