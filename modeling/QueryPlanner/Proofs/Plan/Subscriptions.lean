import QueryPlanner.Proofs.Plan.Buildable
import QueryPlanner.Proofs.Plan.Coherence

namespace QueryPlanner

open Run

mutual

def DeferPlan.withNested : DeferPlan → List DeferPlan
  | ⟨label, path, parentType, condition, node, deferred⟩ =>
    ⟨label, path, parentType, condition, node, deferred⟩ :: deferredWithNested deferred

def deferredWithNested : List DeferPlan → List DeferPlan
  | [] => []
  | plan :: rest => plan.withNested ++ deferredWithNested rest

end

structure FieldPlan.IsBelow (path : ResponsePath) (node : FieldPlan) : Prop where
  within : path <+: node.field.path
  deeper : path.length < node.field.path.length
  streamed : ∀ stream ∈ node.stream?, stream.path = node.field.path

section
variable {path outer : ResponsePath} {type : Text}

theorem FieldPlan.IsBelow.mono {node : FieldPlan} (below : node.IsBelow path) (inside : outer <+: path) :
    node.IsBelow outer :=
  ⟨inside.trans below.within, inside.length_le.trans_lt below.deeper, below.streamed⟩

theorem PlanField.LiesOn.isBelow {node : FieldPlan} (lies : node.field.LiesOn path type)
    (streamed : ∀ stream ∈ node.stream?, stream.path = node.field.path) : node.IsBelow path := by
  refine ⟨?_, ?_, streamed⟩
  · rw [lies.extends_path]
    exact List.prefix_append _ _
  · rw [lies.extends_path, List.length_append]
    exact Nat.lt_succ_self _

theorem PlanField.LiesOn.within {field : PlanField} (lies : field.LiesOn path type) : path <+: field.path := by
  rw [lies.extends_path]
  exact List.prefix_append _ _

mutual

theorem ResolvePlan.nodesBelow_isBelow : (plan : ResolvePlan) → plan.SelectionsLie →
    ∀ node ∈ plan.nodesBelow, node.IsBelow plan.field.path
  | .resolver _ | .composite _ none => fun _ => nofun
  | .composite _ (some plan) => plan.allNodes_isBelow

theorem FieldPlan.allNodes_isBelow {path : ResponsePath} {type : Text} : (node : FieldPlan) →
    node.LiesOn path type → ∀ inner ∈ node.allNodes, inner.IsBelow path
  | .resolve plan => fun ⟨here, below⟩ => by
      have inside := plan.nodesBelow_isBelow below
      exact List.forall_mem_cons.2 ⟨PlanField.LiesOn.isBelow here nofun, fun inner member =>
        (inside inner member).mono here.within⟩
  | .stream ⟨_, _, _, _, _, node⟩ => fun ⟨told, here, below⟩ => by
      have inside := node.nodesBelow_isBelow below
      refine List.forall_mem_cons.2 ⟨PlanField.LiesOn.isBelow here ?_, fun inner member =>
        (inside inner member).mono here.within⟩
      rintro _ ⟨⟩
      exact told

theorem SelectionPlan.allNodes_isBelow {path : ResponsePath} {type : Text} : (plan : SelectionPlan) →
    plan.LiesOn path type → ∀ node ∈ plan.allNodes, node.IsBelow path
  | .parallel nodes => allNodesIn_isBelow nodes
  | .serial ordered others => fun ⟨first, second⟩ =>
      List.forall_mem_append.2 ⟨allNodesIn_isBelow ordered first, allNodesIn_isBelow others second⟩

theorem allNodesIn_isBelow {path : ResponsePath} {type : Text} : (nodes : List FieldPlan) →
    allLieOn path type nodes → ∀ node ∈ allNodesIn nodes, node.IsBelow path
  | [] => fun _ => nofun
  | node :: rest => fun ⟨here, others⟩ =>
      List.forall_mem_append.2 ⟨node.allNodes_isBelow here, allNodesIn_isBelow rest others⟩

end

theorem SelectionPlan.allNodesOf_isBelow {plan : Option SelectionPlan} (lies : ∀ p ∈ plan, p.LiesOn path type) :
    ∀ node ∈ allNodesOf plan, node.IsBelow path := by
  cases plan with
  | none => nofun
  | some plan => exact plan.allNodes_isBelow (lies plan rfl)

mutual

theorem DeferPlan.LiesBelow.inside {outer : ResponsePath} : {plan : DeferPlan} → plan.LiesBelow outer →
    (∀ d ∈ plan.withNested, outer <+: d.path) ∧ ∀ node ∈ plan.allNodes, node.IsBelow outer
  | ⟨_, _, _, _, _, _⟩ => fun ⟨within, lies, below⟩ => by
      obtain ⟨paths, nodes⟩ := allLieBelow_inside below
      refine ⟨List.forall_mem_cons.2 ⟨within, fun d member => within.trans (paths d member)⟩,
        List.forall_mem_append.2 ⟨fun node member => ?_, fun node member => (nodes node member).mono within⟩⟩
      exact (SelectionPlan.allNodesOf_isBelow lies node member).mono within

theorem allLieBelow_inside {outer : ResponsePath} : {plans : List DeferPlan} → allLieBelow outer plans →
    (∀ d ∈ deferredWithNested plans, outer <+: d.path) ∧ ∀ node ∈ deferredNodes plans, node.IsBelow outer
  | [] => fun _ => ⟨nofun, nofun⟩
  | _ :: _ => fun ⟨here, others⟩ => by
      obtain ⟨paths, nodes⟩ := here.inside
      obtain ⟨paths', nodes'⟩ := allLieBelow_inside others
      exact ⟨List.forall_mem_append.2 ⟨paths, paths'⟩, List.forall_mem_append.2 ⟨nodes, nodes'⟩⟩

end

end

def PlanFailure.IsRefusal (failure : PlanFailure) : Prop :=
  ∃ message whereabouts, failure = .reported ⟨.subscriptionSelection message, whereabouts⟩

namespace Planner

variable {α β : Type} {provider : MetadataProvider} {position : Position}

def NeverRefuses (p : Planner α) : Prop := ∀ s failure s', p s = .error failure s' → ¬ failure.IsRefusal

namespace NeverRefuses

theorem pure (a : α) : NeverRefuses (Pure.pure a : Planner α) := fun _ _ _ => nofun

theorem of_returns {p : Planner α} (returns : ∀ s, ∃ a s', p s = .ok a s') : NeverRefuses p := by
  intro s failure s' failed
  obtain ⟨a, s₁, run⟩ := returns s
  rw [run] at failed
  contradiction

theorem bind {p : Planner α} {f : α → Planner β} (first : NeverRefuses p) (next : ∀ a, NeverRefuses (f a)) :
    NeverRefuses (p >>= f) := by
  intro s failure s' failed
  obtain here | ⟨a, s₁, -, later⟩ := bind_error.1 failed
  · exact first s failure s' here
  · exact next a s₁ failure s' later

theorem mapM {f : α → Planner β} (each : ∀ a, NeverRefuses (f a)) (items : List α) : NeverRefuses (items.mapM f) := by
  induction items with
  | nil => exact pure []
  | cons a items ih =>
      rw [List.mapM_cons]
      exact (each a).bind fun _ => ih.bind fun _ => pure _

theorem fail {cause : Cause} {whereabouts : Whereabouts} (other : ∀ message, cause ≠ .subscriptionSelection message) :
    NeverRefuses (Planner.fail cause whereabouts : Planner α) := by
  rintro s failure s' ⟨⟩ ⟨message, whereabouts', same⟩
  exact other message (congrArg Diagnostic.cause (PlanFailure.reported.inj same))

theorem broken (invariant : BrokenInvariant) : NeverRefuses (throw (.broken invariant) : Planner α) := by
  rintro s failure s' ⟨⟩ ⟨message, whereabouts, same⟩
  contradiction

end NeverRefuses

theorem collect_neverRefuses (parentType : Text) (sets : List SelectionSet) :
    NeverRefuses (collect position parentType sets) := by
  refine NeverRefuses.bind (NeverRefuses.bind (.of_returns fun s => ⟨_, _, rfl⟩) fun _ => ?_) fun _ => .pure _
  split
  · exact .broken _
  · exact .pure _

theorem fieldPlan_neverRefuses {below : Below}
    (inner : ∀ position parentType sets, NeverRefuses (below position parentType sets)) (g : FieldGroup) :
    NeverRefuses (fieldPlan provider below position g) := by
  have known (path : ResponsePath) : NeverRefuses (metadata provider g path) := by
    unfold metadata
    split
    · exact .pure _
    · refine NeverRefuses.bind (.of_returns fun s => ⟨_, _, rfl⟩) fun found => ?_
      cases found with
      | none => exact .fail fun _ => nofun
      | some => exact .pure _
  have typed (declared : TypeRef) (path : ResponsePath) : NeverRefuses (resultType g declared path) := by
    unfold resultType
    cases declared.modifiedBy g.first.modifier with
    | some => exact .pure _
    | none =>
        cases g.first.modifier with
        | none => exact .broken _
        | some => exact .fail fun _ => nofun
  have resolved (field : PlanField) : NeverRefuses (resolvePlan below position field) := by
    unfold resolvePlan
    split
    · exact .pure _
    · exact (inner _ _ _).bind fun _ => .pure _
  refine NeverRefuses.bind ((known _).bind fun _ => (typed _ _).bind fun _ => .pure _) fun field => ?_
  cases field.streaming with
  | error reason =>
      refine NeverRefuses.bind (.of_returns fun s => ?_) fun _ => (resolved field).bind fun _ => .pure _
      obtain ⟨s', run, -⟩ := report_returns reason s
      exact ⟨_, s', run⟩
  | ok options =>
      refine NeverRefuses.bind (.of_returns fun s => ⟨_, _, rfl⟩) fun id => (resolved field).bind fun node => ?_
      exact .of_returns fun s => ⟨_, _, rfl⟩

theorem selectionPlan_neverRefuses (height : Nat) (position : Position) (parentType : Text) (sets : List SelectionSet) :
    NeverRefuses (selectionPlan provider height position parentType sets) := by
  induction height generalizing position parentType sets with
  | zero => exact .pure none
  | succ height ih =>
      refine (collect_neverRefuses parentType sets).bind fun groups => ?_
      exact (NeverRefuses.mapM (fieldPlan_neverRefuses ih) groups).bind fun _ => .pure _

theorem deferPlan_neverRefuses (depth : Nat) (f : DeferredFragment) : NeverRefuses (deferPlan provider depth f) := by
  induction depth generalizing f with
  | zero => exact .pure _
  | succ depth ih =>
      refine (selectionPlan_neverRefuses _ _ _ _).bind fun node => ?_
      exact NeverRefuses.bind (.of_returns fun s => ⟨_, _, takeDeferred_eq s⟩) fun aside =>
        (NeverRefuses.mapM ih aside).bind fun _ => .pure _

section
variable {operation : PreparedOperation} {rootType : Text} (provider : MetadataProvider)
  (replaced : operation.selectionSet.spreads = [])

include replaced

theorem collect_root : collect {} rootType [operation.selectionSet] {} =
    .ok ((Scope.root rootType).groups [operation.selectionSet])
      (({} : Planning).noting ((Scope.root rootType).found [operation.selectionSet])) :=
  collect_of_replaced (List.forall_mem_singleton.2 ⟨Nat.le_refl _, replaced⟩)

omit replaced in
theorem deferred_root (operation : PreparedOperation) (rootType : Text) :
    (({} : Planning).noting ((Scope.root rootType).found [operation.selectionSet])).deferred =
      (Scope.root rootType).setAside [operation.selectionSet] := rfl

theorem subscriptionPlan_refuses (several : (Scope.root rootType).setAside [operation.selectionSet] ≠ [] ∨
      ((Scope.root rootType).groups [operation.selectionSet]).length ≠ 1) :
    ∃ failure s', subscriptionPlan provider operation rootType {} = .error failure s' ∧ failure.IsRefusal := by
  unfold subscriptionPlan
  dsimp only
  rw [bind_of_ok (collect_root replaced), get_bind]
  rw [deferred_root]
  cases aside : (Scope.root rootType).setAside [operation.selectionSet] with
  | cons f rest => exact ⟨_, _, rfl, _, _, rfl⟩
  | nil =>
      cases groups : (Scope.root rootType).groups [operation.selectionSet] with
      | nil => exact ⟨_, _, rfl, _, _, rfl⟩
      | cons g others =>
          cases others with
          | cons => exact ⟨_, _, rfl, _, _, rfl⟩
          | nil =>
              rw [aside, groups] at several
              simp at several

theorem subscriptionPlan_of_single {g : FieldGroup}
    (none : (Scope.root rootType).setAside [operation.selectionSet] = [])
    (single : (Scope.root rootType).groups [operation.selectionSet] = [g]) :
    ∃ finish : FieldPlan → Planner RootPlan,
      subscriptionPlan provider operation rootType {} =
        (fieldPlan provider (selectionPlan provider operation.selectionSet.height) {} g >>= finish)
          (({} : Planning).noting ((Scope.root rootType).found [operation.selectionSet])) ∧
      (∀ stream s, ∃ failure, finish (.stream stream) s = .error failure s ∧ failure.IsRefusal) ∧
      ∀ plan, finish (.resolve plan) = pure (.subscription plan.field plan.selections?) := by
  unfold subscriptionPlan
  dsimp only
  rw [bind_of_ok (collect_root replaced), get_bind, deferred_root, none, single]
  exact ⟨_, rfl, fun stream s => ⟨_, rfl, _, _, rfl⟩, fun plan => rfl⟩

end

theorem queryPlan_of_root {operation : PreparedOperation} {rootType : Text}
    (subscribes : operation.type = .subscription) (known : provider.rootType? .subscription = some rootType) :
    ∃ finish : RootPlan → Planner QueryPlan,
      queryPlan provider operation {} = (subscriptionPlan provider operation rootType >>= finish) {} ∧
      (∀ root, NeverRefuses (finish root)) ∧
      ∀ root plan s s', finish root s = .ok plan s' → plan.root = ⟨.subscription, operation.name, root⟩ := by
  have typed : Planner.rootType provider operation {} = .ok rootType {} := by
    unfold Planner.rootType
    rw [subscribes, known]
    rfl
  have rooted : rootPlan provider operation rootType = subscriptionPlan provider operation rootType := by
    rw [rootPlan, subscribes]
  unfold queryPlan
  rw [bind_of_ok typed, rooted]
  refine ⟨_, rfl, fun root => ?_, fun root plan s s' run => ?_⟩
  · refine NeverRefuses.bind (.of_returns fun s => ⟨_, _, takeDeferred_eq s⟩) fun aside => ?_
    exact (NeverRefuses.mapM (deferPlan_neverRefuses _) aside).bind fun _ => .of_returns fun s => ⟨_, _, rfl⟩
  · simp only [bind_ok, pure_ok] at run
    obtain ⟨_, _, -, _, _, -, _, _, -, _, _, -, rfl, -⟩ := run
    rw [subscribes]

end Planner

section
variable {provider : MetadataProvider} {scope : Scope} {sets : List SelectionSet} {g : FieldGroup}

theorem SelectionPlan.eq_singleton_of_ofFields {nodes : List FieldPlan} {node : FieldPlan}
    (same : ofFields nodes = ofFields [node]) : nodes = [node] := by
  have perm := nodesOf_ofFields nodes
  rw [same] at perm
  exact List.perm_singleton.1 (perm.symm.trans (nodesOf_ofFields [node]))

theorem SetsCourse.of_single {node : ResolvePlan} {aside : List DeferredFragment} {s s' : Planning}
    (course : SetsCourse provider scope sets (SelectionPlan.ofFields [.resolve node]) aside s s')
    (none : scope.setAside sets = []) (single : scope.groups sets = [g]) :
    g.IsPlannedAs provider scope node.field ∧ ∀ f ∈ aside, scope.path ++ [node.field.responseKey] <+: f.path := by
  generalize same : SelectionPlan.ofFields [.resolve node] = top at course
  obtain ⟨fields⟩ := course
  obtain rfl := SelectionPlan.eq_singleton_of_ofFields same.symm
  rw [single] at fields
  rw [none, List.nil_append]
  cases fields with
  | @leaf _ _ _ field _ _ _ _ _ planned _ made rest =>
      cases rest
      have field_eq : node.field = field := by
        rw [← FieldPlan.field, made, PlanField.field_fieldPlan, ResolvePlan.field]
      exact ⟨field_eq ▸ planned, List.forall_mem_nil _⟩
  | @composite _ _ _ field _ _ _ _ _ _ _ _ planned _ inside made rest =>
      cases rest
      have field_eq : node.field = field := by
        rw [← FieldPlan.field, made, PlanField.field_fieldPlan, ResolvePlan.field]
      rw [field_eq, List.append_nil]
      exact ⟨planned, inside.liesOn.2⟩

end

/-- The plan delivers the events of one field, and all else that it holds lies below the field. -/
structure QueryPlan.SubscribesTo (plan : QueryPlan) (name : Option Text) (field : PlanField) : Prop where
  root : ∃ selections, plan.root = ⟨.subscription, name, .subscription field selections⟩
  streams : ∀ stream ∈ plan.streamNodes, stream.path.length ≠ 1
  deferred : ∀ d ∈ deferredWithNested plan.deferred, d.path.head? = some field.responseKey

theorem QueryPlan.SubscribesTo.of_lies {plan : QueryPlan} {name : Option Text} {field : PlanField}
    {selections : Option SelectionPlan} {type : Text}
    (root : plan.root = ⟨.subscription, name, .subscription field selections⟩)
    (path : field.path = [] ++ [field.responseKey]) (lies : ∀ p ∈ selections, p.LiesOn field.path type)
    (below : allLieBelow field.path plan.deferred) : plan.SubscribesTo name field := by
  obtain ⟨paths, nodes⟩ := allLieBelow_inside below
  refine ⟨⟨selections, root⟩, fun stream member => ?_, fun d member => ?_⟩
  · obtain ⟨node, among, isStream⟩ := List.mem_filterMap.1 member
    rw [root] at among
    have isBelow : node.IsBelow field.path :=
      List.forall_mem_append.2 ⟨SelectionPlan.allNodesOf_isBelow lies, nodes⟩ node among
    have deeper := isBelow.deeper
    rw [path] at deeper
    rw [isBelow.streamed stream isStream]
    exact (Nat.ne_of_lt deeper).symm
  · obtain ⟨rest, extended⟩ := paths d member
    rw [← extended, path]
    rfl

section
variable {operation : PreparedOperation} {provider : MetadataProvider} {rootType : Text}

open Planner

variable (replaced : operation.selectionSet.spreads = [])

include replaced

variable (provider) in
theorem subscriptionPlan_streams_iff {g : FieldGroup} {s : Planning}
    (member : g ∈ (Scope.root rootType).groups [operation.selectionSet]) :
    (∃ stream s', fieldPlan provider (selectionPlan provider operation.selectionSet.height) {} g s =
        .ok (.stream stream) s') ↔
      g.CanBeBuilt provider (.root rootType) ∧
        ∃ field options, g.IsPlannedAs provider (.root rootType) field ∧ field.streaming = .ok options := by
  have fit : ∀ set ∈ [operation.selectionSet], set.Fits (operation.selectionSet.height + 1) :=
    List.forall_mem_singleton.2 ⟨Nat.le_succ _, replaced⟩
  have builds : Builds (g.CanBeBuilt provider (.root rootType))
      (fieldPlan provider (selectionPlan provider operation.selectionSet.height) {} g s) :=
    fieldPlan_builds (selectionPlan_builds provider _) rootType (Scope.groups_fit fit member)
  constructor
  · rintro ⟨stream, s', run⟩
    rw [run] at builds
    obtain ⟨field, resolution, _, planned, -, made, -⟩ := fieldPlan_ok rootType run
    refine ⟨builds, field, ?_⟩
    unfold PlanField.fieldPlan at made
    cases streaming : field.streaming with
    | error => rw [streaming] at made; contradiction
    | ok options => exact ⟨options, planned, rfl⟩
  · rintro ⟨can, field, options, planned, streaming⟩
    cases run : fieldPlan provider (selectionPlan provider operation.selectionSet.height) {} g s with
    | error =>
        rw [run] at builds
        exact absurd can builds
    | ok node s' =>
        obtain ⟨field', resolution, _, planned', -, made, -⟩ := fieldPlan_ok rootType run
        obtain rfl := planned.unique planned'
        rw [PlanField.fieldPlan, streaming] at made
        exact ⟨_, s', by rw [made]⟩

theorem subscriptionPlan_refuses_iff :
    (∃ failure s, subscriptionPlan provider operation rootType {} = .error failure s ∧ failure.IsRefusal) ↔
      (Scope.root rootType).setAside [operation.selectionSet] ≠ [] ∨
      ((Scope.root rootType).groups [operation.selectionSet]).length ≠ 1 ∨
      ∃ g field options, (Scope.root rootType).groups [operation.selectionSet] = [g] ∧
        g.CanBeBuilt provider (.root rootType) ∧ g.IsPlannedAs provider (.root rootType) field ∧
        field.streaming = .ok options := by
  by_cases several : (Scope.root rootType).setAside [operation.selectionSet] ≠ [] ∨
      ((Scope.root rootType).groups [operation.selectionSet]).length ≠ 1
  · exact iff_of_true (subscriptionPlan_refuses provider replaced several) (or_assoc.1 (.inl several))
  · obtain ⟨none, one⟩ := not_or.1 several
    rw [not_not] at none one
    obtain ⟨g, single⟩ := List.length_eq_one_iff.1 one
    obtain ⟨finish, run, onStream, onResolve⟩ := subscriptionPlan_of_single provider replaced none single
    have streams := subscriptionPlan_streams_iff provider replaced (single ▸ List.mem_singleton_self g)
      (s := ({} : Planning).noting ((Scope.root rootType).found [operation.selectionSet]))
    rw [run]
    constructor
    · rintro ⟨failure, s, failed, refusal⟩
      obtain early | ⟨node, s₁, built, late⟩ := bind_error.1 failed
      · exact absurd refusal (fieldPlan_neverRefuses (selectionPlan_neverRefuses _) g _ _ _ early)
      · cases node with
        | resolve plan =>
            rw [onResolve] at late
            contradiction
        | stream stream =>
            obtain ⟨can, field, options, planned, streaming⟩ := streams.1 ⟨stream, s₁, built⟩
            exact .inr (.inr ⟨g, field, options, single, can, planned, streaming⟩)
    · rintro (aside | number | ⟨g', field, options, single', can, planned, streaming⟩)
      · exact absurd none aside
      · exact absurd one number
      · obtain rfl := (List.cons.inj (single.symm.trans single')).1
        obtain ⟨stream, s₁, built⟩ := streams.2 ⟨can, field, options, planned, streaming⟩
        obtain ⟨failure, failed, refusal⟩ := onStream stream s₁
        exact ⟨failure, s₁, by rw [bind_of_ok built, failed], refusal⟩

theorem subscriptionPlan_single {root : RootPlan} {s : Planning}
    (run : subscriptionPlan provider operation rootType {} = .ok root s) :
    (Scope.root rootType).setAside [operation.selectionSet] = [] ∧
      (∃ g, (Scope.root rootType).groups [operation.selectionSet] = [g]) ∧
        ∃ node : ResolvePlan, root = .subscription node.field node.selections? := by
  by_cases several : (Scope.root rootType).setAside [operation.selectionSet] ≠ [] ∨
      ((Scope.root rootType).groups [operation.selectionSet]).length ≠ 1
  · obtain ⟨failure, s', failed, -⟩ := subscriptionPlan_refuses provider replaced several
    rw [failed] at run
    contradiction
  · obtain ⟨none, one⟩ := not_or.1 several
    rw [not_not] at none one
    obtain ⟨g, single⟩ := List.length_eq_one_iff.1 one
    obtain ⟨finish, same, onStream, onResolve⟩ := subscriptionPlan_of_single provider replaced none single
    rw [same] at run
    obtain ⟨node, s₁, -, finished⟩ := bind_ok.1 run
    cases node with
    | stream stream =>
        obtain ⟨failure, failed, -⟩ := onStream stream s₁
        rw [failed] at finished
        contradiction
    | resolve plan =>
        rw [onResolve] at finished
        exact ⟨none, ⟨g, single⟩, plan, (pure_ok.1 finished).1.symm⟩

end

theorem plan_subscribes {document : Document} {wanted : Option Text} {operation : PreparedOperation}
    {provider : MetadataProvider} {rootType : Text} (prepared : document.prepare wanted = .ok operation)
    (subscribes : operation.type = .subscription) (known : provider.rootType? .subscription = some rootType) :
    ((∃ failure, (operation.plan provider).1 = .error failure ∧ failure.IsRefusal) ↔
      (Scope.root rootType).setAside [operation.selectionSet] ≠ [] ∨
      ((Scope.root rootType).groups [operation.selectionSet]).length ≠ 1 ∨
      ∃ g field options, (Scope.root rootType).groups [operation.selectionSet] = [g] ∧
        g.CanBeBuilt provider (.root rootType) ∧ g.IsPlannedAs provider (.root rootType) field ∧
        field.streaming = .ok options) ∧
    ∀ plan, (operation.plan provider).1 = .ok plan →
      ∃ g field, (Scope.root rootType).groups [operation.selectionSet] = [g] ∧
        g.IsPlannedAs provider (.root rootType) field ∧ plan.SubscribesTo operation.name field := by
  have replaced : operation.selectionSet.spreads = [] := (prepare_expands prepared).2.2.1
  obtain ⟨finish, run, grants, rooted⟩ := Planner.queryPlan_of_root subscribes known
  refine ⟨?_, fun plan built => ?_⟩
  · rw [← subscriptionPlan_refuses_iff replaced]
    constructor
    · rintro ⟨failure, failed, refusal⟩
      obtain ⟨s, failed⟩ := PreparedOperation.plan_error_iff.1 failed
      rw [run] at failed
      -- What is done behind the root never refuses, so a refusal comes from the root itself.
      obtain early | ⟨root, s₁, -, late⟩ := bind_error.1 failed
      · exact ⟨failure, s, early, refusal⟩
      · exact absurd refusal (grants root _ _ _ late)
    · rintro ⟨failure, s, failed, refusal⟩
      exact ⟨failure, PreparedOperation.plan_error_iff.2 ⟨s, by rw [run, bind_of_error failed]⟩, refusal⟩
  · obtain ⟨rootType', -, known', ⟨root, top, aside, s₁, s₂, root_eq, shows, sets, fragments, -, -⟩, -⟩ :=
      operation.plan_course built
    obtain rfl : rootType = rootType' := by
      rw [subscribes, known] at known'
      exact Option.some.inj known'
    obtain ⟨s, queried⟩ := PreparedOperation.plan_ok_iff.1 built
    rw [run] at queried
    obtain ⟨root', s₃, selected, finished⟩ := bind_ok.1 queried
    obtain ⟨none, ⟨g, single⟩, node, rfl⟩ := subscriptionPlan_single replaced selected
    obtain rfl : root = .subscription node.field node.selections? :=
      congrArg OperationPlan.root (root_eq.symm.trans (rooted _ _ _ _ finished))
    obtain ⟨node', rfl, field_eq, selections_eq⟩ := shows
    obtain ⟨planned, inside⟩ := sets.of_single none single
    obtain ⟨here, below⟩ := SelectionPlan.liesOn_ofFields.1 sets.liesOn.1 (.resolve node') List.mem_cons_self
    refine ⟨g, node'.field, single, planned, ?_⟩
    have root : plan.root = ⟨.subscription, operation.name, .subscription node'.field node'.selections?⟩ := by
      rw [root_eq, field_eq, selections_eq, subscribes]
    have below_field : allLieBelow node'.field.path plan.deferred := by
      rw [here.extends_path]
      exact fragments.lieBelow inside
    exact .of_lies root here.extends_path (ResolvePlan.selectionsLie_iff.1 below) below_field

namespace NestedDelivery

open DeferredStreams

/-- `subscription S { ... on Subscription { events { id ... @defer { tags @stream ... @defer { id } } } } }` -/
def query : Operation where
  type := .subscription
  name := some { text := "S" }
  variableDefinitions := []
  directives := []
  selectionSet := ⟨[.inline ⟨some { name := { text := "Subscription" } }, [], ⟨[
    field "events" [] [field "id" [] [], deferred [field "tags" [stream] [], deferred [field "id" [] []]]]],
    none⟩, none⟩], none⟩

def document : Document where
  definitions := [.operation query]

def provider : MetadataProvider :=
  .ofTables [(.subscription, "Subscription")] [
    ("Subscription.events", ⟨.ofName "Event", false, true, true, true⟩),
    ("Event.id", ⟨.ofName "ID", false, true, false, true⟩),
    ("Event.tags", ⟨.list (.ofName "String") none, false, true, true, true⟩)]

theorem planned : ∃ p plan, document.prepare none = .ok p ∧ p.type = .subscription ∧ p.name = some (.ofString "S") ∧
    (p.plan provider).1 = .ok plan := by
  have outcome : (match document.prepare none with
      | .ok p => p.type = .subscription && p.name = some (.ofString "S") && (p.plan provider).1.isOk
      | .error _ => false) = true := by decide +kernel
  cases prepared : document.prepare none with
  | error d => simp [prepared] at outcome
  | ok p =>
      simp only [prepared, Bool.and_eq_true, decide_eq_true_eq] at outcome
      obtain ⟨⟨type, name⟩, returns⟩ := outcome
      obtain ⟨plan, built⟩ := exists_of_isOk returns
      exact ⟨p, plan, rfl, type, name, built⟩

theorem subscribes : ∃ p plan field, document.prepare none = .ok p ∧ (p.plan provider).1 = .ok plan ∧
    plan.SubscribesTo (some "S") field := by
  obtain ⟨p, plan, prepared, type, name, built⟩ := planned
  have known : provider.rootType? .subscription = some "Subscription" := rfl
  obtain ⟨-, shape⟩ := plan_subscribes prepared type known
  obtain ⟨g, field, -, -, subscribes⟩ := shape plan built
  exact ⟨p, plan, field, prepared, built, name ▸ subscribes⟩

end NestedDelivery

end QueryPlanner
