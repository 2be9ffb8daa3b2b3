import QueryPlanner.Proofs.Plan.Bare
import QueryPlanner.Proofs.Plan.FirstFault
import Mathlib.Logic.Relation

/-!
# Operations planned alike

When the selection sets of two operations are related in such a way that what is found in related sets is related
again, the planner does the same on both: it fails on both in one way, or makes plans alike (`IsSimulation.plan`).
-/

namespace QueryPlanner

abbrev SetsRelation := Scope → List SelectionSet → List SelectionSet → Prop

structure DeferredFragment.Alike (related : SetsRelation) (f f' : DeferredFragment) : Prop where
  parentType : f.parentType = f'.parentType
  path : f.path = f'.path
  label : f.label = f'.label
  condition : f.condition = f'.condition
  selects : related f.scope [f.selectionSet] [f'.selectionSet]

structure FieldGroup.Alike (provider : MetadataProvider) (nodes : NodesRelation) (related : SetsRelation)
    (scope : Scope) (g g' : FieldGroup) : Prop where
  responseKey : g.responseKey = g'.responseKey
  fieldName : g.fieldName = g'.fieldName
  parentType : g.parentType = g'.parentType
  typeCondition : g.typeCondition = g'.typeCondition
  fieldNodes : nodes g.fieldNodes g'.fieldNodes
  arguments : g.first.arguments.map Argument.bare = g'.first.arguments.map Argument.bare
  modifier : g.first.modifier.map Modifier.bare = g'.first.modifier.map Modifier.bare
  directives : (g.fieldNodes.flatMap (·.directives)).map Directive.bare =
    (g'.fieldNodes.flatMap (·.directives)).map Directive.bare
  leaf : g.sets = [] ↔ g'.sets = []
  selects : ∀ metadata, g.metadata? provider = some metadata → related (scope.entered g metadata) g.sets g'.sets

/-- What is found in related sets is related. -/
structure IsSimulation (provider : MetadataProvider) (nodes : NodesRelation) (related : SetsRelation) : Prop where
  spread : ∀ {scope sets sets'}, related scope sets sets' →
    (scope.found sets).findSome? (·.spread?) = (scope.found sets').findSome? (·.spread?)
  aside : ∀ {scope sets sets'}, related scope sets sets' →
    List.Forall₂ (DeferredFragment.Alike related) (scope.setAside sets) (scope.setAside sets')
  groups : ∀ {scope sets sets'}, related scope sets sets' →
    List.Forall₂ (FieldGroup.Alike provider nodes related scope) (scope.groups sets) (scope.groups sets')

structure Planning.Alike (nodes : NodesRelation) (related : SetsRelation) (s t : Planning) : Prop where
  nextStream : s.nextStream = t.nextStream
  deferred : List.Forall₂ (DeferredFragment.Alike related) s.deferred t.deferred
  streams : List.Forall₂ (StreamsAlike (PlanField.Alike nodes)) s.streams t.streams

theorem Planning.Alike.withoutDeferred {nodes : NodesRelation} {related : SetsRelation} {s t : Planning}
    (states : s.Alike nodes related t) : s.withoutDeferred.Alike nodes related t.withoutDeferred :=
  ⟨states.nextStream, .nil, states.streams⟩

theorem Whereabouts.path_ofLocation? (loc loc' : Option Location) :
    (ofLocation? loc).path = (ofLocation? loc').path := by
  have none (loc : Option Location) : (ofLocation? loc).path = none := by cases loc <;> rfl
  rw [none, none]

namespace Planner
open Run

variable {nodes : NodesRelation} {related : SetsRelation} {provider : MetadataProvider} {α β α' β' : Type}
  {values : α → β → Prop} {values' : α' → β' → Prop} {s t : Planning} {scope : Scope}

def RunsAlike (nodes : NodesRelation) (related : SetsRelation) (values : α → β → Prop) :
    EStateM.Result PlanFailure Planning α → EStateM.Result PlanFailure Planning β → Prop
  | .ok a s, .ok b t => values a b ∧ s.Alike nodes related t
  | .error failure _, .error failure' _ => failure.Alike failure'
  | _, _ => False

theorem RunsAlike.pure {a : α} {b : β} (value : values a b) (states : s.Alike nodes related t) :
    RunsAlike nodes related values ((Pure.pure a : Planner α) s) ((Pure.pure b : Planner β) t) :=
  ⟨value, states⟩

theorem RunsAlike.bind {p : Planner α} {q : Planner β} {f : α → Planner α'} {g : β → Planner β'}
    (first : RunsAlike nodes related values (p s) (q t))
    (next : ∀ a b s' t', p s = .ok a s' → q t = .ok b t' → values a b → s'.Alike nodes related t' →
      RunsAlike nodes related values' (f a s') (g b t')) :
    RunsAlike nodes related values' ((p >>= f) s) ((q >>= g) t) := by
  cases left : p s <;> cases right : q t <;> rw [left, right] at first
  case ok.ok a s' b t' =>
    rw [bind_of_ok left, bind_of_ok right]
    exact next a b s' t' left right first.1 first.2
  case error.error =>
    rw [bind_of_error left, bind_of_error right]
    exact first
  all_goals contradiction

/-! ## Single fields -/

section
variable {g g' : FieldGroup} {position position' : Position}

theorem record_alike {found found' : List Flattened}
    (spread : found.findSome? (·.spread?) = found'.findSome? (·.spread?))
    (aside : List.Forall₂ (DeferredFragment.Alike related) (found.filterMap (·.deferred?))
      (found'.filterMap (·.deferred?)))
    (states : s.Alike nodes related t) :
    RunsAlike nodes related (fun _ _ => True) (record found s) (record found' t) := by
  cases left : found.findSome? (·.spread?) with
  | some name =>
      have right := spread.symm.trans left
      unfold record
      rw [left, right]
      exact .broken _
  | none =>
      have right := spread.symm.trans left
      rw [record_of_replaced (List.findSome?_eq_none_iff.1 left),
        record_of_replaced (List.findSome?_eq_none_iff.1 right)]
      exact ⟨trivial, states.nextStream, List.rel_append states.deferred aside, states.streams⟩

theorem collect_eq (position : Position) (parentType : Text) (sets : List SelectionSet) :
    collect position parentType sets = (record ((position.scope parentType).found sets) >>= fun _ =>
      pure ((position.scope parentType).groups sets)) := rfl

theorem collect_alike (simulates : IsSimulation provider nodes related) {parentType : Text}
    {sets sets' : List SelectionSet}
    (here : position.scope parentType = scope) (here' : position'.scope parentType = scope)
    (alike : related scope sets sets') (states : s.Alike nodes related t) :
    RunsAlike nodes related (fun groups groups' => groups = scope.groups sets ∧ groups' = scope.groups sets')
      (collect position parentType sets s) (collect position' parentType sets' t) := by
  rw [collect_eq, collect_eq, here, here']
  exact (record_alike (simulates.spread alike) (simulates.aside alike) states).bind fun _ _ s' t' _ _ _ states' =>
    .pure ⟨rfl, rfl⟩ states'

theorem metadata_alike (same : g.Alike provider nodes related scope g') (path : ResponsePath)
    (states : s.Alike nodes related t) :
    RunsAlike nodes related (· = ·) (metadata provider g path s) (metadata provider g' path t) := by
  unfold metadata
  rw [← same.fieldName, ← same.parentType]
  split_ifs
  · exact .pure rfl states
  · rw [bind_of_ok (lookup_eq provider g.parentType g.fieldName s),
      bind_of_ok (lookup_eq provider g.parentType g.fieldName t)]
    cases provider.field? g.parentType g.fieldName with
    | none => exact .reported rfl rfl
    | some known => exact .pure rfl ⟨states.nextStream, states.deferred, states.streams⟩

theorem resultType_alike (same : g.Alike provider nodes related scope g') (declared : TypeRef) (path : ResponsePath)
    (states : s.Alike nodes related t) :
    RunsAlike nodes related (· = ·) (resultType g declared path s) (resultType g' declared path t) := by
  have types : declared.modifiedBy g.first.modifier = declared.modifiedBy g'.first.modifier := by
    rw [← TypeRef.modifiedBy_bare, same.modifier, TypeRef.modifiedBy_bare]
  cases left : declared.modifiedBy g.first.modifier with
  | some type =>
      rw [resultType_fits left, resultType_fits (types.symm.trans left)]
      exact ⟨rfl, states⟩
  | none =>
      have words : renderElement g.first.modifier = renderElement g'.first.modifier := by
        rw [← renderElement_bare, bareElement_eq_map, same.modifier, ← bareElement_eq_map, renderElement_bare]
      rw [resultType_unfit left, resultType_unfit (types.symm.trans left)]
      refine .reported ?_ rfl
      dsimp only
      rw [modifierMessage, modifierMessage, words, same.parentType, same.fieldName]

theorem planField_alike (same : g.Alike provider nodes related scope g')
    (here : position.responsePath = position'.responsePath) (states : s.Alike nodes related t) :
    RunsAlike nodes related (PlanField.Alike nodes) (planField provider position g s)
      (planField provider position' g' t) := by
  unfold planField
  rw [← here, ← same.responseKey]
  refine (metadata_alike same _ states).bind fun metadata _ s₁ t₁ _ _ known states₁ => ?_
  subst known
  refine (resultType_alike same _ _ states₁).bind fun type _ s₂ t₂ _ _ typed states₂ => ?_
  subst typed
  exact .pure ⟨rfl, same.fieldName, same.parentType, same.typeCondition, rfl, same.fieldNodes, same.arguments,
    same.directives, rfl, rfl⟩ states₂

theorem report_alike (event event' : Event) (states : s.Alike nodes related t) :
    RunsAlike nodes related (fun _ _ => True) (report event s) (report event' t) :=
  ⟨trivial, states.nextStream, states.deferred, states.streams⟩

theorem forM_report_alike (reason : Option Event) (states : s.Alike nodes related t) :
    RunsAlike nodes related (fun _ _ => True) (reason.forM report s) (reason.forM report t) := by
  cases reason with
  | none => exact .pure trivial states
  | some event => exact report_alike event event states

def PlansAlikeBelow (nodes : NodesRelation) (related : SetsRelation) (height height' : Nat) (below below' : Below) :
    Prop :=
  ∀ ⦃position position' parentType sets sets' s t⦄, (∀ set ∈ sets, set.height ≤ height) →
    (∀ set ∈ sets', set.height ≤ height') → sets ≠ [] → sets' ≠ [] →
    position.scope parentType = position'.scope parentType → related (position.scope parentType) sets sets' →
    s.Alike nodes related t →
      RunsAlike nodes related (Option.Rel (SelectionPlan.Alike (PlanField.Alike nodes)))
        (below position parentType sets s) (below' position' parentType sets' t)

theorem resolvePlan_alike {height height' : Nat} {below below' : Below}
    (plansAlike : PlansAlikeBelow nodes related height height' below below') {parentType : Text}
    (here : position.scope parentType = position'.scope parentType)
    (same : g.Alike provider nodes related (position.scope parentType) g')
    (low : ∀ set ∈ g.sets, set.height ≤ height) (low' : ∀ set ∈ g'.sets, set.height ≤ height')
    {field field' : PlanField} (planned : g.IsPlannedAs provider (position.scope parentType) field)
    (planned' : g'.IsPlannedAs provider (position.scope parentType) field') (alike : field.Alike nodes field')
    (states : s.Alike nodes related t) :
    RunsAlike nodes related (ResolvePlan.Alike (PlanField.Alike nodes)) (resolvePlan below position field s)
      (resolvePlan below' position' field' t) := by
  have sets : field.sets = g.sets := planned.sets_eq
  have sets' : field'.sets = g'.sets := planned'.sets_eq
  by_cases leaf : g.sets = []
  · rw [resolvePlan_leaf (sets.trans leaf), resolvePlan_leaf (sets'.trans (same.leaf.1 leaf))]
    exact .pure (.resolver alike) states
  · have selects : g'.sets ≠ [] := fun empty => leaf (same.leaf.2 empty)
    obtain ⟨metadata, -, known, -, -⟩ := id planned
    have inside : (position.push field).scope field.resultType.namedType =
        (position.scope parentType).entered g metadata := by
      rw [Position.scope_push position field parentType, planned.below_eq known]
    have inside' : (position'.push field').scope field.resultType.namedType =
        (position.scope parentType).entered g metadata := by
      rw [alike.resultType, Position.scope_push position' field' parentType, ← here, ← inside,
        Position.scope_push position field parentType, Scope.below, Scope.below, alike.responseKey, alike.metadata,
        alike.resultType]
    rw [resolvePlan_selects (sets ▸ leaf), resolvePlan_selects (sets' ▸ selects), sets, sets', ← alike.resultType]
    refine (plansAlike low low' leaf selects (inside.trans inside'.symm) (inside ▸ same.selects metadata known)
      states).bind fun plan plan' s₁ t₁ _ _ plans states₁ => ?_
    exact .pure (.composite alike plans) states₁

theorem fieldPlan_alike {height height' : Nat} {below below' : Below}
    (plansAlike : PlansAlikeBelow nodes related height height' below below') {parentType : Text}
    (here : position.scope parentType = position'.scope parentType)
    (same : g.Alike provider nodes related (position.scope parentType) g')
    (low : ∀ set ∈ g.sets, set.height ≤ height) (low' : ∀ set ∈ g'.sets, set.height ≤ height')
    (states : s.Alike nodes related t) :
    RunsAlike nodes related (FieldPlan.Alike (PlanField.Alike nodes)) (fieldPlan provider below position g s)
      (fieldPlan provider below' position' g' t) := by
  unfold fieldPlan
  refine (planField_alike same (congrArg Scope.path here) states).bind
    fun field field' s₁ t₁ run run' alike states₁ => ?_
  have planned := (planField_ok parentType run).1
  have planned' := (planField_ok parentType run').1
  rw [← here] at planned'
  have resolved {s t : Planning} (states : s.Alike nodes related t) :=
    resolvePlan_alike plansAlike here same low low' planned planned' alike states
  rw [← alike.streaming_eq]
  cases field.streaming with
  | error reason =>
      refine (forM_report_alike reason states₁).bind fun _ _ s₂ t₂ _ _ _ states₂ => ?_
      refine (resolved states₂).bind fun node node' s₃ t₃ _ _ nodes states₃ => ?_
      exact .pure (.resolve nodes) states₃
  | ok options =>
      have taken : RunsAlike nodes related (· = ·) (takeStreamId s₁) (takeStreamId t₁) :=
        ⟨states₁.nextStream, congrArg (· + 1) states₁.nextStream, states₁.deferred, states₁.streams⟩
      refine taken.bind fun id _ s₂ t₂ _ _ numbered states₂ => ?_
      subst numbered
      refine (resolved states₂).bind fun node node' s₃ t₃ _ _ nodes states₃ => ?_
      rw [← alike.path]
      have streams : StreamPlan.Alike (PlanField.Alike _) ⟨id, options.label, field.path, options.initialCount,
          options.condition, node⟩ ⟨id, options.label, field.path, options.initialCount, options.condition, node'⟩ :=
        .intro nodes
      exact ⟨.stream streams, states₃.nextStream, states₃.deferred,
        List.rel_append states₃.streams (.cons ⟨rfl, streams⟩ .nil)⟩

theorem fieldPlans_alike {height height' : Nat} {below below' : Below}
    (plansAlike : PlansAlikeBelow nodes related height height' below below') {parentType : Text}
    (here : position.scope parentType = position'.scope parentType) {groups groups' : List FieldGroup}
    (same : List.Forall₂ (FieldGroup.Alike provider nodes related (position.scope parentType)) groups groups')
    (low : ∀ g ∈ groups, ∀ set ∈ g.sets, set.height ≤ height)
    (low' : ∀ g ∈ groups', ∀ set ∈ g.sets, set.height ≤ height')
    (states : s.Alike nodes related t) :
    RunsAlike nodes related (List.Forall₂ (FieldPlan.Alike (PlanField.Alike nodes)))
      (groups.mapM (fieldPlan provider below position) s) (groups'.mapM (fieldPlan provider below' position') t) := by
  induction same generalizing s t with
  | nil => exact .pure .nil states
  | cons first _ ih =>
      obtain ⟨lowFirst, lowRest⟩ := List.forall_mem_cons.1 low
      obtain ⟨lowFirst', lowRest'⟩ := List.forall_mem_cons.1 low'
      rw [List.mapM_cons, List.mapM_cons]
      refine (fieldPlan_alike plansAlike here first lowFirst lowFirst' states).bind
        fun node node' s₁ t₁ _ _ alike states₁ => ?_
      refine (ih lowRest lowRest' states₁).bind fun rest rest' s₂ t₂ _ _ others states₂ => ?_
      exact .pure (.cons alike others) states₂

end

/-! ## Selection sets and fragments -/

theorem selectionPlan_alike (simulates : IsSimulation provider nodes related) (height height' : Nat) :
    PlansAlikeBelow nodes related height height' (selectionPlan provider height) (selectionPlan provider height') := by
  -- An edit may change the heights of sets, so both bounds are above their sets and go down together.
  induction height generalizing height' with
  | zero =>
      intro position position' parentType sets sets' s t low low' selects selects'
      obtain ⟨set, member⟩ := List.exists_mem_of_ne_nil _ selects
      exact absurd (low set member) (Nat.not_le.2 set.height_pos)
  | succ height ih =>
      intro position position' parentType sets sets' s t low low' selects selects' here alike states
      obtain ⟨height', rfl⟩ : ∃ n, height' = n + 1 := by
        obtain ⟨set, member⟩ := List.exists_mem_of_ne_nil _ selects'
        exact Nat.exists_eq_add_one.2 (set.height_pos.trans_le (low' set member))
      unfold selectionPlan
      refine (collect_alike simulates rfl here.symm alike states).bind fun _ _ s₁ t₁ _ _ found states₁ => ?_
      obtain ⟨rfl, rfl⟩ := found
      refine (fieldPlans_alike (ih height') here (simulates.groups alike) (fun g => Scope.groups_height low)
        (fun g => Scope.groups_height low') states₁).bind fun _ _ s₂ t₂ _ _ fields states₂ => ?_
      exact .pure (SelectionPlan.alike_ofFields (fun f f' alike => alike.metadata) fields) states₂

theorem selectionPlan_aside {f : DeferredFragment} {plan : Option SelectionPlan} {s' : Planning}
    (empty : s.deferred = []) (run : selectionPlan provider f.selectionSet.height (.branch f.path) f.parentType
      [f.selectionSet] s = .ok plan s') :
    ∀ g ∈ s'.deferred, g.selectionSet.height < f.selectionSet.height := by
  obtain ⟨aside, -, added, lower⟩ := selectionPlan_course provider _ (by simp) (by simp) run
  rwa [added, empty]

theorem deferPlan_settles {depth : Nat} {f : DeferredFragment} {plan : DeferPlan} {s' : Planning}
    (low : f.selectionSet.height ≤ depth) (empty : s.deferred = []) (run : deferPlan provider depth f s = .ok plan s') :
    s'.deferred = [] := by
  have single : [f].mapM (deferPlan provider depth) s = .ok [plan] s' := by
    simp only [List.mapM_cons, List.mapM_nil, bind_ok, pure_ok]
    exact ⟨plan, s', run, [], s', ⟨rfl, rfl⟩, rfl, rfl⟩
  exact (deferPlans_course (List.forall_mem_singleton.2 low) empty single).2

def DefersAlikeBelow (provider : MetadataProvider) (nodes : NodesRelation) (related : SetsRelation)
    (depth depth' : Nat) : Prop :=
  ∀ ⦃fragments fragments' s t⦄, List.Forall₂ (DeferredFragment.Alike related) fragments fragments' →
    (∀ f ∈ fragments, f.selectionSet.height ≤ depth) → (∀ f ∈ fragments', f.selectionSet.height ≤ depth') →
    s.deferred = [] → t.deferred = [] → s.Alike nodes related t →
      RunsAlike nodes related (List.Forall₂ (DeferPlan.Alike (PlanField.Alike nodes)))
        (fragments.mapM (deferPlan provider depth) s) (fragments'.mapM (deferPlan provider depth') t)

theorem deferPlan_alike (simulates : IsSimulation provider nodes related) {depth depth' : Nat}
    (inner : DefersAlikeBelow provider nodes related depth depth') {f f' : DeferredFragment} (same : f.Alike related f')
    (low : f.selectionSet.height ≤ depth + 1) (low' : f'.selectionSet.height ≤ depth' + 1)
    (empty : s.deferred = []) (empty' : t.deferred = []) (states : s.Alike nodes related t) :
    RunsAlike nodes related (DeferPlan.Alike (PlanField.Alike nodes)) (deferPlan provider (depth + 1) f s)
      (deferPlan provider (depth' + 1) f' t) := by
  obtain ⟨set, parentType, path, label, condition⟩ := f
  obtain ⟨set', _, _, _, _⟩ := f'
  obtain ⟨rfl, rfl, rfl, rfl, selects⟩ := same
  rw [← Position.scope_branch] at selects
  unfold deferPlan
  refine (selectionPlan_alike simulates set.height set'.height (List.forall_mem_singleton.2 le_rfl)
    (List.forall_mem_singleton.2 le_rfl) (List.cons_ne_nil _ _) (List.cons_ne_nil _ _) rfl selects states).bind
    fun node node' s₁ t₁ run run' made states₁ => ?_
  have lower : ∀ g ∈ s₁.deferred, g.selectionSet.height ≤ depth := fun g member =>
    Nat.le_of_lt_succ ((selectionPlan_aside empty run g member).trans_le low)
  have lower' : ∀ g ∈ t₁.deferred, g.selectionSet.height ≤ depth' := fun g member =>
    Nat.le_of_lt_succ ((selectionPlan_aside empty' run' g member).trans_le low')
  rw [bind_of_ok (takeDeferred_eq s₁), bind_of_ok (takeDeferred_eq t₁)]
  refine (inner states₁.deferred lower lower' rfl rfl states₁.withoutDeferred).bind
    fun plans plans' s₂ t₂ _ _ nested states₂ => ?_
  exact .pure (.intro made nested) states₂

theorem deferPlans_alike (simulates : IsSimulation provider nodes related) (depth depth' : Nat) :
    DefersAlikeBelow provider nodes related depth depth' := by
  induction depth generalizing depth' with
  | zero =>
      intro fragments fragments' s t same low low' empty empty' states
      cases same with
      | nil => exact .pure .nil states
      | @cons f _ _ _ _ _ => exact absurd (low f List.mem_cons_self) (Nat.not_le.2 f.selectionSet.height_pos)
  | succ depth ih =>
      intro fragments fragments' s t same low low' empty empty' states
      induction same generalizing s t with
      | nil => exact .pure .nil states
      | @cons f f' rest rest' first _ ihRest =>
          obtain ⟨lowFirst, lowRest⟩ := List.forall_mem_cons.1 low
          obtain ⟨lowFirst', lowRest'⟩ := List.forall_mem_cons.1 low'
          obtain ⟨depth', rfl⟩ : ∃ n, depth' = n + 1 :=
            Nat.exists_eq_add_one.2 (f'.selectionSet.height_pos.trans_le lowFirst')
          rw [List.mapM_cons, List.mapM_cons]
          refine (deferPlan_alike simulates (ih depth') first lowFirst lowFirst' empty empty' states).bind
            fun plan plan' s₁ t₁ run run' alike states₁ => ?_
          refine (ihRest lowRest lowRest' (deferPlan_settles lowFirst empty run)
            (deferPlan_settles lowFirst' empty' run') states₁).bind fun plans plans' s₂ t₂ _ _ others states₂ => ?_
          exact .pure (.cons alike others) states₂

/-! ## Operations -/

section
variable {operation operation' : PreparedOperation} {rootType : Text}

theorem failSubscription_alike (name : operation.name = operation'.name) (problem : Text) {w w' : Whereabouts}
    (path : w.path = w'.path) :
    RunsAlike nodes related values (failSubscription operation problem w s)
      (failSubscription operation' problem w' t) := by
  unfold failSubscription
  rw [name]
  exact .reported rfl path

theorem subscriptionPlan_alike (simulates : IsSimulation provider nodes related)
    (name : operation.name = operation'.name)
    (selects : related (.root rootType) [operation.selectionSet] [operation'.selectionSet])
    (states : s.Alike nodes related t) :
    RunsAlike nodes related (RootPlan.Alike (PlanField.Alike nodes)) (subscriptionPlan provider operation rootType s)
      (subscriptionPlan provider operation' rootType t) := by
  have here : Position.scope {} rootType = .root rootType := rfl
  have low : ∀ g ∈ (Scope.root rootType).groups [operation.selectionSet], ∀ set ∈ g.sets,
      set.height ≤ operation.selectionSet.height := fun g => Scope.groups_height (by simp)
  have low' : ∀ g ∈ (Scope.root rootType).groups [operation'.selectionSet], ∀ set ∈ g.sets,
      set.height ≤ operation'.selectionSet.height := fun g => Scope.groups_height (by simp)
  have same := simulates.groups selects
  unfold subscriptionPlan
  refine (collect_alike simulates here here selects states).bind fun groups groups' s₁ t₁ _ _ found states₁ => ?_
  rw [← found.1] at low same
  rw [← found.2] at low' same
  rw [get_bind, get_bind]
  have aside := states₁.deferred
  cases left : s₁.deferred <;> cases right : t₁.deferred <;> rw [left, right] at aside
  case cons.cons => exact failSubscription_alike name _ (Whereabouts.path_ofLocation? _ _)
  case nil.nil =>
    cases same with
    | nil => exact failSubscription_alike name _ (Whereabouts.path_ofLocation? _ _)
    | cons first rest =>
        cases rest with
        | cons _ _ => exact failSubscription_alike name _ (Whereabouts.path_ofLocation? _ _)
        | nil =>
            refine (fieldPlan_alike (selectionPlan_alike simulates _ _) rfl first (low _ List.mem_cons_self)
              (low' _ List.mem_cons_self) states₁).bind fun node node' s₂ t₂ _ _ alike states₂ => ?_
            cases alike with
            | resolve plans => exact .pure (.subscription plans.field plans.selections?) states₂
            | stream plans =>
                obtain ⟨_⟩ := plans
                exact failSubscription_alike name _ rfl
  all_goals cases aside

theorem rootPlan_alike (simulates : IsSimulation provider nodes related) (type : operation.type = operation'.type)
    (name : operation.name = operation'.name)
    (selects : related (.root rootType) [operation.selectionSet] [operation'.selectionSet])
    (states : s.Alike nodes related t) :
    RunsAlike nodes related (RootPlan.Alike (PlanField.Alike nodes)) (rootPlan provider operation rootType s)
      (rootPlan provider operation' rootType t) := by
  have here : Position.scope {} rootType = .root rootType := rfl
  have selected : RunsAlike nodes related (RootPlan.Alike (PlanField.Alike nodes))
      ((RootPlan.selections <$> selectionPlan provider operation.selectionSet.height {} rootType
        [operation.selectionSet]) s)
      ((RootPlan.selections <$> selectionPlan provider operation'.selectionSet.height {} rootType
        [operation'.selectionSet]) t) := by
    rw [map_eq_pure_bind, map_eq_pure_bind]
    refine (selectionPlan_alike simulates operation.selectionSet.height operation'.selectionSet.height
      (List.forall_mem_singleton.2 le_rfl) (List.forall_mem_singleton.2 le_rfl) (List.cons_ne_nil _ _)
      (List.cons_ne_nil _ _) rfl (here ▸ selects) states).bind fun plan plan' s₁ t₁ _ _ plans states₁ => ?_
    exact .pure (.selections plans) states₁
  unfold rootPlan
  rw [← type]
  cases operation.type with
  | subscription => exact subscriptionPlan_alike simulates name selects states
  | query => exact selected
  | mutation => exact selected

theorem rootPlan_aside {root : RootPlan} {s' : Planning} (empty : s.deferred = [])
    (run : rootPlan provider operation rootType s = .ok root s') :
    ∀ f ∈ s'.deferred, f.selectionSet.height ≤ operation.selectionSet.height := by
  unfold rootPlan at run
  by_cases subscribes : operation.type = .subscription
  · simp only [subscribes] at run
    obtain ⟨top, aside, -, -, rfl, low⟩ := subscriptionPlan_course empty run
    exact low
  · simp only at run
    obtain ⟨top, made, rfl⟩ := map_ok.1 run
    obtain ⟨aside, -, added, lower⟩ := selectionPlan_course provider _ (by simp) (by simp) made
    rw [added, empty]
    exact fun f member => (lower f member).le

theorem queryPlan_alike (simulates : IsSimulation provider nodes related) (type : operation.type = operation'.type)
    (name : operation.name = operation'.name)
    (selects : ∀ rootType, provider.rootType? operation.type = some rootType →
      related (.root rootType) [operation.selectionSet] [operation'.selectionSet]) :
    RunsAlike nodes related (QueryPlan.Alike (PlanField.Alike nodes)) (queryPlan provider operation {})
      (queryPlan provider operation' {}) := by
  cases known : provider.rootType? operation.type with
  | none =>
      rw [queryPlan_unknownType known, queryPlan_unknownType (type ▸ known), ← type]
      exact .reported rfl (Whereabouts.path_ofLocation? _ _)
  | some rootType =>
      have typed {operation : PreparedOperation} (known : provider.rootType? operation.type = some rootType) :
          Planner.rootType provider operation {} = .ok rootType {} := by
        unfold Planner.rootType
        rw [known]
        rfl
      have start : Planning.Alike nodes related {} {} := ⟨rfl, .nil, .nil⟩
      unfold queryPlan
      rw [bind_of_ok (typed known), bind_of_ok (typed (type ▸ known))]
      refine (rootPlan_alike simulates type name (selects rootType known) start).bind
        fun root root' s₁ t₁ run run' roots states₁ => ?_
      rw [bind_of_ok (takeDeferred_eq s₁), bind_of_ok (takeDeferred_eq t₁)]
      refine (deferPlans_alike simulates _ _ states₁.deferred (rootPlan_aside rfl run) (rootPlan_aside rfl run') rfl rfl
        states₁.withoutDeferred).bind fun plans plans' s₂ t₂ _ _ deferred states₂ => ?_
      rw [get_bind, get_bind]
      refine (report_alike _ _ states₂).bind fun _ _ s₃ t₃ _ _ _ states₃ => ?_
      exact .pure ⟨type, name, roots, orderStreams_alike states₂.streams, deferred⟩ states₃

end

end Planner

theorem IsSimulation.plan {provider : MetadataProvider} {nodes : NodesRelation} {related : SetsRelation}
    (simulates : IsSimulation provider nodes related) {operation operation' : PreparedOperation}
    (type : operation.type = operation'.type) (name : operation.name = operation'.name)
    (selects : ∀ rootType, provider.rootType? operation.type = some rootType →
      related (.root rootType) [operation.selectionSet] [operation'.selectionSet]) :
    OutcomesAlike (PlanField.Alike nodes) (operation.plan provider).1 (operation'.plan provider).1 := by
  have alike := Planner.queryPlan_alike simulates type name selects
  cases left : Planner.queryPlan provider operation {} <;> cases right : Planner.queryPlan provider operation' {} <;>
    rw [left, right] at alike
  case ok.ok plan s plan' s' =>
    rw [PreparedOperation.plan_ok_iff.2 ⟨s, left⟩, PreparedOperation.plan_ok_iff.2 ⟨s', right⟩]
    exact .ok alike.1
  case error.error failure s failure' s' =>
    rw [PreparedOperation.plan_error_iff.2 ⟨s, left⟩, PreparedOperation.plan_error_iff.2 ⟨s', right⟩]
    exact .error alike
  all_goals contradiction

/-! ## Simulations in a row -/

theorem forall₂_comp {α β γ : Type} {first : α → β → Prop} {second : β → γ → Prop} {as : List α} {bs : List β}
    {cs : List γ} (h : List.Forall₂ first as bs) (h' : List.Forall₂ second bs cs) :
    List.Forall₂ (Relation.Comp first second) as cs := by
  induction h generalizing cs with
  | nil =>
      cases h'
      exact .nil
  | cons here _ ih =>
      obtain _ | ⟨there, rest⟩ := h'
      exact .cons ⟨_, here, there⟩ (ih rest)

def SetsRelation.comp (first second : SetsRelation) : SetsRelation := fun scope =>
  Relation.Comp (first scope) (second scope)

section
variable {provider : MetadataProvider} {nodes nodes' : NodesRelation} {related related' : SetsRelation} {scope : Scope}

theorem DeferredFragment.Alike.comp {f f' f'' : DeferredFragment} (first : f.Alike related f')
    (second : f'.Alike related' f'') : f.Alike (related.comp related') f'' where
  parentType := first.parentType.trans second.parentType
  path := first.path.trans second.path
  label := first.label.trans second.label
  condition := first.condition.trans second.condition
  selects := by
    have same : f'.scope = f.scope := by rw [scope, scope, first.path, first.parentType]
    exact ⟨[f'.selectionSet], first.selects, same ▸ second.selects⟩

theorem FieldGroup.Alike.comp {g g' g'' : FieldGroup} (first : g.Alike provider nodes related scope g')
    (second : g'.Alike provider nodes' related' scope g'') :
    g.Alike provider (Relation.Comp nodes nodes') (related.comp related') scope g'' where
  responseKey := first.responseKey.trans second.responseKey
  fieldName := first.fieldName.trans second.fieldName
  parentType := first.parentType.trans second.parentType
  typeCondition := first.typeCondition.trans second.typeCondition
  fieldNodes := ⟨g'.fieldNodes, first.fieldNodes, second.fieldNodes⟩
  arguments := first.arguments.trans second.arguments
  modifier := first.modifier.trans second.modifier
  directives := first.directives.trans second.directives
  leaf := first.leaf.trans second.leaf
  selects := fun metadata known => by
    have known' : g'.metadata? provider = some metadata := by
      rwa [metadata?, ← first.fieldName, ← first.parentType]
    have same : scope.entered g' metadata = scope.entered g metadata := by
      rw [Scope.entered, Scope.entered, first.responseKey]
    exact ⟨g'.sets, first.selects metadata known, same ▸ second.selects metadata known'⟩

theorem IsSimulation.comp (first : IsSimulation provider nodes related)
    (second : IsSimulation provider nodes' related') :
    IsSimulation provider (Relation.Comp nodes nodes') (related.comp related') where
  spread := by
    rintro scope sets sets'' ⟨sets', alike, alike'⟩
    exact (first.spread alike).trans (second.spread alike')
  aside := by
    rintro scope sets sets'' ⟨sets', alike, alike'⟩
    refine (forall₂_comp (first.aside alike) (second.aside alike')).imp ?_
    rintro f f'' ⟨f', same, same'⟩
    exact same.comp same'
  groups := by
    rintro scope sets sets'' ⟨sets', alike, alike'⟩
    refine (forall₂_comp (first.groups alike) (second.groups alike')).imp ?_
    rintro g g'' ⟨g', same, same'⟩
    exact same.comp same'

theorem IsSimulation.mono (simulates : IsSimulation provider nodes related)
    (weaker : ∀ fields fields', nodes fields fields' → nodes' fields fields') :
    IsSimulation provider nodes' related where
  spread := simulates.spread
  aside := simulates.aside
  groups := fun alike => (simulates.groups alike).imp fun _ _ same =>
    { same with fieldNodes := weaker _ _ same.fieldNodes }

end

end QueryPlanner
