import QueryPlanner.Plan.Build
import QueryPlanner.Proofs.Run

/-!
# Planning with the position passed along

The builder enters and leaves fields, and keeps the streams of each part of a plan apart until the part is complete.
Planning can as well be told the position at each step and add to one list of streams: fields are left as they were
entered, and no two streams have one number. `plan_passed` says that this makes the same plans and takes the same notes.
-/

namespace QueryPlanner

namespace Planning

def withoutDeferred (s : Planning) : Planning := { s with deferred := [] }

/-- The state, with the streams of the parts around the one that is being built. -/
def behind (outer : List (Nat × StreamPlan)) (s : Planning) : Planning := { s with streams := outer ++ s.streams }

/-- Streams have been completed with numbers that were still to be given. -/
structure Numbers (s s' : Planning) (new : List (Nat × StreamPlan)) : Prop where
  le : s.nextStream ≤ s'.nextStream
  streams : s'.streams = s.streams ++ new
  distinct : (new.map (·.1)).Nodup
  between : ∀ e ∈ new, s.nextStream ≤ e.1 ∧ e.1 < s'.nextStream

def IsNumbered (s : Planning) : Prop := ∀ e ∈ s.streams, e.1 < s.nextStream

namespace Numbers

variable {s s₁ s' : Planning} {new new' : List (Nat × StreamPlan)}

theorem none (le : s.nextStream ≤ s'.nextStream) (same : s'.streams = s.streams) : s.Numbers s' [] :=
  ⟨le, same.trans (List.append_nil _).symm, List.nodup_nil, nofun⟩

theorem refl (s : Planning) : s.Numbers s [] := .none (Nat.le_refl _) rfl

theorem trans (first : s.Numbers s₁ new) (second : s₁.Numbers s' new') : s.Numbers s' (new ++ new') where
  le := Nat.le_trans first.le second.le
  streams := by rw [second.streams, first.streams, List.append_assoc]
  distinct := by
    rw [List.map_append]
    refine List.nodup_append.2 ⟨first.distinct, second.distinct, fun i member j member' => ?_⟩
    obtain ⟨e, here, rfl⟩ := List.mem_map.1 member
    obtain ⟨e', there, rfl⟩ := List.mem_map.1 member'
    have := first.between e here
    have := second.between e' there
    omega
  between := by
    refine List.forall_mem_append.2 ⟨fun e here => ?_, fun e there => ?_⟩
    · exact ⟨(first.between e here).1, Nat.lt_of_lt_of_le (first.between e here).2 second.le⟩
    · exact ⟨Nat.le_trans first.le (second.between e there).1, (second.between e there).2⟩

theorem isNumbered (numbers : s.Numbers s' new) (numbered : s.IsNumbered) : s'.IsNumbered := by
  intro e member
  rw [numbers.streams] at member
  obtain before | here := List.mem_append.1 member
  · exact Nat.lt_of_lt_of_le (numbered e before) numbers.le
  · exact (numbers.between e here).2

end Numbers

end Planning

namespace Planner
open Run

theorem putStream_of_new {streams : List (Nat × StreamPlan)} {entry : Nat × StreamPlan}
    (new : ∀ e ∈ streams, e.1 ≠ entry.1) : putStream streams entry = streams ++ [entry] := by
  have none : streams.any (·.1 = entry.1) = false := List.any_eq_false.2 fun e member => by simpa using new e member
  rw [putStream, none, if_neg Bool.false_ne_true]

theorem foldl_putStream {streams new : List (Nat × StreamPlan)} (distinct : (new.map (·.1)).Nodup)
    (apart : ∀ e ∈ streams, ∀ e' ∈ new, e.1 ≠ e'.1) : new.foldl putStream streams = streams ++ new := by
  induction new generalizing streams with
  | nil => exact (List.append_nil _).symm
  | cons first rest ih =>
      rw [List.map_cons, List.nodup_cons] at distinct
      rw [List.foldl_cons, putStream_of_new fun e member => apart e member first List.mem_cons_self, ih distinct.2,
        ← List.append_cons]
      refine List.forall_mem_append.2 ⟨fun e member e' later => apart e member e' (List.mem_cons_of_mem _ later), ?_⟩
      refine List.forall_mem_singleton.2 fun e' later same => distinct.1 ?_
      rw [same]
      exact List.mem_map_of_mem later

def takeDeferred : Planner (List DeferredFragment) := do
  let s ← get
  set { s with deferred := [] }
  return s.deferred

abbrev Below := Position → Text → List SelectionSet → Planner (Option SelectionPlan)

def resolvePlan (below : Below) (position : Position) (field : PlanField) : Planner ResolvePlan := do
  match field.fieldNodes.filterMap (·.selectionSet) with
  | [] => return .resolver field
  | sets => return .composite field (← below (position.push field) field.resultType.namedType sets)

def fieldPlan (provider : MetadataProvider) (below : Below) (position : Position) (group : FieldGroup) :
    Planner FieldPlan := do
  let field ← planField provider position group
  match field.streaming with
  | .error reason =>
    reason.forM report
    return .resolve (← resolvePlan below position field)
  | .ok options =>
    let id ← takeStreamId
    let node ← resolvePlan below position field
    let stream : StreamPlan := ⟨id, options.label, field.path, options.initialCount, options.condition, node⟩
    modify fun s => { s with streams := s.streams ++ [(id, stream)] }
    report (.fieldStreamed field.path id)
    return .stream stream

def selectionPlan (provider : MetadataProvider) : Nat → Below
  | 0, _, _, _ => return none
  | height + 1, position, parentType, sets => do
    let groups ← collect position parentType sets
    return SelectionPlan.ofFields (← groups.mapM (fieldPlan provider (selectionPlan provider height) position))

def deferPlan (provider : MetadataProvider) : Nat → DeferredFragment → Planner DeferPlan
  | 0, f => return ⟨f.label, f.path, f.parentType, f.condition, none, []⟩
  | depth + 1, f => do
    let node ← selectionPlan provider f.selectionSet.height (.branch f.path) f.parentType [f.selectionSet]
    let nested ← takeDeferred
    return ⟨f.label, f.path, f.parentType, f.condition, node, ← nested.mapM (deferPlan provider depth)⟩

def subscriptionPlan (provider : MetadataProvider) (operation : PreparedOperation) (rootType : Text) :
    Planner RootPlan := do
  let set := operation.selectionSet
  let groups ← collect {} rootType [set]
  if let aside :: _ := (← get).deferred then
    failSubscription operation "must not defer its top level field." (.ofLocation? aside.selectionSet.loc)
  match groups with
  | [group] =>
    match ← fieldPlan provider (selectionPlan provider set.height) {} group with
    | .resolve plan => return .subscription plan.field plan.selections?
    | .stream plan =>
      failSubscription operation "must not stream its top level field."
        ((Whereabouts.ofLocation? group.first.loc).withPath plan.path)
  | _ => failSubscription operation "must select only one top level field." (.ofLocation? set.loc)

def rootPlan (provider : MetadataProvider) (operation : PreparedOperation) (rootType : Text) : Planner RootPlan :=
  match operation.type with
  | .subscription => subscriptionPlan provider operation rootType
  | _ =>
    let set := operation.selectionSet
    .selections <$> selectionPlan provider set.height {} rootType [set]

def queryPlan (provider : MetadataProvider) (operation : PreparedOperation) : Planner QueryPlan := do
  let rootType ← rootType provider operation
  let root ← rootPlan provider operation rootType
  let aside ← takeDeferred
  let deferred ← aside.mapM (deferPlan provider operation.selectionSet.height)
  let streams := orderStreams (← get).streams
  report (.planBuilt operation.name operation.type (countDeferred deferred) streams.length)
  return { root := ⟨operation.type, operation.name, root⟩, streams, deferred }

/-! ## Steps -/

def IsStep (p : Planner α) : Prop :=
  ∀ outer s, match p s with
    | .ok a s' => p (s.behind outer) = .ok a (s'.behind outer) ∧ s.Numbers s' []
    | .error e s' => p (s.behind outer) = .error e (s'.behind outer)

namespace IsStep

variable {p : Planner α} {f : α → Planner β}

theorem pure (a : α) : IsStep (Pure.pure a : Planner α) := fun _ s => ⟨rfl, .refl s⟩

theorem throw (failure : PlanFailure) : IsStep (MonadExcept.throw failure : Planner α) := fun _ _ => rfl

theorem note (change : Planning → Planning) (same : ∀ outer s, change (s.behind outer) = (change s).behind outer)
    (numbers : ∀ s : Planning, s.Numbers (change s) []) : IsStep (modify change : Planner Unit) :=
  fun outer s => ⟨congrArg (EStateM.Result.ok ()) (same outer s), numbers s⟩

theorem bind (first : IsStep p) (next : ∀ a, IsStep (f a)) : IsStep (p >>= f) := by
  intro outer s
  have here := first outer s
  cases run : p s with
  | error e s' =>
      rw [run] at here
      rw [bind_of_error run]
      exact bind_of_error here
  | ok a s' =>
      rw [run] at here
      have there := next a outer s'
      rw [bind_of_ok run, bind_of_ok here.1]
      cases run' : f a s' with
      | error e s'' =>
          rw [run'] at there
          exact there
      | ok b s'' =>
          rw [run'] at there
          exact ⟨there.1, here.2.trans there.2⟩

end IsStep

theorem report_isStep (event : Event) : IsStep (report event) :=
  .note _ (fun _ _ => rfl) fun _ => .none (Nat.le_refl _) rfl

theorem fail_isStep (cause : Cause) (whereabouts : Whereabouts) : IsStep (fail cause whereabouts : Planner α) :=
  .throw _

theorem collect_isStep (position : Position) (parentType : Text) (sets : List SelectionSet) :
    IsStep (collect position parentType sets) := by
  have recorded (found : List Flattened) : IsStep (record found) := by
    refine .bind (.note _ (fun _ _ => rfl) fun _ => .none (Nat.le_refl _) rfl) fun _ => ?_
    cases found.findSome? (·.spread?) with
    | none => exact .pure ()
    | some name => exact .throw _
  exact (recorded _).bind fun _ => .pure _

variable {provider : MetadataProvider}

theorem metadata_isStep (group : FieldGroup) (path : ResponsePath) : IsStep (metadata provider group path) := by
  have asked : IsStep (lookup provider group.parentType group.fieldName) :=
    .bind (.note _ (fun _ _ => rfl) fun _ => .none (Nat.le_refl _) rfl) fun _ => .pure _
  unfold metadata
  by_cases typename : group.fieldName = FieldMetadata.typenameField
  · rw [if_pos typename]
    exact .pure _
  · rw [if_neg typename]
    refine asked.bind fun known => ?_
    cases known with
    | none => exact fail_isStep _ _
    | some metadata => exact .pure metadata

theorem resultType_isStep (group : FieldGroup) (declared : TypeRef) (path : ResponsePath) :
    IsStep (resultType group declared path) := by
  unfold resultType
  cases declared.modifiedBy group.first.modifier with
  | some type => exact .pure type
  | none =>
      cases group.first.modifier with
      | none => exact .throw _
      | some modifier => exact fail_isStep _ _

theorem planField_isStep (position : Position) (group : FieldGroup) : IsStep (planField provider position group) :=
  (metadata_isStep _ _).bind fun _ => (resultType_isStep _ _ _).bind fun _ => .pure _

theorem rootType_isStep (operation : PreparedOperation) : IsStep (rootType provider operation) := by
  unfold rootType
  cases provider.rootType? operation.type with
  | some type => exact .pure type
  | none => exact fail_isStep _ _

end Planner

/-! ## The builder -/

namespace Builder
open Planner Run

variable {provider : MetadataProvider} {position inside position' : Position} {outer : List (Nat × StreamPlan)}
  {s t : Planning} {rel rel' : Planning → Planning → Prop}

def EndsAlike (rel : Planning → Planning → Prop) (position : Position) :
    EStateM.Result PlanFailure Planning (α × Position) → EStateM.Result PlanFailure Planning α → Prop
  | .ok (a, here) s', .ok b t => a = b ∧ here = position ∧ rel s' t
  | .error e s', .error e' t => e = e' ∧ s'.log = t.log ∧ s'.lookups = t.lookups
  | _, _ => False

theorem EndsAlike.bind {b : Builder α} {p : Planner α} {f : α → Builder β} {g : α → Planner β}
    (first : EndsAlike rel inside (b position s) (p t))
    (next : ∀ a s' t', b position s = .ok (a, inside) s' → rel s' t' →
      EndsAlike rel' position' (f a inside s') (g a t')) :
    EndsAlike rel' position' ((b >>= f) position s) ((p >>= g) t) := by
  change EndsAlike rel' position' ((b position >>= fun r => f r.1 r.2) s) _
  cases left : b position s <;> cases right : p t <;> rw [left, right] at first
  case ok.ok r s' a t' =>
    obtain ⟨a, here⟩ := r
    obtain ⟨rfl, rfl, related⟩ := first
    rw [bind_of_ok left, bind_of_ok right]
    exact next a s' t' left related
  case error.error =>
    rw [bind_of_error left, bind_of_error right]
    exact first
  all_goals exact first.elim

def Agree (outer : List (Nat × StreamPlan)) (s s' t : Planning) : Prop :=
  t = s'.behind outer ∧ ∃ new, s.Numbers s' new

/-- The builder at the position does as planning with the position passed does, however many streams came before. -/
def Follows (position : Position) (b : Builder α) (p : Planner α) : Prop :=
  ∀ ⦃outer s⦄, s.IsNumbered → EndsAlike (Agree outer s) position (b position s) (p (s.behind outer))

namespace Follows

variable {b : Builder α} {p : Planner α} {f : α → Builder β} {g : α → Planner β}

theorem pure (a : α) : Follows position (Pure.pure a) (Pure.pure a) := fun _ s _ => ⟨rfl, rfl, rfl, [], .refl s⟩

theorem step (isStep : IsStep p) : Follows position (liftM p) p := by
  intro outer s _
  have here := isStep outer s
  change EndsAlike _ position ((p >>= fun a => Pure.pure (a, position)) s) _
  cases run : p s with
  | ok a s' =>
      rw [run] at here
      rw [bind_of_ok run, here.1]
      exact ⟨rfl, rfl, rfl, [], here.2⟩
  | error e s' =>
      rw [run] at here
      rw [bind_of_error run, here]
      exact ⟨rfl, rfl, rfl⟩

theorem bind (first : Follows position b p) (next : ∀ a, Follows position (f a) (g a)) :
    Follows position (b >>= f) (p >>= g) := by
  intro outer s numbered
  refine (first numbered).bind fun a s₁ t₁ _ ⟨related, new, numbers⟩ => ?_
  subst related
  have second := @next a outer s₁ (numbers.isNumbered numbered)
  cases left : f a position s₁ <;> cases right : g a (s₁.behind outer) <;> rw [left, right] at second
  case ok.ok =>
    obtain ⟨same, here, related, new', numbers'⟩ := second
    exact ⟨same, here, related, _, numbers.trans numbers'⟩
  case error.error => exact second
  all_goals exact second.elim

theorem get {f : Position → Builder α} (follows : Follows position (f position) p) :
    Follows position (MonadState.get >>= f) p := follows

theorem setAside {f : List DeferredFragment → Builder β} {h : Planning → Planner β}
    (next : ∀ s, Follows position (f s.deferred) (h s)) : Follows position (setAside >>= f) (MonadState.get >>= h) :=
  fun _ s numbered => next (s.behind _) numbered

theorem mapM {items : List α} (each : ∀ a, Follows position (f a) (g a)) :
    Follows position (items.mapM f) (items.mapM g) := by
  induction items with
  | nil => exact pure []
  | cons a items ih =>
      rw [List.mapM_cons, List.mapM_cons]
      exact (each a).bind fun first => ih.bind fun rest => pure _

end Follows

/-! ## Selections -/

theorem leave_push (field : PlanField) : leave (position.push field) s = .ok ((), position) s := by
  unfold leave
  simp only [bind, StateT.bind, MonadState.get, getThe, MonadStateOf.get, StateT.get, pure, EStateM.bind, EStateM.pure]
  rw [Position.pop_push]
  rfl

def FollowsBelow (below : Below) (below' : Planner.Below) : Prop :=
  ∀ position parentType sets, Follows position (below parentType sets) (below' position parentType sets)

variable {below : Below} {below' : Planner.Below}

/-- What was entered is left again, so that the next step is taken at the position of the step before. -/
theorem resolvePlan_follows (follows : FollowsBelow below below') (field : PlanField) :
    Follows position (resolvePlan below field) (Planner.resolvePlan below' position field) := by
  unfold resolvePlan Planner.resolvePlan
  cases field.fieldNodes.filterMap (·.selectionSet) with
  | nil => exact .pure _
  | cons first rest =>
      intro outer s numbered
      have inner := @follows (position.push field) field.resultType.namedType (first :: rest) outer s numbered
      change EndsAlike _ position ((below field.resultType.namedType (first :: rest) >>= fun selections =>
        leave >>= fun _ => pure (ResolvePlan.composite field selections)) (position.push field) s)
          ((below' (position.push field) field.resultType.namedType (first :: rest) >>= fun selections =>
            pure (ResolvePlan.composite field selections)) (s.behind outer))
      refine inner.bind fun selections s' t' _ agree => ?_
      have left : leave (position.push field) s' = .ok ((), position) s' := leave_push field
      have run : (leave >>= fun _ => (pure (.composite field selections) : Builder ResolvePlan)) (position.push field) s' =
          .ok (.composite field selections, position) s' := bind_of_ok left
      rw [run]
      exact ⟨rfl, rfl, agree⟩

theorem put_numbers {s' : Planning} {new : List (Nat × StreamPlan)} (stream : StreamPlan) (numbered : s.IsNumbered)
    (numbers : { s with nextStream := s.nextStream + 1 }.Numbers s' new) :
    putStream s'.streams (s.nextStream, stream) = s'.streams ++ [(s.nextStream, stream)] ∧
      s.Numbers { s' with streams := s'.streams ++ [(s.nextStream, stream)] } (new ++ [(s.nextStream, stream)]) := by
  have later (e : Nat × StreamPlan) (member : e ∈ new) : s.nextStream < e.1 := (numbers.between e member).1
  refine ⟨putStream_of_new fun e member => ?_, ?_⟩
  · rw [numbers.streams] at member
    obtain before | member := List.mem_append.1 member
    · exact Nat.ne_of_lt (numbered e before)
    · exact Nat.ne_of_gt (later e member)
  · refine ⟨Nat.le_of_succ_le numbers.le, ?_, ?_, ?_⟩
    · rw [numbers.streams, List.append_assoc]
    · rw [List.map_append]
      refine List.nodup_append.2 ⟨numbers.distinct, List.pairwise_singleton _ _, fun i member j last => ?_⟩
      obtain ⟨e, here, rfl⟩ := List.mem_map.1 member
      obtain rfl := List.mem_singleton.1 last
      exact Nat.ne_of_gt (later e here)
    · refine List.forall_mem_append.2 ⟨fun e member => ?_, ?_⟩
      · exact ⟨Nat.le_of_lt (later e member), (numbers.between e member).2⟩
      · exact List.forall_mem_singleton.2 ⟨Nat.le_refl _, numbers.le⟩

theorem fieldPlan_follows (follows : FollowsBelow below below') (group : FieldGroup) :
    Follows position (fieldPlan provider below group) (Planner.fieldPlan provider below' position group) := by
  refine .get (.bind (.step (planField_isStep _ _)) fun field => ?_)
  cases streaming : field.streaming with
  | error reason =>
      have noted : IsStep (reason.forM report) := by
        cases reason with
        | none => exact .pure _
        | some event => exact report_isStep event
      exact (Follows.step noted).bind fun _ => (resolvePlan_follows follows field).bind fun _ => .pure _
  | ok options =>
      intro outer s numbered
      have first : EndsAlike (fun s' t => s' = { s with nextStream := s.nextStream + 1 } ∧ t = s'.behind outer) position
          ((liftM takeStreamId : Builder Nat) position s) (takeStreamId (s.behind outer)) := ⟨rfl, rfl, rfl, rfl⟩
      refine first.bind fun id s₁ t₁ run ⟨_, _⟩ => ?_
      obtain ⟨taken, rfl⟩ := EStateM.Result.ok.inj run
      obtain rfl : s.nextStream = id := congrArg Prod.fst taken
      subst t₁
      -- The number was taken before anything below was planned, so that the streams there have greater ones.
      have given : Planning.IsNumbered { s with nextStream := s.nextStream + 1 } :=
        fun e member => Nat.lt_succ_of_lt (numbered e member)
      refine (resolvePlan_follows follows field given).bind fun node s₂ t₂ _ ⟨agrees, new, numbers⟩ => ?_
      subst agrees
      let stream : StreamPlan :=
        ⟨s.nextStream, options.label, field.path, options.initialCount, options.condition, node⟩
      obtain ⟨put, numbers'⟩ := put_numbers stream numbered numbers
      refine ⟨rfl, rfl, ?_, _, numbers'.trans (.none (Nat.le_refl _) put)⟩
      refine congrArg (Planning.mk s₂.nextStream _ s₂.lookups s₂.deferred) ?_
      exact (List.append_assoc _ _ _).trans (congrArg (outer ++ ·) put.symm)

theorem selectionPlan_follows (height : Nat) :
    FollowsBelow (selectionPlan provider height) (Planner.selectionPlan provider height) := by
  induction height with
  | zero => exact fun _ _ _ => .pure none
  | succ height ih =>
      exact fun position parentType sets => .get <| (Follows.step (collect_isStep _ _ _)).bind fun groups =>
        (Follows.mapM fun group => fieldPlan_follows ih group).bind fun _ => .pure _

/-! ## Fragments set aside -/

def AgreeAside (outer : List (Nat × StreamPlan)) (s s' t : Planning) : Prop :=
  t = (s'.behind outer).withoutDeferred ∧ ∃ new, s.Numbers s' new

theorem setAside_agrees (s : Planning) :
    EndsAlike (AgreeAside outer s) position (setAside position s) (takeDeferred (s.behind outer)) :=
  ⟨rfl, rfl, rfl, [], .refl s⟩

def FollowsAside (b : Builder α) (p : Planner α) : Prop :=
  ∀ ⦃position outer s⦄, s.IsNumbered →
    EndsAlike (AgreeAside outer s) position (b position s) (p (s.behind outer).withoutDeferred)

theorem FollowsAside.mapM {f : α → Builder β} {g : α → Planner β} {items : List α}
    (each : ∀ a, FollowsAside (f a) (g a)) : FollowsAside (items.mapM f) (items.mapM g) := by
  induction items with
  | nil => exact fun _ _ s _ => ⟨rfl, rfl, rfl, [], .refl s⟩
  | cons a items ih =>
      rw [List.mapM_cons, List.mapM_cons]
      intro position outer s numbered
      refine (each a numbered).bind fun first s₁ t₁ _ ⟨agrees, new, numbers⟩ => ?_
      subst agrees
      refine (ih (numbers.isNumbered numbered)).bind fun rest s₂ t₂ _ ⟨agrees', new', numbers'⟩ => ?_
      exact ⟨rfl, rfl, agrees', _, numbers.trans numbers'⟩

/-- The streams of a branch are new to the part around it, so that they are put behind those completed there. -/
theorem inBranch_follows {b : Builder α} {p : Planner α} (path : ResponsePath)
    (follows : ∀ ⦃outer s⦄, s.IsNumbered → EndsAlike (AgreeAside outer s) (.branch path) (b (.branch path) s)
      (p (s.behind outer))) : FollowsAside (inBranch path b) p := by
  intro position outer s numbered
  -- The branch starts with no stream of its own: all completed so far belong to the parts around it.
  let inner : Planning := { s with deferred := [], streams := [] }
  have start : (s.behind outer).withoutDeferred = inner.behind (outer ++ s.streams) :=
    congrArg (Planning.mk _ _ _ _) (List.append_nil _).symm
  have none : inner.IsNumbered := nofun
  have run := @follows (outer ++ s.streams) inner none
  rw [start]
  rw [← bind_pure p]
  change EndsAlike _ position ((b >>= fun result => do
    set position
    modifyThe Planning fun s' => { s' with deferred := s.deferred, streams := s'.streams.foldl putStream s.streams }
    return result) (.branch path) inner) _
  refine run.bind fun result s' t _ ⟨agrees, new, numbers⟩ => ?_
  subst agrees
  have put : s'.streams.foldl putStream s.streams = s.streams ++ s'.streams := by
    rw [numbers.streams]
    refine foldl_putStream numbers.distinct fun e before e' member => Nat.ne_of_lt ?_
    exact Nat.lt_of_lt_of_le (numbered e before) (numbers.between e' member).1
  refine ⟨rfl, rfl, ?_, new, numbers.le, ?_, numbers.distinct, numbers.between⟩
  · refine congrArg (Planning.mk s'.nextStream s'.log s'.lookups []) ?_
    exact (List.append_assoc _ _ _).trans (congrArg (outer ++ ·) put.symm)
  · exact put.trans (congrArg (s.streams ++ ·) numbers.streams)

theorem deferPlan_follows (depth : Nat) (f : DeferredFragment) :
    FollowsAside (deferPlan provider depth f) (Planner.deferPlan provider depth f) := by
  induction depth generalizing f with
  | zero => exact fun _ _ s _ => ⟨rfl, rfl, rfl, [], .refl s⟩
  | succ depth ih =>
      refine inBranch_follows f.path fun outer s numbered => ?_
      refine (selectionPlan_follows _ _ _ _ numbered).bind fun node s₁ t₁ _ ⟨agrees, new, numbers⟩ => ?_
      subst agrees
      refine (setAside_agrees s₁).bind fun aside s₂ t₂ _ ⟨agrees', new', numbers'⟩ => ?_
      subst agrees'
      have given := numbers'.isNumbered (numbers.isNumbered numbered)
      refine (FollowsAside.mapM ih given).bind fun nested s₃ t₃ _ ⟨agrees'', new'', numbers''⟩ => ?_
      exact ⟨rfl, rfl, agrees'', _, (numbers.trans numbers').trans numbers''⟩

/-! ## Operations -/

theorem subscriptionPlan_follows (operation : PreparedOperation) (rootType : Text) :
    Follows {} (subscriptionPlan provider operation rootType)
      (Planner.subscriptionPlan provider operation rootType) := by
  have fails {α : Type} (problem : Text) (whereabouts : Whereabouts) :
      Follows {} (liftM (failSubscription operation problem whereabouts) : Builder α)
        (failSubscription operation problem whereabouts) := .step (fail_isStep _ _)
  refine .get (.bind (.step (collect_isStep _ _ _)) fun groups => .setAside fun s => ?_)
  have whole (group : FieldGroup) : Follows {}
      (fieldPlan provider (selectionPlan provider operation.selectionSet.height) group)
      (Planner.fieldPlan provider (Planner.selectionPlan provider operation.selectionSet.height) {} group) :=
    fieldPlan_follows (selectionPlan_follows _) group
  cases s.deferred
  -- A fragment set aside fails the run before the groups matter, so the rest may be the same in both cases.
  case' cons => refine (fails _ _).bind fun _ => ?_
  all_goals
    match groups with
    | [] => exact fails _ _
    | _ :: _ :: _ => exact fails _ _
    | [group] =>
        refine (whole group).bind fun node => ?_
        cases node with
        | resolve plan => exact .pure _
        | stream plan => exact fails _ _

theorem rootPlan_follows (operation : PreparedOperation) (rootType : Text) :
    Follows {} (rootPlan provider operation rootType) (Planner.rootPlan provider operation rootType) := by
  have selections : Follows {} (RootPlan.selections <$> selectionPlan provider operation.selectionSet.height rootType
      [operation.selectionSet]) (RootPlan.selections <$> Planner.selectionPlan provider operation.selectionSet.height {} rootType
        [operation.selectionSet]) := by
    rw [map_eq_pure_bind, map_eq_pure_bind]
    exact (selectionPlan_follows _ _ _ _).bind fun _ => .pure _
  unfold rootPlan Planner.rootPlan
  cases operation.type with
  | subscription => exact subscriptionPlan_follows operation rootType
  | query => exact selections
  | mutation => exact selections

theorem queryPlan_follows (provider : MetadataProvider) (operation : PreparedOperation) :
    EndsAlike (fun s' t => s'.log = t.log ∧ s'.lookups = t.lookups) {} (queryPlan provider operation {} {})
      (Planner.queryPlan provider operation {}) := by
  have none : Planning.IsNumbered {} := nofun
  refine (@Follows.step _ {} _ (rootType_isStep operation) [] {} none).bind fun type s₁ t₁ _ ⟨agrees, new, typed⟩ => ?_
  subst agrees
  have typed := typed.isNumbered none
  refine (rootPlan_follows operation type typed).bind fun root s₂ t₂ _ ⟨agrees, new, rooted⟩ => ?_
  subst agrees
  have rooted := rooted.isNumbered typed
  refine (setAside_agrees s₂).bind fun aside s₃ t₃ _ ⟨agrees, new, taken⟩ => ?_
  subst agrees
  have planned : FollowsAside (aside.mapM (deferPlan provider operation.selectionSet.height))
      (aside.mapM (Planner.deferPlan provider operation.selectionSet.height)) := .mapM (deferPlan_follows _)
  refine (planned (taken.isNumbered rooted)).bind fun deferred s₄ t₄ _ ⟨agrees, _⟩ => ?_
  subst agrees
  exact ⟨rfl, rfl, rfl, rfl⟩

end Builder

theorem PreparedOperation.plan_passed (operation : PreparedOperation) (provider : MetadataProvider) :
    match Planner.queryPlan provider operation {} with
    | .ok plan s => ∃ t : Planning, operation.plan provider = (.ok plan, t) ∧ t.log = s.log ∧ t.lookups = s.lookups
    | .error failure s =>
      ∃ t : Planning, operation.plan provider = (.error failure, t) ∧ t.log = s.log ∧ t.lookups = s.lookups := by
  have alike := Builder.queryPlan_follows provider operation
  unfold PreparedOperation.plan
  cases left : Builder.queryPlan provider operation {} {} <;> cases right : Planner.queryPlan provider operation {} <;>
    rw [left, right] at alike
  case ok.ok r t plan s =>
    obtain ⟨same, -, notes⟩ := alike
    exact ⟨t, by rw [← same], notes⟩
  case error.error failure t failure' s =>
    obtain ⟨same, notes⟩ := alike
    exact ⟨t, by rw [← same], notes⟩
  all_goals exact alike.elim

section
variable {operation : PreparedOperation} {provider : MetadataProvider} {plan : QueryPlan} {failure : PlanFailure}

theorem PreparedOperation.plan_fst : (operation.plan provider).1 =
    match Planner.queryPlan provider operation {} with
    | .ok plan _ => .ok plan
    | .error failure _ => .error failure := by
  have passed := operation.plan_passed provider
  cases run : Planner.queryPlan provider operation {} <;>
    · rw [run] at passed
      obtain ⟨t, same, -⟩ := passed
      exact congrArg Prod.fst same

theorem PreparedOperation.plan_ok_iff : (operation.plan provider).1 = .ok plan ↔
    ∃ s, Planner.queryPlan provider operation {} = .ok plan s := by
  rw [plan_fst]
  cases Planner.queryPlan provider operation {} <;> simp

theorem PreparedOperation.plan_error_iff : (operation.plan provider).1 = .error failure ↔
    ∃ s, Planner.queryPlan provider operation {} = .error failure s := by
  rw [plan_fst]
  cases Planner.queryPlan provider operation {} <;> simp

end

end QueryPlanner
