import QueryPlanner.Proofs.Plan.StreamIndex
import QueryPlanner.Proofs.Plan.Subscriptions

namespace QueryPlanner

namespace Event

def deferred? : Event → Option ResponsePath
  | fragmentDeferred path _ => some path
  | _ => none

def streamed? : Event → Option (ResponsePath × Nat)
  | fieldStreamed path id => some (path, id)
  | _ => none

def isPlanBuilt : Event → Bool
  | planBuilt .. => true
  | _ => false

def IsRemark (e : Event) : Prop := e.deferred? = none ∧ e.streamed? = none ∧ e.isPlanBuilt = false

end Event

def QueryPlan.deferNodes (plan : QueryPlan) : List DeferPlan := deferredWithNested plan.deferred

/-- The log tells of each deferred fragment and each stream of the plan, and at its end how many of both there are. -/
structure QueryPlan.IsReportedIn (plan : QueryPlan) (log : List Event) : Prop where
  deferred : (log.filterMap (·.deferred?)).Perm (plan.deferNodes.map (·.path))
  streamed : (log.filterMap (·.streamed?)).Perm (plan.streamNodes.map fun stream => (stream.path, stream.id))
  last : ∃ before, (∀ e ∈ before, e.isPlanBuilt = false) ∧ log = before ++
    [.planBuilt plan.root.name plan.root.type plan.deferNodes.length plan.streamNodes.length]

theorem DeferPlan.withNested_eq (plan : DeferPlan) : plan.withNested = plan :: deferredWithNested plan.deferred := by
  cases plan
  rfl

mutual

theorem DeferPlan.count_eq : (plan : DeferPlan) → plan.count = plan.withNested.length
  | ⟨_, _, _, _, _, deferred⟩ => congrArg Nat.succ (countDeferred_eq deferred)

theorem countDeferred_eq : (plans : List DeferPlan) → countDeferred plans = (deferredWithNested plans).length
  | [] => rfl
  | plan :: rest => by
      rw [countDeferred, deferredWithNested, List.length_append, plan.count_eq, countDeferred_eq rest]

end

theorem Deferral.decide_remark {scope : Scope} {parentType : Text} {directives : List Directive} {reason : Event}
    (inlined : Deferral.decide scope parentType directives = .inline (some reason)) : reason.IsRemark := by
  unfold Deferral.decide at inlined
  split at inlined
  · exact nomatch Deferral.inline.inj inlined
  · dsimp only at inlined
    split_ifs at inlined
    · obtain rfl := Option.some.inj (Deferral.inline.inj inlined)
      exact ⟨rfl, rfl, rfl⟩
    · obtain rfl := Option.some.inj (Deferral.inline.inj inlined)
      exact ⟨rfl, rfl, rfl⟩

def Flattened.Remarks : Flattened → Prop
  | inlined reason => reason.IsRemark
  | _ => True

mutual

theorem Selection.flatten_remarks (scope : Scope) (condition : Option Text) : (selection : Selection) →
    ∀ x ∈ selection.flatten scope condition, x.Remarks
  | .field f => by
      rw [Selection.flatten]
      split_ifs
      · exact List.forall_mem_nil _
      · exact List.forall_mem_singleton.2 trivial
  | .spread s => by
      rw [Selection.flatten]
      exact List.forall_mem_singleton.2 trivial
  | .inline ⟨typeCondition, directives, set, _⟩ => by
      have inner := set.flatten_remarks scope (narrow scope.parentType condition typeCondition)
      rw [Selection.flatten]
      split_ifs
      · exact List.forall_mem_nil _
      · dsimp only
        split
        · exact inner
        · rename_i reason inlined
          exact List.forall_mem_cons.2 ⟨Deferral.decide_remark inlined, inner⟩
        · exact List.forall_mem_singleton.2 trivial

theorem SelectionSet.flatten_remarks (scope : Scope) (condition : Option Text) : (set : SelectionSet) →
    ∀ x ∈ set.flatten scope condition, x.Remarks
  | ⟨selections, _⟩ => flattenSelections_remarks scope condition selections

theorem flattenSelections_remarks (scope : Scope) (condition : Option Text) : (selections : List Selection) →
    ∀ x ∈ flattenSelections scope condition selections, x.Remarks
  | [] => List.forall_mem_nil _
  | s :: rest => List.forall_mem_append.2
      ⟨s.flatten_remarks scope condition, flattenSelections_remarks scope condition rest⟩

end

theorem Scope.found_remarks (scope : Scope) (sets : List SelectionSet) : ∀ x ∈ scope.found sets, x.Remarks := by
  intro x member
  obtain ⟨set, -, met⟩ := List.mem_flatMap.1 member
  exact set.flatten_remarks scope none x met

section
variable {found : List Flattened} (remarks : ∀ x ∈ found, x.Remarks)

include remarks

theorem deferred?_noted : (found.filterMap (·.event?)).filterMap (·.deferred?) =
    (found.filterMap (·.deferred?)).map (·.path) := by
  rw [List.filterMap_filterMap, List.map_filterMap]
  refine List.filterMap_congr fun x member => ?_
  cases x with
  | inlined reason => exact (remarks _ member).1
  | _ => rfl

theorem streamed?_noted : (found.filterMap (·.event?)).filterMap (·.streamed?) = [] := by
  rw [List.filterMap_filterMap, List.filterMap_eq_nil_iff]
  intro x member
  cases x with
  | inlined reason => exact (remarks _ member).2.1
  | _ => rfl

theorem isPlanBuilt_noted : ∀ e ∈ found.filterMap (·.event?), e.isPlanBuilt = false := by
  intro e member
  obtain ⟨x, met, event⟩ := List.mem_filterMap.1 member
  have remark := remarks x met
  cases x with
  | inlined reason => exact Option.some.inj event ▸ remark.2.2
  | deferred f => exact Option.some.inj event ▸ rfl
  | _ => contradiction

end

theorem PlanField.streaming_remark {f : PlanField} {reason : Option Event} (plain : f.streaming = .error reason) :
    ∀ e ∈ reason, e.IsRemark := by
  unfold streaming at plain
  split at plain
  · rw [← Except.error.inj plain]
    exact nofun
  · dsimp only at plain
    split_ifs at plain <;> rw [← Except.error.inj plain] <;> rintro _ ⟨⟩ <;> exact ⟨rfl, rfl, rfl⟩

/-- What is reported between two states: fragments deferred at the given paths and the given streams, but no plan. -/
def Planning.Reports (s s' : Planning) (paths : List ResponsePath) (streams : List StreamPlan) : Prop :=
  ∃ events, s'.log = s.log ++ events ∧ (events.filterMap (·.deferred?)).Perm paths ∧
    (events.filterMap (·.streamed?)).Perm (streams.map fun stream => (stream.path, stream.id)) ∧
    ∀ e ∈ events, e.isPlanBuilt = false

namespace Planning.Reports

variable {s s₁ s' : Planning} {paths paths' : List ResponsePath} {streams streams' : List StreamPlan}

theorem of_log_eq (same : s'.log = s.log) : s.Reports s' [] [] :=
  ⟨[], by rw [same, List.append_nil], .nil, .nil, List.forall_mem_nil _⟩

theorem trans (first : s.Reports s₁ paths streams) (second : s₁.Reports s' paths' streams') :
    s.Reports s' (paths ++ paths') (streams ++ streams') := by
  obtain ⟨events, log, deferred, streamed, unbuilt⟩ := first
  obtain ⟨events', log', deferred', streamed', unbuilt'⟩ := second
  refine ⟨events ++ events', ?_, ?_, ?_, List.forall_mem_append.2 ⟨unbuilt, unbuilt'⟩⟩
  · rw [log', log, List.append_assoc]
  · rw [List.filterMap_append]
    exact deferred.append deferred'
  · rw [List.filterMap_append, List.map_append]
    exact streamed.append streamed'

theorem perm (reports : s.Reports s' paths streams) (same : paths.Perm paths') (same' : streams.Perm streams') :
    s.Reports s' paths' streams' := by
  obtain ⟨events, log, deferred, streamed, unbuilt⟩ := reports
  exact ⟨events, log, deferred.trans same, streamed.trans (same'.map _), unbuilt⟩

theorem remark {e : Event} (remark : e.IsRemark) (log : s'.log = s.log ++ [e]) : s.Reports s' [] [] := by
  obtain ⟨deferred, streamed, unbuilt⟩ := remark
  refine ⟨[e], log, ?_, ?_, List.forall_mem_singleton.2 unbuilt⟩
  · rw [List.filterMap_cons_none deferred]
    rfl
  · rw [List.filterMap_cons_none streamed]
    rfl

theorem noting (s : Planning) (scope : Scope) (sets : List SelectionSet) :
    s.Reports (s.noting (scope.found sets)) ((scope.setAside sets).map (·.path)) [] := by
  have remarks := scope.found_remarks sets
  refine ⟨_, rfl, ?_, ?_, isPlanBuilt_noted remarks⟩
  · rw [deferred?_noted remarks]
    rfl
  · rw [streamed?_noted remarks]
    rfl

theorem entering (s : Planning) (f : PlanField) : s.Reports (s.entering f) [] [] := by
  unfold Planning.entering
  split
  · rename_i reason plain
    have remarks := PlanField.streaming_remark plain
    cases reason with
    | none => exact of_log_eq (List.append_nil _)
    | some e => exact remark (remarks e rfl) rfl
  · exact of_log_eq rfl

theorem leaving (s : Planning) (node : FieldPlan) : s.Reports (s.leaving node) [] (streamsAmong [node]) := by
  cases node with
  | resolve plan => exact of_log_eq rfl
  | stream plan => exact ⟨_, rfl, .nil, .refl _, List.forall_mem_singleton.2 rfl⟩

theorem field {f : PlanField} {node : FieldPlan} (below : (s.entering f).Reports s₁ paths streams) :
    s.Reports (s₁.leaving node) paths (streams ++ streamsAmong [node]) := by
  have all := ((entering s f).trans below).trans (leaving s₁ node)
  rwa [List.nil_append, List.nil_append, List.append_nil] at all

end Planning.Reports

section
variable {provider : MetadataProvider}

theorem streamsAmong_allNodes_ofFields (nodes : List FieldPlan) :
    (streamsAmong (nodes.flatMap (·.allNodes))).Perm
      (streamsAmong (SelectionPlan.allNodesOf (SelectionPlan.ofFields nodes))) := by
  rw [SelectionPlan.allNodesOf_eq]
  exact (((SelectionPlan.nodesOf_ofFields nodes).symm.flatMap_right _).filterMap _)

theorem streamsAmong_allNodes_cons (node : FieldPlan) (rest : List FieldPlan) :
    (streamsAmong (SelectionPlan.allNodesOf node.resolution.selections?) ++ streamsAmong [node] ++
      streamsAmong (rest.flatMap (·.allNodes))).Perm (streamsAmong ((node :: rest).flatMap (·.allNodes))) := by
  rw [List.flatMap_cons, streamsAmong_append, FieldPlan.allNodes_eq,
    show node :: SelectionPlan.allNodesOf node.resolution.selections? = [node] ++ _ from rfl, streamsAmong_append]
  exact List.perm_append_comm.append_right _

mutual

theorem SetsCourse.reports {scope : Scope} {sets : List SelectionSet} {plan : Option SelectionPlan}
    {aside : List DeferredFragment} {s s' : Planning} : SetsCourse provider scope sets plan aside s s' →
      s.Reports s' (aside.map (·.path)) (streamsAmong (SelectionPlan.allNodesOf plan))
  | @SetsCourse.intro _ _ _ nodes _ _ _ fields => by
      have all := (Planning.Reports.noting s scope sets).trans fields.reports
      rw [← List.map_append] at all
      exact all.perm (.refl _) (streamsAmong_allNodes_ofFields nodes)

theorem FieldsCourse.reports {scope : Scope} {groups : List FieldGroup} {nodes : List FieldPlan}
    {aside : List DeferredFragment} {s s' : Planning} : FieldsCourse provider scope groups nodes aside s s' →
      s.Reports s' (aside.map (·.path)) (streamsAmong (nodes.flatMap (·.allNodes)))
  | .nil => .of_log_eq rfl
  | .leaf _ _ made rest => by
      have resolution := congrArg FieldPlan.resolution made
      rw [PlanField.resolution_fieldPlan] at resolution
      have all := (Planning.Reports.field (.of_log_eq rfl)).trans rest.reports
      refine all.perm (.refl _) (.trans ?_ (streamsAmong_allNodes_cons _ _))
      rw [resolution]
      exact .refl _
  | .composite _ _ below made rest => by
      have resolution := congrArg FieldPlan.resolution made
      rw [PlanField.resolution_fieldPlan] at resolution
      have all := (Planning.Reports.field below.reports).trans rest.reports
      rw [← List.map_append] at all
      refine all.perm (.refl _) (.trans ?_ (streamsAmong_allNodes_cons _ _))
      rw [resolution]
      exact .refl _

end

theorem FragmentsCourse.reports {fragments : List DeferredFragment} {plans : List DeferPlan} {s s' : Planning}
    (course : FragmentsCourse provider fragments plans s s') :
    ∃ paths, s.Reports s' paths (streamsAmong (deferredNodes plans)) ∧
      (fragments.map (·.path) ++ paths).Perm ((deferredWithNested plans).map (·.path)) := by
  induction course with
  | nil => exact ⟨[], .of_log_eq rfl, .nil⟩
  | @cons f rest aside node nested plans s s₁ s₂ s' sets _ _ inner others =>
      obtain ⟨within, reportsInner, paths⟩ := inner
      obtain ⟨behind, reportsOthers, paths'⟩ := others
      have here : s.Reports s₁.withoutDeferred (aside.map (·.path)) (streamsAmong (SelectionPlan.allNodesOf node)) :=
        sets.reports
      refine ⟨_, (here.trans reportsInner).trans reportsOthers |>.perm (.refl _) (.of_eq ?_), ?_⟩
      · rw [deferredNodes, DeferPlan.allNodes_eq, streamsAmong_append, streamsAmong_append]
      · rw [deferredWithNested, DeferPlan.withNested_eq, List.map_append, List.map_cons, List.map_cons,
          List.cons_append, List.cons_append]
        refine .cons _ (List.Perm.trans ?_ (paths.append paths'))
        exact (List.perm_append_comm_assoc _ _ _)

theorem PlanCourse.isReportedIn {operation : PreparedOperation} {rootType : Text} {plan : QueryPlan} {s' : Planning}
    (course : PlanCourse provider operation rootType plan s') (indexed : plan.streams.length = plan.streamNodes.length) :
    plan.IsReportedIn s'.log := by
  obtain ⟨root, top, aside, s₁, s₂, root_eq, shows, sets, fragments, -, rfl⟩ := course
  have main : ({} : Planning).Reports s₁.withoutDeferred _ _ := sets.reports
  obtain ⟨paths, later, met⟩ := fragments.reports
  obtain ⟨events, log, deferred, streamed, unbuilt⟩ := main.trans later
  have log : s₂.log = events := log
  refine ⟨?_, ?_, events, unbuilt, ?_⟩
  · rw [log, List.filterMap_append]
    exact (List.append_nil _).symm ▸ deferred.trans met
  · rw [log, List.filterMap_append, QueryPlan.streamNodes, streamsAmong_append, root_eq, shows.streams_eq]
    exact (List.append_nil _).symm ▸ streamed
  · rw [log, root_eq, countDeferred_eq, indexed]
    rfl

end

def Planning.IsUnbuilt (s : Planning) : Prop := ∀ e ∈ s.log, e.isPlanBuilt = false

namespace Planner
open Run

variable {α β : Type} {provider : MetadataProvider} {position : Position}

def KeepsUnbuilt (p : Planner α) : Prop :=
  ∀ s, s.IsUnbuilt → match p s with | .ok _ s' => s'.IsUnbuilt | .error _ s' => s'.IsUnbuilt

def FailsUnbuilt (p : Planner α) : Prop := ∀ s failure s', s.IsUnbuilt → p s = .error failure s' → s'.IsUnbuilt

theorem FailsUnbuilt.bind {p : Planner α} {f : α → Planner β} (first : KeepsUnbuilt p)
    (next : ∀ a, FailsUnbuilt (f a)) : FailsUnbuilt (p >>= f) := by
  intro s failure s' unbuilt failed
  have kept := first s unbuilt
  obtain here | ⟨a, s₁, run, later⟩ := bind_error.1 failed
  · rwa [here] at kept
  · rw [run] at kept
    exact next a s₁ failure s' kept later

theorem FailsUnbuilt.of_returns {p : Planner α} (returns : ∀ s, ∃ a s', p s = .ok a s') : FailsUnbuilt p := by
  intro s failure s' _ failed
  obtain ⟨a, s₁, run⟩ := returns s
  rw [run] at failed
  contradiction

namespace KeepsUnbuilt

theorem pure (a : α) : KeepsUnbuilt (Pure.pure a : Planner α) := fun _ unbuilt => unbuilt

theorem bind {p : Planner α} {f : α → Planner β} (first : KeepsUnbuilt p) (next : ∀ a, KeepsUnbuilt (f a)) :
    KeepsUnbuilt (p >>= f) := by
  intro s unbuilt
  have kept := first s unbuilt
  cases run : p s with
  | ok a s₁ =>
      rw [run] at kept
      rw [bind_of_ok run]
      exact next a s₁ kept
  | error failure s₁ =>
      rw [run] at kept
      rwa [bind_of_error run]

theorem mapM {f : α → Planner β} (each : ∀ a, KeepsUnbuilt (f a)) (items : List α) : KeepsUnbuilt (items.mapM f) := by
  induction items with
  | nil => exact pure []
  | cons a items ih =>
      rw [List.mapM_cons]
      exact (each a).bind fun _ => ih.bind fun _ => pure _

theorem fail (cause : Cause) (whereabouts : Whereabouts) :
    KeepsUnbuilt (Planner.fail cause whereabouts : Planner α) := fun _ unbuilt => unbuilt

theorem get : KeepsUnbuilt (MonadState.get : Planner Planning) := fun _ unbuilt => unbuilt

theorem takeDeferred : KeepsUnbuilt takeDeferred := fun _ unbuilt => unbuilt

theorem report {e : Event} (other : e.isPlanBuilt = false) : KeepsUnbuilt (Planner.report e) := fun _ unbuilt =>
  List.forall_mem_append.2 ⟨unbuilt, List.forall_mem_singleton.2 other⟩

end KeepsUnbuilt

theorem record_keepsUnbuilt {found : List Flattened} (remarks : ∀ x ∈ found, x.Remarks) :
    KeepsUnbuilt (record found) := by
  have before : ∀ x ∈ found.takeWhile (·.spread?.isNone), x.Remarks := fun x member =>
    remarks x ((List.takeWhile_sublist _).subset member)
  have noted := isPlanBuilt_noted before
  refine KeepsUnbuilt.bind (fun s unbuilt => List.forall_mem_append.2 ⟨unbuilt, noted⟩) fun _ => ?_
  split
  · exact fun s unbuilt => unbuilt
  · exact .pure _

theorem collect_keepsUnbuilt (parentType : Text) (sets : List SelectionSet) :
    KeepsUnbuilt (collect position parentType sets) :=
  KeepsUnbuilt.bind (record_keepsUnbuilt (Scope.found_remarks _ sets)) fun _ => .pure _

theorem planField_keepsUnbuilt (g : FieldGroup) : KeepsUnbuilt (planField provider position g) := by
  have known (path : ResponsePath) : KeepsUnbuilt (metadata provider g path) := by
    unfold metadata
    split
    · exact .pure _
    · refine KeepsUnbuilt.bind (fun s unbuilt => unbuilt) fun found => ?_
      cases found with
      | none => exact .fail _ _
      | some => exact .pure _
  have typed (declared : TypeRef) (path : ResponsePath) : KeepsUnbuilt (resultType g declared path) := by
    unfold resultType
    cases declared.modifiedBy g.first.modifier with
    | some => exact .pure _
    | none =>
        cases g.first.modifier with
        | none => exact fun s unbuilt => unbuilt
        | some => exact .fail _ _
  exact (known _).bind fun _ => (typed _ _).bind fun _ => .pure _

theorem fieldPlan_keepsUnbuilt {below : Below}
    (inner : ∀ position parentType sets, KeepsUnbuilt (below position parentType sets)) (g : FieldGroup) :
    KeepsUnbuilt (fieldPlan provider below position g) := by
  have resolved (field : PlanField) : KeepsUnbuilt (resolvePlan below position field) := by
    unfold resolvePlan
    split
    · exact .pure _
    · exact (inner _ _ _).bind fun _ => .pure _
  refine (planField_keepsUnbuilt g).bind fun field => ?_
  cases streaming : field.streaming with
  | error reason =>
      refine KeepsUnbuilt.bind ?_ fun _ => (resolved field).bind fun _ => .pure _
      cases reason with
      | none => exact .pure _
      | some e => exact .report (PlanField.streaming_remark streaming e rfl).2.2
  | ok options =>
      refine KeepsUnbuilt.bind (fun s unbuilt => unbuilt) fun id => (resolved field).bind fun node => ?_
      exact KeepsUnbuilt.bind (fun s unbuilt => unbuilt) fun _ => (KeepsUnbuilt.report rfl).bind fun _ => .pure _

theorem selectionPlan_keepsUnbuilt (height : Nat) (position : Position) (parentType : Text) (sets : List SelectionSet) :
    KeepsUnbuilt (selectionPlan provider height position parentType sets) := by
  induction height generalizing position parentType sets with
  | zero => exact .pure none
  | succ height ih =>
      refine (collect_keepsUnbuilt parentType sets).bind fun groups => ?_
      exact (KeepsUnbuilt.mapM (fieldPlan_keepsUnbuilt ih) groups).bind fun _ => .pure _

theorem deferPlan_keepsUnbuilt (depth : Nat) (f : DeferredFragment) : KeepsUnbuilt (deferPlan provider depth f) := by
  induction depth generalizing f with
  | zero => exact .pure _
  | succ depth ih =>
      refine (selectionPlan_keepsUnbuilt _ _ _ _).bind fun node => ?_
      exact KeepsUnbuilt.takeDeferred.bind fun aside => (KeepsUnbuilt.mapM ih aside).bind fun _ => .pure _

theorem rootPlan_keepsUnbuilt (operation : PreparedOperation) (rootType : Text) :
    KeepsUnbuilt (rootPlan provider operation rootType) := by
  have selected : KeepsUnbuilt (RootPlan.selections <$>
      selectionPlan provider operation.selectionSet.height {} rootType [operation.selectionSet]) :=
    (selectionPlan_keepsUnbuilt _ _ _ _).bind fun _ => .pure _
  unfold rootPlan
  split
  · refine (collect_keepsUnbuilt rootType _).bind fun groups => KeepsUnbuilt.get.bind fun s => ?_
    dsimp only
    split
    · exact fun _ unbuilt => unbuilt
    · split
      · refine (fieldPlan_keepsUnbuilt (selectionPlan_keepsUnbuilt _) _).bind fun node => ?_
        cases node with
        | resolve => exact .pure _
        | stream => exact .fail _ _
      · exact .fail _ _
  · exact selected

theorem queryPlan_failsUnbuilt (operation : PreparedOperation) : FailsUnbuilt (queryPlan provider operation) := by
  have typed : KeepsUnbuilt (rootType provider operation) := by
    unfold rootType
    split
    · exact .pure _
    · exact .fail _ _
  refine FailsUnbuilt.bind typed fun type => FailsUnbuilt.bind (rootPlan_keepsUnbuilt operation type) fun root => ?_
  refine FailsUnbuilt.bind .takeDeferred fun aside => ?_
  exact FailsUnbuilt.bind (.mapM (deferPlan_keepsUnbuilt _) aside) fun _ => .of_returns fun s => ⟨_, _, rfl⟩

end Planner

theorem LogLevel.keep_trace (events : List Event) : trace.keep events = events := by
  refine List.filter_eq_self.2 fun e _ => ?_
  cases e <;> rfl

theorem PreparedOperation.isUnbuilt_of_error {operation : PreparedOperation} {provider : MetadataProvider}
    {failure : PlanFailure} {planning : Planning} (failed : operation.plan provider = (.error failure, planning)) :
    planning.IsUnbuilt := by
  obtain ⟨s, run⟩ := PreparedOperation.plan_error_iff.1 (congrArg Prod.fst failed)
  have passed := operation.plan_passed provider
  rw [run] at passed
  obtain ⟨t, same, logged, -⟩ := passed
  obtain rfl : planning = t := congrArg Prod.snd (failed.symm.trans same)
  unfold Planning.IsUnbuilt
  rw [logged]
  exact Planner.queryPlan_failsUnbuilt operation {} failure s (List.forall_mem_nil _) run

/-- The full log of a run agrees with the plan that it returns, and tells of no plan if it fails. -/
theorem plan_is_reported (operation : PreparedOperation) (provider : MetadataProvider) :
    match operation.plan provider with
    | (.ok plan, planning) => plan.IsReportedIn (LogLevel.trace.keep planning.log)
    | (.error _, planning) => ∀ e ∈ LogLevel.trace.keep planning.log, e.isPlanBuilt = false := by
  rw [show operation.plan provider = ((operation.plan provider).1, (operation.plan provider).2) from rfl]
  cases result : (operation.plan provider).1 with
  | ok plan =>
      obtain ⟨rootType, s, -, course, logged, -⟩ := operation.plan_course result
      have counted := course.streams_perm.length_eq
      rw [List.length_map] at counted
      simp only [LogLevel.keep_trace, logged]
      exact course.isReportedIn counted
  | error failure =>
      simp only [LogLevel.keep_trace]
      exact PreparedOperation.isUnbuilt_of_error (Prod.ext result rfl)

end QueryPlanner
