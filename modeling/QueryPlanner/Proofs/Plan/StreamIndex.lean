import QueryPlanner.Proofs.Plan.EncounterOrder

namespace QueryPlanner

/-- The numbers count the streams of the plan from zero, each number stands for its stream, and each stream has one. -/
structure QueryPlan.IndexesStreams (plan : QueryPlan) : Prop where
  counted : plan.streams.map (·.1) = List.range plan.streamNodes.length
  entries : ∀ id stream, (id, stream) ∈ plan.streams ↔ stream ∈ plan.streamNodes ∧ stream.id = id
  once : plan.streamNodes.Nodup
  indexed : (plan.streams.map (·.2)).Perm plan.streamNodes

namespace Planner

theorem orderStreams_perm (streams : List (Nat × StreamPlan)) : (orderStreams streams).Perm streams :=
  List.mergeSort_perm streams _

theorem orderStreams_sorted (streams : List (Nat × StreamPlan)) :
    ((orderStreams streams).map (·.1)).Pairwise (· ≤ ·) := by
  rw [List.pairwise_map]
  refine (List.pairwise_mergeSort (fun a b c first second => ?_) (fun a b => ?_) streams).imp of_decide_eq_true
  · rw [decide_eq_true_eq] at *
    exact Nat.le_trans first second
  · rw [Bool.or_eq_true, decide_eq_true_eq, decide_eq_true_eq]
    exact Nat.le_total a.1 b.1

end Planner

theorem PlanCourse.streams_eq {provider : MetadataProvider} {operation : PreparedOperation} {rootType : Text}
    {plan : QueryPlan} {s' : Planning} (course : PlanCourse provider operation rootType plan s') :
    plan.streams = Planner.orderStreams s'.streams := by
  obtain ⟨root, top, aside, s₁, s₂, -, -, -, -, streams, rfl⟩ := course
  exact streams

theorem PlanCourse.streams_perm {provider : MetadataProvider} {operation : PreparedOperation} {rootType : Text}
    {plan : QueryPlan} {s' : Planning} (course : PlanCourse provider operation rootType plan s') :
    (plan.streams.map (·.2)).Perm plan.streamNodes := by
  obtain ⟨order, encounters, notes⟩ := course.encounters
  have listed : plan.streams.Perm ((streamsAmong order).map fun p => (p.id, p)) := by
    rw [course.streams_eq]
    exact (Planner.orderStreams_perm _).trans notes.streams
  refine (listed.map _).trans (.trans (.of_eq ?_) encounters.streams_perm)
  rw [List.map_map]
  exact List.map_id' _

theorem plan_indexes_streams {operation : PreparedOperation} {provider : MetadataProvider} {plan : QueryPlan}
    (built : (operation.plan provider).1 = .ok plan) : plan.IndexesStreams := by
  obtain ⟨rootType, s, -, course, -⟩ := operation.plan_course built
  obtain ⟨order, encounters, notes⟩ := course.encounters
  have met := encounters.streams_perm
  have listed : plan.streams.Perm ((streamsAmong order).map fun p => (p.id, p)) := by
    rw [course.streams_eq]
    exact (Planner.orderStreams_perm _).trans notes.streams
  have ids : (streamsAmong order).map (·.id) = List.range (streamsAmong order).length := by
    rw [notes.ids, List.range_eq_range']
  refine ⟨?_, fun id stream => ?_, ?_, ?_⟩
  · have keys : (plan.streams.map (·.1)).Perm (List.range plan.streamNodes.length) := by
      rw [← met.length_eq, ← ids]
      refine (listed.map _).trans (.of_eq ?_)
      rw [List.map_map]
      rfl
    -- Two lists of the same numbers are one list if both are sorted.
    refine keys.eq_of_pairwise (fun _ _ _ _ => Nat.le_antisymm) ?_ List.pairwise_le_range
    rw [course.streams_eq]
    exact Planner.orderStreams_sorted _
  · rw [listed.mem_iff, List.mem_map, ← met.mem_iff]
    constructor
    · rintro ⟨p, member, same⟩
      obtain ⟨rfl, rfl⟩ := Prod.mk.inj same
      exact ⟨member, rfl⟩
    · rintro ⟨member, rfl⟩
      exact ⟨stream, member, rfl⟩
  · refine met.nodup_iff.1 (List.Nodup.of_map (·.id) ?_)
    rw [ids]
    exact List.nodup_range
  · exact course.streams_perm

theorem DeferredStreams.indexes_streams :
    ∃ plan, (operation.plan provider).1 = .ok plan ∧ plan.IndexesStreams := by
  obtain ⟨plan, made⟩ := built
  exact ⟨plan, made, plan_indexes_streams made⟩

end QueryPlanner
