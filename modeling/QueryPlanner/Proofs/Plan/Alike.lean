import QueryPlanner.Plan.Build
import QueryPlanner.Proofs.Syntax.Tree
import Mathlib.Data.List.Forall2
import Mathlib.Data.Option.Basic

namespace QueryPlanner

abbrev FieldRelation := PlanField → PlanField → Prop

abbrev NodesRelation := List Field → List Field → Prop

/-- Planned fields that stand for related selections, and apart from these differ in locations only. -/
structure PlanField.Alike (nodes : NodesRelation) (f f' : PlanField) : Prop where
  responseKey : f.responseKey = f'.responseKey
  fieldName : f.fieldName = f'.fieldName
  parentType : f.parentType = f'.parentType
  typeCondition : f.typeCondition = f'.typeCondition
  path : f.path = f'.path
  fieldNodes : nodes f.fieldNodes f'.fieldNodes
  arguments : f.arguments.map Argument.bare = f'.arguments.map Argument.bare
  directives : f.directives.map Directive.bare = f'.directives.map Directive.bare
  resultType : f.resultType = f'.resultType
  metadata : f.metadata = f'.metadata

mutual

inductive ResolvePlan.Alike (same : FieldRelation) : ResolvePlan → ResolvePlan → Prop
  | resolver {f f' : PlanField} : same f f' → ResolvePlan.Alike same (.resolver f) (.resolver f')
  | composite {f f' : PlanField} {selections selections' : Option SelectionPlan} : same f f' →
      Option.Rel (SelectionPlan.Alike same) selections selections' →
      ResolvePlan.Alike same (.composite f selections) (.composite f' selections')

inductive StreamPlan.Alike (same : FieldRelation) : StreamPlan → StreamPlan → Prop
  | intro {id : Nat} {label : Option Text} {path : ResponsePath} {initialCount : InitialCount} {condition : Option Text}
      {node node' : ResolvePlan} : ResolvePlan.Alike same node node' →
      StreamPlan.Alike same ⟨id, label, path, initialCount, condition, node⟩
        ⟨id, label, path, initialCount, condition, node'⟩

inductive FieldPlan.Alike (same : FieldRelation) : FieldPlan → FieldPlan → Prop
  | resolve {plan plan' : ResolvePlan} : ResolvePlan.Alike same plan plan' →
      FieldPlan.Alike same (.resolve plan) (.resolve plan')
  | stream {plan plan' : StreamPlan} : StreamPlan.Alike same plan plan' →
      FieldPlan.Alike same (.stream plan) (.stream plan')

inductive SelectionPlan.Alike (same : FieldRelation) : SelectionPlan → SelectionPlan → Prop
  | parallel {nodes nodes' : List FieldPlan} : List.Forall₂ (FieldPlan.Alike same) nodes nodes' →
      SelectionPlan.Alike same (.parallel nodes) (.parallel nodes')
  | serial {ordered ordered' others others' : List FieldPlan} : List.Forall₂ (FieldPlan.Alike same) ordered ordered' →
      List.Forall₂ (FieldPlan.Alike same) others others' →
      SelectionPlan.Alike same (.serial ordered others) (.serial ordered' others')

end

inductive DeferPlan.Alike (same : FieldRelation) : DeferPlan → DeferPlan → Prop
  | intro {label : Option Text} {path : ResponsePath} {parentType : Text} {condition : Option Text}
      {node node' : Option SelectionPlan} {deferred deferred' : List DeferPlan} :
      Option.Rel (SelectionPlan.Alike same) node node' → List.Forall₂ (DeferPlan.Alike same) deferred deferred' →
      DeferPlan.Alike same ⟨label, path, parentType, condition, node, deferred⟩
        ⟨label, path, parentType, condition, node', deferred'⟩

inductive RootPlan.Alike (same : FieldRelation) : RootPlan → RootPlan → Prop
  | selections {plan plan' : Option SelectionPlan} : Option.Rel (SelectionPlan.Alike same) plan plan' →
      RootPlan.Alike same (.selections plan) (.selections plan')
  | subscription {f f' : PlanField} {below below' : Option SelectionPlan} : same f f' →
      Option.Rel (SelectionPlan.Alike same) below below' →
      RootPlan.Alike same (.subscription f below) (.subscription f' below')

def StreamsAlike (same : FieldRelation) (a b : Nat × StreamPlan) : Prop := a.1 = b.1 ∧ a.2.Alike same b.2

structure QueryPlan.Alike (same : FieldRelation) (plan plan' : QueryPlan) : Prop where
  type : plan.root.type = plan'.root.type
  name : plan.root.name = plan'.root.name
  root : plan.root.root.Alike same plan'.root.root
  streams : List.Forall₂ (StreamsAlike same) plan.streams plan'.streams
  deferred : List.Forall₂ (DeferPlan.Alike same) plan.deferred plan'.deferred

inductive PlanFailure.Alike : PlanFailure → PlanFailure → Prop
  | reported {d d' : Diagnostic} : d.cause = d'.cause → d.whereabouts.path = d'.whereabouts.path →
      PlanFailure.Alike (.reported d) (.reported d')
  | broken (invariant : BrokenInvariant) : PlanFailure.Alike (.broken invariant) (.broken invariant)

inductive OutcomesAlike (same : FieldRelation) : Except PlanFailure QueryPlan → Except PlanFailure QueryPlan → Prop
  | ok {plan plan' : QueryPlan} : plan.Alike same plan' → OutcomesAlike same (.ok plan) (.ok plan')
  | error {failure failure' : PlanFailure} : failure.Alike failure' →
      OutcomesAlike same (.error failure) (.error failure')

section
variable {same : FieldRelation}

theorem ResolvePlan.Alike.field {plan plan' : ResolvePlan} (alike : plan.Alike same plan') :
    same plan.field plan'.field := by
  cases alike with
  | resolver here => exact here
  | composite here _ => exact here

theorem ResolvePlan.Alike.selections? {plan plan' : ResolvePlan} (alike : plan.Alike same plan') :
    Option.Rel (SelectionPlan.Alike same) plan.selections? plan'.selections? := by
  cases alike with
  | resolver _ => exact .none
  | composite _ below => exact below

theorem FieldPlan.Alike.field {node node' : FieldPlan} (alike : node.Alike same node') :
    same node.field node'.field := by
  cases alike with
  | resolve alike => exact alike.field
  | stream alike =>
      obtain ⟨alike⟩ := alike
      exact alike.field

theorem isEmpty_eq {α β : Type} {rel : α → β → Prop} {items : List α} {items' : List β}
    (related : List.Forall₂ rel items items') : items.isEmpty = items'.isEmpty := by
  cases related <;> rfl

theorem SelectionPlan.alike_ofFields (described : ∀ f f', same f f' → f.metadata = f'.metadata)
    {nodes nodes' : List FieldPlan} (alike : List.Forall₂ (FieldPlan.Alike same) nodes nodes') :
    Option.Rel (SelectionPlan.Alike same) (ofFields nodes) (ofFields nodes') := by
  have same_order : ∀ node node' : FieldPlan, node.Alike same node' → node.isOrdered = node'.isOrdered := by
    intro node node' alike
    rw [FieldPlan.isOrdered, described _ _ alike.field, FieldPlan.isOrdered]
  have ordered : List.Forall₂ (FieldPlan.Alike same) (nodes.filter (·.isOrdered)) (nodes'.filter (·.isOrdered)) :=
    List.rel_filter (fun node node' alike => iff_of_eq (congrArg (· = true) (same_order node node' alike))) alike
  have others : List.Forall₂ (FieldPlan.Alike same) (nodes.filter (!·.isOrdered)) (nodes'.filter (!·.isOrdered)) :=
    List.rel_filter
      (fun node node' alike => iff_of_eq (congrArg (fun b => (!b) = true) (same_order node node' alike))) alike
  unfold ofFields
  dsimp only
  rw [isEmpty_eq alike, isEmpty_eq ordered]
  split_ifs
  · exact .none
  · exact .some (.parallel others)
  · exact .some (.serial ordered others)

theorem orderStreams_alike {streams streams' : List (Nat × StreamPlan)}
    (alike : List.Forall₂ (StreamsAlike same) streams streams') :
    List.Forall₂ (StreamsAlike same) (Planner.orderStreams streams) (Planner.orderStreams streams') := by
  -- Sorting the pairs of streams sorts both lists, as both streams of a pair have one number.
  have length := alike.length_eq
  obtain ⟨pairs, rfl, rfl⟩ : ∃ pairs, pairs.map Prod.fst = streams ∧ pairs.map Prod.snd = streams' :=
    ⟨streams.zip streams', List.map_fst_zip (Nat.le_of_eq length), List.map_snd_zip (Nat.le_of_eq length.symm)⟩
  rw [List.forall₂_map_left_iff, List.forall₂_map_right_iff, List.forall₂_same] at alike
  have number : ∀ pair ∈ pairs, pair.1.1 = pair.2.1 := fun pair member => (alike pair member).1
  let byNumber (a b : (Nat × StreamPlan) × Nat × StreamPlan) : Bool := a.1.1 ≤ b.1.1
  have first : (pairs.mergeSort byNumber).map Prod.fst = Planner.orderStreams (pairs.map Prod.fst) :=
    List.map_mergeSort fun _ _ _ _ => rfl
  have second : (pairs.mergeSort byNumber).map Prod.snd = Planner.orderStreams (pairs.map Prod.snd) :=
    List.map_mergeSort fun a inside b inside' => by
      change decide (a.1.1 ≤ b.1.1) = decide (a.2.1 ≤ b.2.1)
      rw [number a inside, number b inside']
  rw [← first, ← second, List.forall₂_map_left_iff, List.forall₂_map_right_iff, List.forall₂_same]
  exact fun pair member => alike pair (List.mem_mergeSort.1 member)

end

end QueryPlanner
