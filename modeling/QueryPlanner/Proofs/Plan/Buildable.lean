import QueryPlanner.Proofs.Plan.FirstFault

namespace QueryPlanner

section
variable {provider : MetadataProvider} {scope : Scope} {g : FieldGroup} {field field' : PlanField}

inductive FieldGroup.CanBeBuilt (provider : MetadataProvider) : Scope → FieldGroup → Prop
  | intro {scope : Scope} {g : FieldGroup} {field : PlanField} : g.IsPlannedAs provider scope field →
      (∀ inner ∈ (scope.below field).groups field.sets, FieldGroup.CanBeBuilt provider (scope.below field) inner) →
      FieldGroup.CanBeBuilt provider scope g

theorem FieldGroup.IsPlannedAs.unique (planned : g.IsPlannedAs provider scope field)
    (planned' : g.IsPlannedAs provider scope field') : field = field' := by
  obtain ⟨metadata, type, known, modified, rfl⟩ := planned
  obtain ⟨metadata', type', known', modified', rfl⟩ := planned'
  obtain rfl := Option.some.inj (known.symm.trans known')
  obtain rfl := Option.some.inj (modified.symm.trans modified')
  rfl

theorem FieldGroup.IsPlannedAs.canBeBuilt_iff (planned : g.IsPlannedAs provider scope field) :
    CanBeBuilt provider scope g ↔
      ∀ inner ∈ (scope.below field).groups field.sets, CanBeBuilt provider (scope.below field) inner := by
  constructor
  · rintro ⟨planned', inside⟩
    exact planned.unique planned' ▸ inside
  · exact .intro planned

end

namespace Planner
open Run

variable {α β : Type} {provider : MetadataProvider} {s : Planning} {can can' : Prop}

/-- A run returns if it can, and fails if it cannot. -/
def Builds (can : Prop) : EStateM.Result PlanFailure Planning α → Prop
  | .ok _ _ => can
  | .error _ _ => ¬ can

namespace Builds

theorem congr {result : EStateM.Result PlanFailure Planning α} (builds : Builds can result) (same : can ↔ can') :
    Builds can' result := by
  rwa [← propext same]

theorem bind {p : Planner α} {f : α → Planner β} (first : Builds can (p s))
    (next : ∀ a s', p s = .ok a s' → Builds can' (f a s')) : Builds (can ∧ can') ((p >>= f) s) := by
  cases run : p s with
  | error failure s₁ =>
      rw [run] at first
      rw [bind_of_error run]
      exact fun both => first both.1
  | ok a s₁ =>
      rw [run] at first
      have second := next a s₁ run
      rw [bind_of_ok run]
      cases run' : f a s₁ with
      | ok b s₂ =>
          rw [run'] at second
          exact ⟨first, second⟩
      | error failure s₂ =>
          rw [run'] at second
          exact fun both => second both.2

theorem of_ok {p : Planner α} {f : α → Planner β} {a : α} {s₁ : Planning} (first : p s = .ok a s₁)
    (next : Builds can (f a s₁)) : Builds can ((p >>= f) s) := by
  rwa [bind_of_ok first]

theorem finish {p : Planner α} {f : α → Planner β} (builds : Builds can (p s))
    (next : ∀ a s', ∃ b s'', f a s' = .ok b s'') : Builds can ((p >>= f) s) := by
  have both : Builds (can ∧ True) ((p >>= f) s) := by
    refine builds.bind fun a s' _ => ?_
    obtain ⟨b, s'', run⟩ := next a s'
    rw [run]
    trivial
  exact both.congr (and_iff_left trivial)

end Builds

section
variable {position : Position} {g : FieldGroup}

theorem planField_builds (parentType : Text) :
    Builds (∃ field, g.IsPlannedAs provider (position.scope parentType) field) (planField provider position g s) := by
  unfold planField
  cases found : g.metadata? provider with
  | none =>
      obtain ⟨s₁, failed⟩ := metadata_unknown (s := s) found (position.responsePath ++ [g.responseKey])
      rw [bind_of_error failed]
      rintro ⟨field, metadata, type, known, -⟩
      rw [found] at known
      contradiction
  | some known =>
      obtain ⟨s₁, asked, -⟩ := metadata_known (s := s) found (position.responsePath ++ [g.responseKey])
      rw [bind_of_ok asked]
      cases modified : known.resultType.modifiedBy g.first.modifier with
      | none =>
          rw [bind_of_error (resultType_unfit modified _)]
          rintro ⟨field, metadata, type, known', modified', -⟩
          rw [Option.some.inj (known'.symm.trans found), modified] at modified'
          contradiction
      | some type =>
          rw [bind_of_ok (resultType_fits modified _)]
          exact ⟨_, known, type, found, modified, rfl⟩

theorem fieldPlan_builds_of (parentType : Text) {below : Below}
    (inner : ∀ field s', g.IsPlannedAs provider (position.scope parentType) field →
      Builds (∀ inner ∈ ((position.scope parentType).below field).groups field.sets,
        inner.CanBeBuilt provider ((position.scope parentType).below field)) (resolvePlan below position field s')) :
    Builds (g.CanBeBuilt provider (position.scope parentType)) (fieldPlan provider below position g s) := by
  have field : Builds (∃ field, g.IsPlannedAs provider (position.scope parentType) field)
      (planField provider position g s) := planField_builds parentType
  unfold fieldPlan
  cases run : planField provider position g s with
  | error failure s₁ =>
      rw [run] at field
      rw [bind_of_error run]
      rintro ⟨planned, -⟩
      exact field ⟨_, planned⟩
  | ok field s₁ =>
      have planned := (planField_ok parentType run).1
      refine .of_ok run (Builds.congr ?_ planned.canBeBuilt_iff.symm)
      cases field.streaming with
      | error reason =>
          obtain ⟨s₂, reported, -⟩ := report_returns reason s₁
          exact .of_ok reported ((inner field s₂ planned).finish fun resolution s₃ => ⟨_, s₃, rfl⟩)
      | ok options =>
          have taken : takeStreamId s₁ = .ok s₁.nextStream { s₁ with nextStream := s₁.nextStream + 1 } := rfl
          exact .of_ok taken ((inner field _ planned).finish fun resolution s₃ => ⟨_, _, rfl⟩)

def BuildsBelow (provider : MetadataProvider) (height : Nat) (below : Below) : Prop :=
  ∀ (position : Position) (parentType : Text) (sets : List SelectionSet) (s : Planning), sets ≠ [] →
    (∀ set ∈ sets, set.Fits height) →
    Builds (∀ g ∈ (position.scope parentType).groups sets, g.CanBeBuilt provider (position.scope parentType))
      (below position parentType sets s)

theorem resolvePlan_builds {height : Nat} {below : Below} (builds : BuildsBelow provider height below)
    {field : PlanField} (parentType : Text) (fit : ∀ set ∈ field.sets, set.Fits height) :
    Builds (∀ inner ∈ ((position.scope parentType).below field).groups field.sets,
      inner.CanBeBuilt provider ((position.scope parentType).below field)) (resolvePlan below position field s) := by
  by_cases empty : field.sets = []
  · rw [resolvePlan_leaf empty, empty]
    exact List.forall_mem_nil _
  · rw [resolvePlan_selects empty]
    have inside := builds (position.push field) field.resultType.namedType field.sets s empty fit
    rw [Position.scope_push position field parentType] at inside
    exact inside.finish fun selections s' => ⟨_, s', rfl⟩

theorem fieldPlan_builds {height : Nat} {below : Below} (builds : BuildsBelow provider height below)
    (parentType : Text) (fit : ∀ set ∈ g.sets, set.Fits height) :
    Builds (g.CanBeBuilt provider (position.scope parentType)) (fieldPlan provider below position g s) :=
  fieldPlan_builds_of parentType fun _ _ planned => resolvePlan_builds builds parentType (planned.sets_eq ▸ fit)

theorem selectionPlan_builds (provider : MetadataProvider) (height : Nat) :
    BuildsBelow provider height (selectionPlan provider height) := by
  induction height with
  | zero =>
      intro position parentType sets s nonempty fit
      obtain ⟨set, member⟩ := List.exists_mem_of_ne_nil sets nonempty
      obtain ⟨n, impossible⟩ := (fit set member).exists_succ
      contradiction
  | succ height ih =>
      intro position parentType sets s nonempty fit
      have fits : ∀ g ∈ (position.scope parentType).groups sets, ∀ set ∈ g.sets, set.Fits height :=
        fun g => Scope.groups_fit fit
      unfold selectionPlan
      refine .of_ok (collect_of_replaced fit) (Builds.finish ?_ fun nodes s' => ⟨_, s', rfl⟩)
      generalize (position.scope parentType).groups sets = groups at fits
      generalize s.noting ((position.scope parentType).found sets) = s₁
      induction groups generalizing s₁ with
      | nil => exact List.forall_mem_nil _
      | cons g groups ihGroups =>
          obtain ⟨here, others⟩ := List.forall_mem_cons.1 fits
          rw [List.mapM_cons]
          refine Builds.congr ((fieldPlan_builds ih parentType here).bind fun node s₂ _ => ?_)
            List.forall_mem_cons.symm
          exact (ihGroups others s₂).finish fun nodes s' => ⟨_, s', rfl⟩

end

end Planner

end QueryPlanner
