import QueryPlanner.Proofs.Plan.Follows

namespace QueryPlanner

def Contradictory (conditions : List (Text × Bool)) : Prop :=
  ∃ name, (name, true) ∈ conditions ∧ (name, false) ∈ conditions

theorem allHold_iff {value : Text → Bool} {conditions : List (Text × Bool)} :
    allHold value conditions = true ↔ ∀ c ∈ conditions, value c.1 = c.2 := by
  simp only [allHold, List.all_eq_true, beq_iff_eq]

theorem allHold_imp_iff (own outer : List (Text × Bool)) :
    (∀ value, allHold value own = true → allHold value outer = true) ↔ (∀ c ∈ outer, c ∈ own) ∨ Contradictory own := by
  simp only [allHold_iff]
  constructor
  · intro follows
    by_contra neither
    obtain ⟨missing, consistent⟩ := not_or.1 neither
    obtain ⟨⟨name, b⟩, member, absent⟩ : ∃ c ∈ outer, c ∉ own := by simpa only [not_forall, exists_prop] using missing
    -- An assignment that meets the own conditions but not the missing one.
    let value (x : Text) : Bool := if x = name then !b else decide ((x, true) ∈ own)
    have meets : ∀ c ∈ own, value c.1 = c.2 := by
      rintro ⟨x, c⟩ here
      by_cases same : x = name
      · have other : c ≠ b := fun e => absent (same ▸ e ▸ here)
        simp only [value, same, if_true]
        cases b <;> cases c <;> simp_all
      · simp only [value, same, if_false]
        cases c with
        | true => simpa using here
        | false => exact decide_eq_false fun there => consistent ⟨x, there, here⟩
    have broken := follows value meets (name, b) member
    simp [value] at broken
  · rintro (among | ⟨name, positive, negative⟩) value meets c member
    · exact meets c (among c member)
    · have opposite : true = false := (meets _ positive).symm.trans (meets _ negative)
      contradiction

def Scope.plannedAs (scope : Scope) (sets : List SelectionSet) (node : FieldPlan) : List Occurrence :=
  (occurrencesOf sets).filter fun o =>
    o.isPlanned scope.isDeferrable && decide ((o.recorded scope.parentType none, o.responseKey) = node.key)

/-- The directives on the field itself let it pass whenever those on the fragments around it do so as well. -/
def Occurrence.KeepsConditions (o : Occurrence) : Prop :=
  ∀ value, o.isAdmitted value = admitsAll value o.field.directives

def keepsVariableConditions : SelectionLaw := fun scope sets plan =>
  ∀ node ∈ SelectionPlan.nodesOf plan, node.field.fieldNodes = (scope.plannedAs sets node).map (·.field) ∧
    ∀ o ∈ scope.plannedAs sets node, o.KeepsConditions

/-- Nothing is lost exactly if the conditions of fragments stand on the field too, or no assignment lets it pass. -/
def keepsConditionsOnFields : SelectionLaw := fun scope sets plan =>
  ∀ node ∈ SelectionPlan.nodesOf plan, node.field.fieldNodes = (scope.plannedAs sets node).map (·.field) ∧
    ∀ o ∈ scope.plannedAs sets node, o.KeepsConditions ↔
      (∀ c ∈ o.fragmentConditions, c ∈ variableConditions o.field.directives) ∨
        Contradictory (variableConditions o.field.directives)

theorem Occurrence.keepsConditions_iff {o : Occurrence} (included : o.isIncluded = true) :
    o.KeepsConditions ↔
      (∀ c ∈ o.fragmentConditions, c ∈ variableConditions o.field.directives) ∨
        Contradictory (variableConditions o.field.directives) := by
  have field : isExcluded o.field.directives = false := by
    rw [isIncluded, Bool.and_eq_true, Bool.not_eq_true'] at included
    exact included.1
  rw [← allHold_imp_iff]
  refine forall_congr' fun value => ?_
  rw [isAdmitted_eq, admitsAll_eq, included, field, Bool.not_false, Bool.true_and, Bool.true_and,
    Bool.and_eq_left_iff_imp]

theorem plan_keeps_conditions_iff {operation : PreparedOperation} {provider : MetadataProvider} {plan : QueryPlan}
    (built : (operation.plan provider).1 = .ok plan) :
    ∃ rootType, provider.rootType? operation.type = some rootType ∧
      keepsConditionsOnFields.OnPlan operation rootType plan := by
  obtain ⟨rootType, known, follows⟩ := operation.plan_onPlan built
  refine ⟨rootType, known, follows.mono fun scope sets selections follow node member => ?_⟩
  refine ⟨followsGroups_fieldNodes follow member, fun o planned => Occurrence.keepsConditions_iff ?_⟩
  have kept := (List.mem_filter.1 planned).2
  rw [Bool.and_eq_true, Occurrence.isPlanned, Bool.and_eq_true] at kept
  exact kept.1.1

namespace ConditionalFragment

def field : Field := ⟨none, { text := "version" }, [], none, [], none, none⟩

def includeIf (name : Text) : Directive where
  name := { text := "include" }
  arguments := [{ name := { text := "if" }, value := .var { name := { text := name } } }]

/-- `query ($v: Boolean!) { ... @include(if: $v) { version } }` -/
def query : Operation where
  type := .query
  name := none
  variableDefinitions := [⟨{ name := { text := "v" } }, .nonNull (.ofName "Boolean") none, none, [], none⟩]
  directives := []
  selectionSet := ⟨[.inline ⟨none, [includeIf "v"], ⟨[.field field], none⟩, none⟩], none⟩

def operation : PreparedOperation := .verbatim { definitions := [.operation query] } ⟨0, query⟩

def provider : MetadataProvider :=
  .ofTables [(.query, "Query")] [("Query.version", ⟨.ofName "String", false, true, false, true⟩)]

def planField : PlanField where
  responseKey := "version"
  fieldName := "version"
  parentType := "Query"
  typeCondition := none
  path := ["version"]
  fieldNodes := [field]
  arguments := []
  directives := []
  resultType := .ofName "String"
  metadata := ⟨.ofName "String", false, true, false, true⟩

def selections : SelectionPlan := .parallel [.resolve (.resolver planField)]

def plan : QueryPlan where
  root := ⟨.query, none, .selections (some selections)⟩
  streams := Planner.orderStreams []
  deferred := []

theorem plan_eq : (operation.plan provider).1 = .ok plan := rfl

theorem keeps_conditions_iff : (operation.plan provider).1 = .ok plan ∧
    ∃ rootType, provider.rootType? operation.type = some rootType ∧
      keepsConditionsOnFields.OnPlan operation rootType plan :=
  ⟨plan_eq, plan_keeps_conditions_iff plan_eq⟩

theorem condition_lost : ¬ ∀ (operation : PreparedOperation) (provider : MetadataProvider) (plan : QueryPlan),
    (operation.plan provider).1 = .ok plan → ∃ rootType, provider.rootType? operation.type = some rootType ∧
      keepsVariableConditions.OnPlan operation rootType plan := by
  intro claim
  obtain ⟨rootType, known, law⟩ := claim operation provider plan plan_eq
  obtain rfl : "Query" = rootType := Option.some.inj known
  have kept := (law.top rfl (.resolve (.resolver planField)) (List.mem_singleton_self _)).2
  have one : (Scope.root "Query").plannedAs [operation.selectionSet] (.resolve (.resolver planField)) =
      occurrencesOf [operation.selectionSet] := rfl
  rw [one] at kept
  have same := kept _ (List.mem_singleton_self _) fun _ => false
  contradiction

end ConditionalFragment

end QueryPlanner
