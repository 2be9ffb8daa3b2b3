import QueryPlanner.Proofs.Plan.OncePerType
import Mathlib.Data.List.Perm.Subperm

namespace QueryPlanner

def defersNothing (scope : Scope) (sets : List SelectionSet) : Prop :=
  ∀ o ∈ occurrencesOf sets, o.isIncluded → o.isImmediate scope.isDeferrable

def hasLiteralConditions (sets : List SelectionSet) : Prop :=
  ∀ o ∈ occurrencesOf sets, variableConditions o.field.directives = [] ∧ o.fragmentConditions = []

def plannedFor (types : Text → Bool) (key : Text) (plan : Option SelectionPlan) : List Field :=
  ((SelectionPlan.nodesOf plan).filter fun n =>
    n.field.typeCondition.all types && n.field.responseKey == key).flatMap (·.field.fieldNodes)

def collectedFor (value types : Text → Bool) (key : Text) (sets : List SelectionSet) : List Field :=
  ((occurrencesOf sets).filter fun o => o.isAdmitted value && o.appliesTo types && o.responseKey == key).map (·.field)

instance (type : Text) (o : Occurrence) : Decidable (o.ReturnsTo type) :=
  inferInstanceAs (Decidable (o.types.getLast? = some type ∧ ∃ named ∈ o.types, named ≠ type))

def collectedInnermost (value types : Text → Bool) (key : Text) (sets : List SelectionSet) : List Field :=
  ((occurrencesOf sets).filter fun o =>
    o.isAdmitted value && o.innermostType?.all types && o.responseKey == key).map (·.field)

/-- As `collectedInnermost`, without the fields that come back to the enclosing type from another one. -/
def collectedAway (parentType : Text) (value types : Text → Bool) (key : Text) (sets : List SelectionSet) :
    List Field :=
  ((occurrencesOf sets).filter fun o =>
    (o.isAdmitted value && o.innermostType?.all types && o.responseKey == key) && !decide (o.ReturnsTo parentType)).map
      (·.field)

/-- The field nodes under a response key that come back to the enclosing type from another one. -/
def returning (parentType key : Text) (sets : List SelectionSet) : List Field :=
  ((occurrencesOf sets).filter fun o =>
    o.isIncluded && o.responseKey == key && decide (o.ReturnsTo parentType)).map (·.field)

/-- On every object the plan selects the fields that execution collects. -/
def keepsTypeConditions : SelectionLaw := fun scope sets plan =>
  defersNothing scope sets → hasLiteralConditions sets → ∀ types : Text → Bool, types scope.parentType = true →
    ∀ value key, (plannedFor types key plan).Perm (collectedFor value types key sets)

/--
On every object the plan selects the fields whose innermost condition holds and, of those that come back to the
enclosing type, some or none. Where none comes back, these are the fields that execution collects exactly if the outer
conditions hold wherever the innermost one does.
-/
def keepsInnermostConditions : SelectionLaw := fun scope sets plan =>
  defersNothing scope sets → hasLiteralConditions sets → ∀ types : Text → Bool, types scope.parentType = true →
    ∀ value key,
      (collectedAway scope.parentType value types key sets).Subperm (plannedFor types key plan) ∧
      (plannedFor types key plan).Subperm
        (collectedAway scope.parentType value types key sets ++ returning scope.parentType key sets) ∧
      ((∀ o ∈ occurrencesOf sets, o.isIncluded → o.responseKey = key → ¬ o.ReturnsTo scope.parentType) →
        ((plannedFor types key plan).Perm (collectedFor value types key sets) ↔
          ∀ o ∈ occurrencesOf sets, o.isIncluded → o.responseKey = key → o.innermostType?.all types →
            o.appliesTo types))

namespace Occurrence

theorem isAdmitted_of_literal (value : Text → Bool) {o : Occurrence}
    (literal : variableConditions o.field.directives = [] ∧ o.fragmentConditions = []) :
    o.isAdmitted value = o.isIncluded := by
  rw [isAdmitted_eq, literal.1, literal.2, allHold, List.all_nil, Bool.and_self, Bool.and_true]

theorem recorded_all (types : Text → Bool) {parentType : Text} (enclosing : types parentType = true) (o : Occurrence) :
    (o.recorded parentType none).all types = o.innermostType?.all types := by
  have all_eq (condition : Option Text) : condition.all types = types (condition.getD parentType) := by
    cases condition <;> simp [enclosing]
  rw [all_eq, all_eq, recorded_getD]

theorem innermost_of_appliesTo {types : Text → Bool} {o : Occurrence} (applies : o.appliesTo types = true) :
    o.innermostType?.all types = true := by
  cases innermost : o.innermostType? with
  | none => rfl
  | some type =>
      obtain ⟨f, member, named⟩ := List.mem_filterMap.1 (List.mem_of_getLast? innermost)
      have holds := List.all_eq_true.1 applies f member
      rw [named] at holds
      exact holds

end Occurrence

section
variable {scope : Scope} {sets : List SelectionSet} {types : Text → Bool}

theorem plannedFor_perm {provider : MetadataProvider} {plan : Option SelectionPlan}
    (follow : followsGroups provider scope sets plan) (immediate : defersNothing scope sets)
    (literal : hasLiteralConditions sets) (enclosing : types scope.parentType = true) (value : Text → Bool)
    (key : Text) : (plannedFor types key plan).Perm (collectedInnermost value types key sets) := by
  refine (followsGroups_select follow fun k => k.1.all types && k.2 == key).trans (.of_eq ?_)
  refine congrArg (List.map _) (List.filter_congr fun o member => ?_)
  -- Without variables and deferral, planning decides as execution does at every assignment.
  have planned : o.isPlanned scope.isDeferrable = o.isAdmitted value := by
    rw [Occurrence.isAdmitted_of_literal value (literal o member), Occurrence.isPlanned, Bool.and_eq_left_iff_imp]
    exact immediate o member
  rw [planned, Occurrence.recorded_all types enclosing, Bool.and_assoc]

theorem collectedInnermost_bounds (parentType : Text) (value types : Text → Bool) (key : Text)
    (sets : List SelectionSet) :
    (collectedAway parentType value types key sets).Subperm (collectedInnermost value types key sets) ∧
      (collectedInnermost value types key sets).Subperm
        (collectedAway parentType value types key sets ++ returning parentType key sets) := by
  let collected (o : Occurrence) : Bool := o.isAdmitted value && o.innermostType?.all types && o.responseKey == key
  let away (o : Occurrence) : Bool := !decide (o.ReturnsTo parentType)
  have parts := (List.filter_append_perm away ((occurrencesOf sets).filter collected)).map (·.field)
  rw [List.filter_filter, List.filter_filter, List.map_append] at parts
  have first : collectedAway parentType value types key sets =
      ((occurrencesOf sets).filter fun o => away o && collected o).map (·.field) :=
    congrArg (List.map _) (List.filter_congr fun o _ => Bool.and_comm _ _)
  rw [first]
  refine ⟨(List.sublist_append_left _ _).subperm.trans parts.subperm, parts.symm.subperm.trans ?_⟩
  refine (List.subperm_append_left _).2 (List.Sublist.subperm ?_)
  refine (List.monotone_filter_right _ fun o back => ?_).map _
  simp only [away, collected, Bool.not_not, Bool.and_eq_true, Occurrence.isAdmitted_eq] at back ⊢
  exact ⟨⟨back.2.1.1.1, back.2.2⟩, back.1⟩

theorem collectedInnermost_perm_iff (literal : hasLiteralConditions sets) (value : Text → Bool) (key : Text) :
    (collectedInnermost value types key sets).Perm (collectedFor value types key sets) ↔
      ∀ o ∈ occurrencesOf sets, o.isIncluded → o.responseKey = key → o.innermostType?.all types →
        o.appliesTo types := by
  constructor
  · intro same o member included keyed innermost
    have nested : collectedFor value types key sets =
        (((occurrencesOf sets).filter fun o =>
          o.isAdmitted value && o.innermostType?.all types && o.responseKey == key).filter
            (·.appliesTo types)).map (·.field) := by
      rw [List.filter_filter]
      refine congrArg (List.map _) (List.filter_congr fun o _ => ?_)
      cases applies : o.appliesTo types with
      | false => simp
      | true => simp [Occurrence.innermost_of_appliesTo applies]
    have lengths := same.length_eq
    rw [nested, collectedInnermost, List.length_map, List.length_map, eq_comm, List.length_filter_eq_length_iff]
      at lengths
    refine lengths o (List.mem_filter.2 ⟨member, ?_⟩)
    rw [Occurrence.isAdmitted_of_literal value (literal o member), included, innermost, keyed]
    simp
  · intro outer
    refine .of_eq (congrArg (List.map _) (List.filter_congr fun o member => ?_))
    rw [Occurrence.isAdmitted_of_literal value (literal o member), Bool.eq_iff_iff]
    simp only [Bool.and_eq_true, beq_iff_eq]
    constructor
    · rintro ⟨⟨included, innermost⟩, keyed⟩
      exact ⟨⟨included, outer o member included keyed innermost⟩, keyed⟩
    · rintro ⟨⟨included, applies⟩, keyed⟩
      exact ⟨⟨included, Occurrence.innermost_of_appliesTo applies⟩, keyed⟩

end

theorem plan_keeps_innermost_conditions {operation : PreparedOperation} {provider : MetadataProvider} {plan : QueryPlan}
    (built : (operation.plan provider).1 = .ok plan) :
    ∃ rootType, provider.rootType? operation.type = some rootType ∧
      keepsInnermostConditions.OnPlan operation rootType plan := by
  obtain ⟨rootType, known, follows⟩ := operation.plan_onPlan built
  refine ⟨rootType, known, follows.mono fun scope sets selections follow immediate literal types enclosing value key => ?_⟩
  have planned := plannedFor_perm follow immediate literal enclosing value key
  obtain ⟨least, most⟩ := collectedInnermost_bounds scope.parentType value types key sets
  refine ⟨least.trans planned.symm.subperm, planned.subperm.trans most, fun _ => ?_⟩
  rw [← collectedInnermost_perm_iff literal value key]
  exact ⟨planned.symm.trans, planned.trans⟩

namespace NestedConditions

def field : Field := ⟨none, { text := "x" }, [], none, [], none, none⟩

def on (type : Text) (selection : Selection) : Selection :=
  .inline ⟨some { name := { text := type } }, [], ⟨[selection], none⟩, none⟩

/-- `{ ... on A { ... on B { x } } }` -/
def query : Operation where
  type := .query
  name := none
  variableDefinitions := []
  directives := []
  selectionSet := ⟨[on "A" (on "B" (.field field))], none⟩

def operation : PreparedOperation := .verbatim { definitions := [.operation query] } ⟨0, query⟩

def provider : MetadataProvider :=
  .ofTables [(.query, "Query")] [("B.x", ⟨.ofName "String", false, true, false, true⟩)]

def planField : PlanField where
  responseKey := "x"
  fieldName := "x"
  parentType := "B"
  typeCondition := some "B"
  path := ["x"]
  fieldNodes := [field]
  arguments := []
  directives := []
  resultType := .ofName "String"
  metadata := ⟨.ofName "String", false, true, false, true⟩

def selections : SelectionPlan := .parallel [.resolve (.resolver planField)]

def plan : QueryPlan where
  root := ⟨.query, none, .selections (some selections)⟩
  streams := Planner.orderStreams []
  deferred := []

theorem plan_eq : (operation.plan provider).1 = .ok plan := rfl

theorem keeps_innermost_condition : (operation.plan provider).1 = .ok plan ∧
    ∃ rootType, provider.rootType? operation.type = some rootType ∧
      keepsInnermostConditions.OnPlan operation rootType plan :=
  ⟨plan_eq, plan_keeps_innermost_conditions plan_eq⟩

theorem outer_condition_lost : ¬ ∀ (operation : PreparedOperation) (provider : MetadataProvider) (plan : QueryPlan),
    (operation.plan provider).1 = .ok plan → ∃ rootType, provider.rootType? operation.type = some rootType ∧
      keepsTypeConditions.OnPlan operation rootType plan := by
  intro claim
  obtain ⟨rootType, known, law⟩ := claim operation provider plan plan_eq
  obtain rfl : "Query" = rootType := Option.some.inj known
  have same := law.top rfl
    (fun o member _ => by
      obtain rfl := List.mem_singleton.1 member
      rfl)
    (fun o member => by
      obtain rfl := List.mem_singleton.1 member
      exact ⟨rfl, rfl⟩)
    (· ≠ "A") (by decide) (fun _ => true) "x"
  have planned : plannedFor (· ≠ "A") "x" (some selections) = [field] := rfl
  have collected : collectedFor (fun _ => true) (· ≠ "A") "x" [operation.selectionSet] = [] := rfl
  rw [planned, collected] at same
  exact absurd same.length_eq (by decide)

end NestedConditions

end QueryPlanner
