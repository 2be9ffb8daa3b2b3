import QueryPlanner.Proofs.Plan.Follows

namespace QueryPlanner

def enter (parentType : Text) (condition : Option Text) (type : Text) : Option Text :=
  if type = condition.getD parentType then condition else some type

theorem foldl_enter_some (parentType condition : Text) (types : List Text) :
    types.foldl (enter parentType) (some condition) = some (types.getLast?.getD condition) := by
  induction types generalizing condition with
  | nil => rfl
  | cons type rest ih =>
      have entered : enter parentType (some condition) type = some type := by
        simp only [enter, Option.getD_some]
        split_ifs with same
        · rw [same]
        · rfl
      rw [List.foldl_cons, entered, ih, List.getLast?_cons, Option.getD_some]

theorem foldl_enter_none (parentType : Text) (types : List Text) :
    types.foldl (enter parentType) none = if types.all (· = parentType) then none else types.getLast? := by
  induction types with
  | nil => rfl
  | cons type rest ih =>
      by_cases same : type = parentType
      · have entered : enter parentType none type = none := by simp [enter, same]
        rw [List.foldl_cons, entered, ih]
        cases rest with
        | nil => simp [same]
        | cons next rest => simp [same, List.getLast?_cons_cons]
      · have entered : enter parentType none type = some type := by simp [enter, same]
        rw [List.foldl_cons, entered, foldl_enter_some, List.getLast?_cons]
        simp [same]

namespace Occurrence

def types (o : Occurrence) : List Text := o.within.filterMap (·.typeName?)

def StaysOn (type : Text) (o : Occurrence) : Prop := ∀ named ∈ o.types, named = type

/-- The fragments around the field name another type before they come back to the given one. -/
def ReturnsTo (type : Text) (o : Occurrence) : Prop := o.types.getLast? = some type ∧ ∃ named ∈ o.types, named ≠ type

theorem recorded_eq_foldl (parentType : Text) (condition : Option Text) (o : Occurrence) :
    o.recorded parentType condition = o.types.foldl (enter parentType) condition := by
  obtain ⟨field, within⟩ := o
  unfold recorded types
  induction within generalizing condition with
  | nil => rfl
  | cons f rest ih =>
      rw [List.foldl_cons, ih, List.filterMap_cons]
      cases named : f.typeCondition with
      | none => simp [InlineFragment.typeName?, named, narrow]
      | some type => simp [InlineFragment.typeName?, named, narrow, enter]

theorem recorded_eq_none_iff {parentType : Text} {o : Occurrence} :
    o.recorded parentType none = none ↔ o.StaysOn parentType := by
  rw [recorded_eq_foldl, foldl_enter_none, StaysOn]
  split_ifs with stays
  · simpa using stays
  · rw [List.getLast?_eq_none_iff]
    refine ⟨fun empty => absurd ?_ stays, fun same => absurd ?_ stays⟩
    · simp [empty]
    · simpa using same

theorem recorded_eq_some_iff {parentType : Text} {o : Occurrence} :
    o.recorded parentType none = some parentType ↔ o.ReturnsTo parentType := by
  rw [recorded_eq_foldl, foldl_enter_none, ReturnsTo]
  split_ifs with stays
  · have same : ∀ named ∈ o.types, named = parentType := by simpa using stays
    exact ⟨nofun, fun ⟨_, named, member, other⟩ => absurd (same named member) other⟩
  · have other : ∃ named ∈ o.types, named ≠ parentType := by simpa using stays
    exact ⟨fun last => ⟨last, other⟩, And.left⟩

end Occurrence

def FieldPlan.target (node : FieldPlan) : Text × Text := (node.field.parentType, node.field.responseKey)

def plansOncePerType : SelectionLaw := fun scope _ plan =>
  ((SelectionPlan.nodesOf plan).map FieldPlan.target).Nodup ∧
    ∀ node ∈ SelectionPlan.nodesOf plan, node.field.typeCondition ≠ some scope.parentType

def Scope.planned (scope : Scope) (sets : List SelectionSet) : List Occurrence :=
  (occurrencesOf sets).filter (·.isPlanned scope.isDeferrable)

/--
The fields differ in condition or response key. The enclosing type is a condition exactly if a planned field stands in
fragments that come back to it; a response key is planned twice on one type exactly if another field of the same key
stands in no fragments on other types.
-/
def plansOncePerTypeUnlessReturning : SelectionLaw := fun scope sets plan =>
  ((SelectionPlan.nodesOf plan).map FieldPlan.key).Nodup ∧
    ((∀ node ∈ SelectionPlan.nodesOf plan, node.field.typeCondition ≠ some scope.parentType) ↔
      ∀ o ∈ scope.planned sets, ¬ o.ReturnsTo scope.parentType) ∧
    (((SelectionPlan.nodesOf plan).map FieldPlan.target).Nodup ↔
      ∀ o ∈ scope.planned sets, ∀ o' ∈ scope.planned sets, o.ReturnsTo scope.parentType →
        o'.StaysOn scope.parentType → o.responseKey ≠ o'.responseKey)

def GroupKey.target (parentType : Text) (k : GroupKey) : Text × Text := (k.1.getD parentType, k.2)

theorem GroupKey.nodup_target_iff {parentType : Text} {keys : List GroupKey} (distinct : keys.Nodup) :
    (keys.map (GroupKey.target parentType)).Nodup ↔
      ∀ key, (some parentType, key) ∈ keys → (none, key) ∉ keys := by
  rw [List.nodup_map_iff_inj_on distinct]
  constructor
  · intro injective key returned stayed
    have := injective _ returned _ stayed rfl
    simp at this
  · rintro apart ⟨condition, key⟩ member ⟨condition', key'⟩ member' same
    obtain ⟨type, rfl⟩ : condition.getD parentType = condition'.getD parentType ∧ key = key' := by
      simpa [target] using same
    cases condition with
    | none =>
        cases condition' with
        | none => rfl
        | some named =>
            obtain rfl : parentType = named := type
            exact absurd member (apart key member')
    | some named =>
        cases condition' with
        | none =>
            obtain rfl : named = parentType := type
            exact absurd member' (apart key member)
        | some named' =>
            obtain rfl : named = named' := type
            rfl

section
variable {provider : MetadataProvider} {scope : Scope} {sets : List SelectionSet} {plan : Option SelectionPlan}

theorem followsGroups_keys_nodup (follow : followsGroups provider scope sets plan) :
    ((SelectionPlan.nodesOf plan).map FieldPlan.key).Nodup :=
  (followsGroups_keys follow).nodup_iff.2 (FieldGroup.collects_ofFields _ _).distinct

theorem followsGroups_mem_keys (follow : followsGroups provider scope sets plan) {k : GroupKey} :
    k ∈ (SelectionPlan.nodesOf plan).map FieldPlan.key ↔
      ∃ o ∈ scope.planned sets, (o.recorded scope.parentType none, o.responseKey) = k := by
  rw [(followsGroups_keys follow).mem_iff, Scope.groups, FieldGroup.mem_keys_ofFields, scope.found_fields,
    List.map_map]
  exact List.mem_map

theorem followsGroups_targets (follow : followsGroups provider scope sets plan) :
    (SelectionPlan.nodesOf plan).map FieldPlan.target =
      ((SelectionPlan.nodesOf plan).map FieldPlan.key).map (GroupKey.target scope.parentType) := by
  rw [List.map_map]
  refine List.map_congr_left fun node member => ?_
  rw [FieldPlan.target, followsGroups_parentType follow member]
  rfl

end

theorem plan_once_per_type_iff {operation : PreparedOperation} {provider : MetadataProvider} {plan : QueryPlan}
    (built : (operation.plan provider).1 = .ok plan) :
    ∃ rootType, provider.rootType? operation.type = some rootType ∧
      plansOncePerTypeUnlessReturning.OnPlan operation rootType plan := by
  obtain ⟨rootType, known, follows⟩ := operation.plan_onPlan built
  refine ⟨rootType, known, follows.mono fun scope sets selections follow => ?_⟩
  have distinct := followsGroups_keys_nodup follow
  refine ⟨distinct, ?_, ?_⟩
  · constructor
    · intro apart o member returns
      obtain ⟨node, planned, key⟩ := List.mem_map.1 ((followsGroups_mem_keys follow).2 ⟨o, member, rfl⟩)
      rw [Occurrence.recorded_eq_some_iff.2 returns] at key
      exact apart node planned (congrArg Prod.fst key)
    · intro apart node planned condition
      obtain ⟨o, member, key⟩ := (followsGroups_mem_keys follow).1 (List.mem_map_of_mem planned)
      have recorded : o.recorded scope.parentType none = some scope.parentType :=
        (congrArg Prod.fst key).trans condition
      exact apart o member (Occurrence.recorded_eq_some_iff.1 recorded)
  · rw [followsGroups_targets follow, GroupKey.nodup_target_iff distinct]
    constructor
    · intro apart o member o' member' returns stays same
      refine apart o.responseKey ((followsGroups_mem_keys follow).2 ⟨o, member, ?_⟩)
        ((followsGroups_mem_keys follow).2 ⟨o', member', ?_⟩)
      · rw [Occurrence.recorded_eq_some_iff.2 returns]
      · rw [Occurrence.recorded_eq_none_iff.2 stays, same]
    · intro apart key returned stayed
      obtain ⟨o, member, first⟩ := (followsGroups_mem_keys follow).1 returned
      obtain ⟨o', member', second⟩ := (followsGroups_mem_keys follow).1 stayed
      obtain ⟨returns, rfl⟩ := Prod.mk.inj first
      obtain ⟨stays, same⟩ := Prod.mk.inj second
      exact apart o member o' member' (Occurrence.recorded_eq_some_iff.1 returns)
        (Occurrence.recorded_eq_none_iff.1 stays) same.symm

namespace ReturningFragment

def field : Field := ⟨none, { text := "x" }, [], none, [], none, none⟩

def on (type : Text) (selection : Selection) : Selection :=
  .inline ⟨some { name := { text := type } }, [], ⟨[selection], none⟩, none⟩

/-- `{ x ... on A { ... on Query { x } } }` -/
def query : Operation where
  type := .query
  name := none
  variableDefinitions := []
  directives := []
  selectionSet := ⟨[.field field, on "A" (on "Query" (.field field))], none⟩

def operation : PreparedOperation := .verbatim { definitions := [.operation query] } ⟨0, query⟩

def metadata : FieldMetadata := ⟨.ofName "String", false, true, false, true⟩

def provider : MetadataProvider := .ofTables [(.query, "Query")] [("Query.x", metadata)]

def planField (condition : Option Text) : PlanField where
  responseKey := "x"
  fieldName := "x"
  parentType := "Query"
  typeCondition := condition
  path := ["x"]
  fieldNodes := [field]
  arguments := []
  directives := []
  resultType := .ofName "String"
  metadata

def selections : SelectionPlan :=
  .parallel [.resolve (.resolver (planField none)), .resolve (.resolver (planField (some "Query")))]

def plan : QueryPlan where
  root := ⟨.query, none, .selections (some selections)⟩
  streams := Planner.orderStreams []
  deferred := []

theorem plan_eq : (operation.plan provider).1 = .ok plan := rfl

theorem once_per_type_iff : (operation.plan provider).1 = .ok plan ∧
    ∃ rootType, provider.rootType? operation.type = some rootType ∧
      plansOncePerTypeUnlessReturning.OnPlan operation rootType plan :=
  ⟨plan_eq, plan_once_per_type_iff plan_eq⟩

theorem planned_twice : ¬ ∀ (operation : PreparedOperation) (provider : MetadataProvider) (plan : QueryPlan),
    (operation.plan provider).1 = .ok plan → ∃ rootType, provider.rootType? operation.type = some rootType ∧
      plansOncePerType.OnPlan operation rootType plan := by
  intro claim
  obtain ⟨rootType, known, law⟩ := claim operation provider plan plan_eq
  obtain rfl : "Query" = rootType := Option.some.inj known
  obtain ⟨distinct, -⟩ := law.top rfl
  have targets : (SelectionPlan.nodesOf (some selections)).map FieldPlan.target =
      List.replicate 2 ((planField none).parentType, (planField none).responseKey) := rfl
  rw [targets, List.nodup_replicate] at distinct
  omega

end ReturningFragment

end QueryPlanner
