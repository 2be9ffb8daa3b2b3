import QueryPlanner.Plan.Build

namespace QueryPlanner

/-- Speaks of selection sets on an object and of the plan made for them. -/
abbrev SelectionLaw := Scope → List SelectionSet → Option SelectionPlan → Prop

namespace SelectionPlan

def nodes : SelectionPlan → List FieldPlan
  | parallel nodes => nodes
  | serial ordered others => ordered ++ others

def nodesOf (plan : Option SelectionPlan) : List FieldPlan := plan.elim [] nodes

theorem nodesOf_ofFields (nodes : List FieldPlan) : (nodesOf (ofFields nodes)).Perm nodes := by
  have parts : (nodes.filter (·.isOrdered) ++ nodes.filter (!·.isOrdered)).Perm nodes := List.filter_append_perm _ _
  unfold ofFields
  cases empty : nodes.isEmpty with
  | true => simp [nodesOf, List.isEmpty_iff.1 empty]
  | false =>
      cases unordered : (nodes.filter (·.isOrdered)).isEmpty with
      | true =>
          rw [List.isEmpty_iff.1 unordered] at parts
          simpa [nodesOf, SelectionPlan.nodes, unordered] using parts
      | false => simpa [nodesOf, SelectionPlan.nodes, unordered] using parts

end SelectionPlan

def FieldPlan.resolution : FieldPlan → ResolvePlan
  | resolve plan => plan
  | stream plan => plan.node

namespace Scope

def found (scope : Scope) (sets : List SelectionSet) : List Flattened := sets.flatMap (·.flatten scope none)

def groups (scope : Scope) (sets : List SelectionSet) : List FieldGroup :=
  FieldGroup.ofFields scope.parentType ((scope.found sets).filterMap (·.field?))

def setAside (scope : Scope) (sets : List SelectionSet) : List DeferredFragment :=
  (scope.found sets).filterMap (·.deferred?)

def below (scope : Scope) (field : PlanField) : Scope :=
  ⟨scope.path ++ [field.responseKey], field.metadata.isDeferrable, field.resultType.namedType⟩

def root (rootType : Text) : Scope := ⟨[], true, rootType⟩

end Scope

def DeferredFragment.scope (f : DeferredFragment) : Scope := ⟨f.path, true, f.parentType⟩

def PlanField.sets (f : PlanField) : List SelectionSet := f.fieldNodes.filterMap (·.selectionSet)

def RootPlan.Shows (plan : Option SelectionPlan) : RootPlan → Prop
  | selections p => p = plan
  | subscription field below =>
    ∃ node : ResolvePlan, plan = SelectionPlan.ofFields [.resolve node] ∧ field = node.field ∧
      below = node.selections?

namespace SelectionLaw

mutual

/-- The law holds of the sets and of all sets planned below them; `aside` are the fragments set aside on the way. -/
inductive OnSets (law : SelectionLaw) : Scope → List SelectionSet → Option SelectionPlan → List DeferredFragment → Prop
  | intro {scope : Scope} {sets : List SelectionSet} {nodes : List FieldPlan} {aside : List DeferredFragment} :
      law scope sets (SelectionPlan.ofFields nodes) → OnFields law scope nodes aside →
      OnSets law scope sets (SelectionPlan.ofFields nodes) (scope.setAside sets ++ aside)

inductive OnFields (law : SelectionLaw) : Scope → List FieldPlan → List DeferredFragment → Prop
  | nil {scope : Scope} : OnFields law scope [] []
  | leaf {scope : Scope} {node : FieldPlan} {rest : List FieldPlan} {field : PlanField}
      {aside : List DeferredFragment} : node.resolution = .resolver field → OnFields law scope rest aside →
      OnFields law scope (node :: rest) aside
  | composite {scope : Scope} {node : FieldPlan} {rest : List FieldPlan} {field : PlanField}
      {selections : Option SelectionPlan} {below aside : List DeferredFragment} :
      node.resolution = .composite field selections → OnSets law (scope.below field) field.sets selections below →
      OnFields law scope rest aside → OnFields law scope (node :: rest) (below ++ aside)

end

mutual

inductive OnDeferred (law : SelectionLaw) : DeferredFragment → DeferPlan → Prop
  | intro {f : DeferredFragment} {node : Option SelectionPlan} {aside : List DeferredFragment}
      {deferred : List DeferPlan} : OnSets law f.scope [f.selectionSet] node aside → OnAllDeferred law aside deferred →
      OnDeferred law f ⟨f.label, f.path, f.parentType, f.condition, node, deferred⟩

inductive OnAllDeferred (law : SelectionLaw) : List DeferredFragment → List DeferPlan → Prop
  | nil : OnAllDeferred law [] []
  | cons {f : DeferredFragment} {plan : DeferPlan} {rest : List DeferredFragment} {plans : List DeferPlan} :
      OnDeferred law f plan → OnAllDeferred law rest plans → OnAllDeferred law (f :: rest) (plan :: plans)

end

def OnPlan (law : SelectionLaw) (operation : PreparedOperation) (rootType : Text) (plan : QueryPlan) : Prop :=
  ∃ top aside, plan.root.root.Shows top ∧ law.OnSets (.root rootType) [operation.selectionSet] top aside ∧
    law.OnAllDeferred aside plan.deferred

mutual

theorem OnSets.mono {law law' : SelectionLaw} (weaker : ∀ scope sets plan, law scope sets plan → law' scope sets plan)
    {scope : Scope} {sets : List SelectionSet} {plan : Option SelectionPlan} {aside : List DeferredFragment} :
    law.OnSets scope sets plan aside → law'.OnSets scope sets plan aside
  | .intro here fields => .intro (weaker _ _ _ here) (fields.mono weaker)

theorem OnFields.mono {law law' : SelectionLaw} (weaker : ∀ scope sets plan, law scope sets plan → law' scope sets plan)
    {scope : Scope} {nodes : List FieldPlan} {aside : List DeferredFragment} :
    law.OnFields scope nodes aside → law'.OnFields scope nodes aside
  | .nil => .nil
  | .leaf resolution rest => .leaf resolution (rest.mono weaker)
  | .composite resolution below rest => .composite resolution (below.mono weaker) (rest.mono weaker)

end

mutual

theorem OnDeferred.mono {law law' : SelectionLaw} (weaker : ∀ scope sets plan, law scope sets plan → law' scope sets plan)
    {f : DeferredFragment} {plan : DeferPlan} : law.OnDeferred f plan → law'.OnDeferred f plan
  | .intro sets nested => .intro (sets.mono weaker) (nested.mono weaker)

theorem OnAllDeferred.mono {law law' : SelectionLaw}
    (weaker : ∀ scope sets plan, law scope sets plan → law' scope sets plan)
    {fragments : List DeferredFragment} {plans : List DeferPlan} :
    law.OnAllDeferred fragments plans → law'.OnAllDeferred fragments plans
  | .nil => .nil
  | .cons first rest => .cons (first.mono weaker) (rest.mono weaker)

end

theorem OnPlan.mono {law law' : SelectionLaw} (weaker : ∀ scope sets plan, law scope sets plan → law' scope sets plan)
    {operation : PreparedOperation} {rootType : Text} {plan : QueryPlan} (h : law.OnPlan operation rootType plan) :
    law'.OnPlan operation rootType plan := by
  obtain ⟨top, aside, shows, sets, deferred⟩ := h
  exact ⟨top, aside, shows, sets.mono weaker, deferred.mono weaker⟩

theorem OnSets.here {law : SelectionLaw} {scope : Scope} {sets : List SelectionSet} {plan : Option SelectionPlan}
    {aside : List DeferredFragment} (h : law.OnSets scope sets plan aside) : law scope sets plan := by
  obtain ⟨here, -⟩ := h
  exact here

theorem OnPlan.top {law : SelectionLaw} {operation : PreparedOperation} {rootType : Text} {plan : QueryPlan}
    {selections : Option SelectionPlan} (root : plan.root.root = .selections selections)
    (h : law.OnPlan operation rootType plan) : law (.root rootType) [operation.selectionSet] selections := by
  obtain ⟨top, aside, shows, sets, -⟩ := h
  rw [root] at shows
  exact shows ▸ sets.here

end SelectionLaw

end QueryPlanner
