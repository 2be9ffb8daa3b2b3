import QueryPlanner.Proofs.Plan.Passing
import QueryPlanner.Proofs.Plan.Grouping
import QueryPlanner.Proofs.Plan.Laws
import Mathlib.Data.List.TakeWhile

/-!
# The course of planning

What is noted and made when a plan is made, selection set by selection set, without the bounds that end the planner's
recursion. `plan_course` shows that every plan is made in such a course; what a plan is and what the planner did on the
way then follow by induction on the course.
-/

namespace QueryPlanner

/-! ## Steps -/

namespace FieldGroup

def metadata? (g : FieldGroup) (provider : MetadataProvider) : Option FieldMetadata :=
  if g.fieldName = FieldMetadata.typenameField then some .typename else provider.field? g.parentType g.fieldName

def planField (g : FieldGroup) (scope : Scope) (metadata : FieldMetadata) (resultType : TypeRef) : PlanField where
  responseKey := g.responseKey
  fieldName := g.fieldName
  parentType := g.parentType
  typeCondition := g.typeCondition
  path := scope.path ++ [g.responseKey]
  fieldNodes := g.fieldNodes
  arguments := g.first.arguments
  directives := g.fieldNodes.flatMap (·.directives)
  resultType
  metadata

def IsPlannedAs (provider : MetadataProvider) (scope : Scope) (g : FieldGroup) (field : PlanField) : Prop :=
  ∃ metadata resultType, g.metadata? provider = some metadata ∧
    metadata.resultType.modifiedBy g.first.modifier = some resultType ∧ field = g.planField scope metadata resultType

theorem IsPlannedAs.sets_eq {provider : MetadataProvider} {scope : Scope} {g : FieldGroup} {field : PlanField}
    (planned : g.IsPlannedAs provider scope field) : field.sets = g.fieldNodes.filterMap (·.selectionSet) := by
  obtain ⟨metadata, type, -, -, rfl⟩ := planned
  rfl

end FieldGroup

namespace PlanField

def lookups (f : PlanField) : List (Text × Text) :=
  if f.fieldName = FieldMetadata.typenameField then [] else [(f.parentType, f.fieldName)]

def fieldPlan (f : PlanField) (id : Nat) (resolution : ResolvePlan) : FieldPlan :=
  match f.streaming with
  | .error _ => .resolve resolution
  | .ok options => .stream ⟨id, options.label, f.path, options.initialCount, options.condition, resolution⟩

end PlanField

namespace Planning

def noting (s : Planning) (found : List Flattened) : Planning :=
  { s with
    log := s.log ++ found.filterMap (·.event?)
    deferred := s.deferred ++ found.filterMap (·.deferred?) }

def asking (s : Planning) (lookups : List (Text × Text)) : Planning := { s with lookups := s.lookups ++ lookups }

def entering (s : Planning) (f : PlanField) : Planning :=
  match f.streaming with
  | .error reason => { s.asking f.lookups with log := s.log ++ reason.toList }
  | .ok _ => { s.asking f.lookups with nextStream := s.nextStream + 1 }

def leaving (s : Planning) : FieldPlan → Planning
  | .resolve _ => s
  | .stream plan => { s with
      streams := s.streams ++ [(plan.id, plan)]
      log := s.log ++ [.fieldStreamed plan.path plan.id] }

@[simp] theorem deferred_entering (s : Planning) (f : PlanField) : (s.entering f).deferred = s.deferred := by
  unfold entering
  split <;> rfl

@[simp] theorem deferred_leaving (s : Planning) (node : FieldPlan) : (s.leaving node).deferred = s.deferred := by
  cases node <;> rfl

end Planning

/-! ## Courses -/

mutual

/-- Selection sets on an object are planned; `aside` are the fragments set aside on the way. -/
inductive SetsCourse (provider : MetadataProvider) :
    Scope → List SelectionSet → Option SelectionPlan → List DeferredFragment → Planning → Planning → Prop
  | intro {scope : Scope} {sets : List SelectionSet} {nodes : List FieldPlan} {aside : List DeferredFragment}
      {s s' : Planning} : FieldsCourse provider scope (scope.groups sets) nodes aside (s.noting (scope.found sets)) s' →
      SetsCourse provider scope sets (SelectionPlan.ofFields nodes) (scope.setAside sets ++ aside) s s'

inductive FieldsCourse (provider : MetadataProvider) :
    Scope → List FieldGroup → List FieldPlan → List DeferredFragment → Planning → Planning → Prop
  | nil {scope : Scope} {s : Planning} : FieldsCourse provider scope [] [] [] s s
  | leaf {scope : Scope} {g : FieldGroup} {groups : List FieldGroup} {field : PlanField} {node : FieldPlan}
      {nodes : List FieldPlan} {aside : List DeferredFragment} {s s' : Planning} :
      g.IsPlannedAs provider scope field → field.sets = [] →
      node = field.fieldPlan s.nextStream (.resolver field) →
      FieldsCourse provider scope groups nodes aside ((s.entering field).leaving node) s' →
      FieldsCourse provider scope (g :: groups) (node :: nodes) aside s s'
  | composite {scope : Scope} {g : FieldGroup} {groups : List FieldGroup} {field : PlanField} {node : FieldPlan}
      {nodes : List FieldPlan} {selections : Option SelectionPlan} {below aside : List DeferredFragment}
      {s s₁ s' : Planning} :
      g.IsPlannedAs provider scope field → field.sets ≠ [] →
      SetsCourse provider (scope.below field) field.sets selections below (s.entering field) s₁ →
      node = field.fieldPlan s.nextStream (.composite field selections) →
      FieldsCourse provider scope groups nodes aside (s₁.leaving node) s' →
      FieldsCourse provider scope (g :: groups) (node :: nodes) (below ++ aside) s s'

end

inductive FragmentsCourse (provider : MetadataProvider) :
    List DeferredFragment → List DeferPlan → Planning → Planning → Prop
  | nil {s : Planning} : FragmentsCourse provider [] [] s s
  | cons {f : DeferredFragment} {rest aside : List DeferredFragment} {node : Option SelectionPlan}
      {nested plans : List DeferPlan} {s s₁ s₂ s' : Planning} :
      SetsCourse provider f.scope [f.selectionSet] node aside s s₁ →
      FragmentsCourse provider aside nested s₁.withoutDeferred s₂ →
      FragmentsCourse provider rest plans s₂ s' →
      FragmentsCourse provider (f :: rest) (⟨f.label, f.path, f.parentType, f.condition, node, nested⟩ :: plans) s s'

def PlanCourse (provider : MetadataProvider) (operation : PreparedOperation) (rootType : Text) (plan : QueryPlan)
    (s' : Planning) : Prop :=
  ∃ root top aside s₁ s₂, plan.root = ⟨operation.type, operation.name, root⟩ ∧ root.Shows top ∧
    SetsCourse provider (.root rootType) [operation.selectionSet] top aside {} s₁ ∧
    FragmentsCourse provider aside plan.deferred s₁.withoutDeferred s₂ ∧
    plan.streams = Planner.orderStreams s₂.streams ∧
    s' = { s₂ with log := s₂.log ++
      [.planBuilt operation.name operation.type (countDeferred plan.deferred) plan.streams.length] }

/-! ## Heights -/

theorem SelectionSet.height_pos (set : SelectionSet) : 0 < set.height := by
  cases set
  simp [SelectionSet.height]

def Flattened.FitsIn (height : Nat) : Flattened → Prop
  | field _ f => ∀ set ∈ f.selectionSet, set.height ≤ height
  | deferred f => f.selectionSet.height ≤ height
  | _ => True

theorem Flattened.FitsIn.mono {height height' : Nat} (le : height ≤ height') {x : Flattened} (h : x.FitsIn height) :
    x.FitsIn height' := by
  cases x with
  | field condition f => exact fun set some => (h set some).trans le
  | deferred f => exact Nat.le_trans h le
  | _ => trivial

mutual

theorem Selection.flatten_fits (scope : Scope) (condition : Option Text) : (selection : Selection) →
    ∀ x ∈ selection.flatten scope condition, x.FitsIn selection.height
  | .field ⟨_, _, _, _, directives, none, _⟩ => by
      intro x member
      by_cases excluded : isExcluded directives <;> simp_all [Selection.flatten, Flattened.FitsIn]
  | .field ⟨_, _, _, _, directives, some set, _⟩ => by
      intro x member
      by_cases excluded : isExcluded directives <;>
        simp_all [Selection.flatten, Flattened.FitsIn, Selection.height]
  | .spread s => by simp [Selection.flatten, Flattened.FitsIn]
  | .inline ⟨typeCondition, directives, set, loc⟩ => by
      intro x member
      have inner := set.flatten_fits scope (narrow scope.parentType condition typeCondition)
      simp only [Selection.flatten] at member
      simp only [Selection.height]
      split_ifs at member
      · contradiction
      · split at member
        · exact (inner x member).mono (Nat.sub_le _ _)
        · rcases List.mem_cons.1 member with rfl | member
          · trivial
          · exact (inner x member).mono (Nat.sub_le _ _)
        · rw [List.mem_singleton.1 member]
          exact Nat.le_refl set.height

theorem SelectionSet.flatten_fits (scope : Scope) (condition : Option Text) : (set : SelectionSet) →
    ∀ x ∈ set.flatten scope condition, x.FitsIn (set.height - 1)
  | ⟨selections, _⟩ => flattenSelections_fits scope condition selections

theorem flattenSelections_fits (scope : Scope) (condition : Option Text) : (selections : List Selection) →
    ∀ x ∈ flattenSelections scope condition selections, x.FitsIn (selectionsHeight selections)
  | [] => by simp [flattenSelections]
  | s :: rest => by
      intro x member
      rcases List.mem_append.1 member with member | member
      · exact (s.flatten_fits scope condition x member).mono (Nat.le_max_left _ _)
      · exact (flattenSelections_fits scope condition rest x member).mono (Nat.le_max_right _ _)

end

theorem Scope.found_fits {scope : Scope} {sets : List SelectionSet} {height : Nat}
    (low : ∀ set ∈ sets, set.height ≤ height + 1) : ∀ x ∈ scope.found sets, x.FitsIn height := by
  intro x member
  obtain ⟨set, chosen, member⟩ := List.mem_flatMap.1 member
  have := low set chosen
  exact (set.flatten_fits scope none x member).mono (by omega)

theorem Scope.found_of_mem_setAside {scope : Scope} {sets : List SelectionSet} {f : DeferredFragment}
    (member : f ∈ scope.setAside sets) : .deferred f ∈ scope.found sets := by
  obtain ⟨x, found, aside⟩ := List.mem_filterMap.1 member
  cases x <;> simp only [Flattened.deferred?, Option.some.injEq, reduceCtorEq] at aside
  exact aside ▸ found

theorem Scope.found_of_mem_groups {scope : Scope} {sets : List SelectionSet} {g : FieldGroup}
    (member : g ∈ scope.groups sets) {f : Field} (node : f ∈ g.fieldNodes) :
    ∃ condition, .field condition f ∈ scope.found sets := by
  rw [FieldGroup.ofFields_fieldNodes member] at node
  obtain ⟨entry, kept, rfl⟩ := List.mem_map.1 node
  obtain ⟨x, found, field⟩ := List.mem_filterMap.1 (List.mem_filter.1 kept).1
  cases x <;> simp only [Flattened.field?, Option.some.injEq, reduceCtorEq] at field
  subst field
  exact ⟨_, found⟩

theorem Scope.setAside_height {scope : Scope} {sets : List SelectionSet} {height : Nat}
    (low : ∀ set ∈ sets, set.height ≤ height + 1) : ∀ f ∈ scope.setAside sets, f.selectionSet.height ≤ height :=
  fun _ member => scope.found_fits low _ (Scope.found_of_mem_setAside member)

theorem Scope.groups_height {scope : Scope} {sets : List SelectionSet} {height : Nat}
    (low : ∀ set ∈ sets, set.height ≤ height + 1) {g : FieldGroup} (member : g ∈ scope.groups sets) :
    ∀ set ∈ g.fieldNodes.filterMap (·.selectionSet), set.height ≤ height := by
  intro set chosen
  obtain ⟨f, node, selects⟩ := List.mem_filterMap.1 chosen
  obtain ⟨condition, found⟩ := Scope.found_of_mem_groups member node
  exact scope.found_fits low _ found set selects

/-! ## Plans are made in courses -/

namespace Position

def scope (p : Position) (parentType : Text) : Scope := ⟨p.responsePath, p.isDeferrable, parentType⟩

@[simp] theorem isDeferrable_push (p : Position) (field : PlanField) :
    (p.push field).isDeferrable = field.metadata.isDeferrable := by
  simp [isDeferrable]

theorem scope_push (p : Position) (field : PlanField) (parentType : Text) :
    (p.push field).scope field.resultType.namedType = (p.scope parentType).below field := by
  simp [scope, Scope.below]

theorem scope_branch (f : DeferredFragment) : (branch f.path).scope f.parentType = f.scope := by
  simp [scope, DeferredFragment.scope, isDeferrable, branch, currentField?, responsePath]

end Position

namespace Planner
open Run

variable {provider : MetadataProvider} {position : Position} {s s' : Planning}

theorem report_ok {event : Event} {u : Unit} : report event s = .ok u s' ↔ { s with log := s.log ++ [event] } = s' :=
  modify_ok

theorem record_of_replaced {found : List Flattened} (replaced : ∀ x ∈ found, x.spread? = none) :
    record found s = .ok () (s.noting found) := by
  have all : found.takeWhile (·.spread?.isNone) = found :=
    List.takeWhile_eq_self_iff.2 fun x member => by simpa using replaced x member
  unfold record
  rw [List.findSome?_eq_none_iff.2 replaced, all]
  rfl

theorem record_ok {found : List Flattened} {u : Unit} (h : record found s = .ok u s') : s' = s.noting found := by
  cases spread : found.findSome? (·.spread?) with
  | some name => simp [record, spread] at h
  | none =>
      rw [record_of_replaced (List.findSome?_eq_none_iff.1 spread)] at h
      cases h
      rfl

theorem collect_ok {parentType : Text} {sets : List SelectionSet} {groups : List FieldGroup}
    (h : collect position parentType sets s = .ok groups s') :
    groups = (position.scope parentType).groups sets ∧ s' = s.noting ((position.scope parentType).found sets) := by
  unfold collect at h
  simp only [bind_ok, pure_ok] at h
  obtain ⟨u, s₁, recorded, rfl, rfl⟩ := h
  exact ⟨rfl, record_ok recorded⟩

theorem metadata_ok {g : FieldGroup} {path : ResponsePath} {metadata : FieldMetadata}
    (h : Planner.metadata provider g path s = .ok metadata s') :
    g.metadata? provider = some metadata ∧
      s' = s.asking (if g.fieldName = FieldMetadata.typenameField then [] else [(g.parentType, g.fieldName)]) := by
  unfold Planner.metadata at h
  unfold FieldGroup.metadata?
  by_cases typename : g.fieldName = FieldMetadata.typenameField
  · simp only [typename, if_true, pure_ok] at h ⊢
    obtain ⟨rfl, rfl⟩ := h
    simp [Planning.asking]
  · simp only [typename, if_false, bind_ok, lookup, modify_ok, pure_ok] at h ⊢
    obtain ⟨found, s₁, ⟨-, s₂, rfl, rfl, rfl⟩, h⟩ := h
    cases found : provider.field? g.parentType g.fieldName with
    | none => simp [found, fail] at h
    | some known =>
        simp only [found, pure_ok] at h
        exact ⟨congrArg some h.1, h.2.symm⟩

theorem resultType_ok {g : FieldGroup} {declared type : TypeRef} {path : ResponsePath}
    (h : Planner.resultType g declared path s = .ok type s') :
    declared.modifiedBy g.first.modifier = some type ∧ s' = s := by
  unfold Planner.resultType at h
  cases modified : declared.modifiedBy g.first.modifier with
  | none =>
      rw [modified] at h
      cases marked : g.first.modifier <;> simp [marked, fail] at h
  | some known =>
      simp only [modified, pure_ok] at h
      exact ⟨congrArg some h.1, h.2.symm⟩

theorem planField_ok {g : FieldGroup} {field : PlanField} (parentType : Text)
    (h : planField provider position g s = .ok field s') :
    g.IsPlannedAs provider (position.scope parentType) field ∧ s' = s.asking field.lookups := by
  unfold planField at h
  simp only [bind_ok, pure_ok] at h
  obtain ⟨metadata, s₁, asked, type, s₂, typed, rfl, rfl⟩ := h
  obtain ⟨known, rfl⟩ := metadata_ok asked
  obtain ⟨modified, rfl⟩ := resultType_ok typed
  exact ⟨⟨metadata, type, known, modified, rfl⟩, rfl⟩

theorem fieldPlan_ok {below : Below} {g : FieldGroup} {node : FieldPlan} (parentType : Text)
    (h : fieldPlan provider below position g s = .ok node s') :
    ∃ field resolution s₁, g.IsPlannedAs provider (position.scope parentType) field ∧
      resolvePlan below position field (s.entering field) = .ok resolution s₁ ∧
      node = field.fieldPlan s.nextStream resolution ∧ s' = s₁.leaving node := by
  unfold fieldPlan at h
  simp only [bind_ok] at h
  obtain ⟨field, s₁, run, h⟩ := h
  obtain ⟨planned, rfl⟩ := planField_ok parentType run
  cases streaming : field.streaming with
  | error reason =>
      simp only [streaming, bind_ok, pure_ok] at h
      obtain ⟨u, s₂, reported, resolution, s₃, resolved, rfl, rfl⟩ := h
      have entered : s₂ = s.entering field := by
        simp only [Planning.entering, streaming]
        cases reason with
        | none =>
            obtain ⟨-, rfl⟩ := pure_ok.1 reported
            simp [Planning.asking]
        | some event => exact (report_ok.1 reported).symm
      refine ⟨field, resolution, s₃, planned, entered ▸ resolved, ?_, rfl⟩
      simp only [PlanField.fieldPlan, streaming]
  | ok options =>
      simp only [streaming, bind_ok, takeStreamId, get_ok, set_ok, modify_ok, pure_ok] at h
      obtain ⟨id, s₂, ⟨s₀, s₃, ⟨rfl, rfl⟩, u, s₄, rfl, rfl, rfl⟩, resolution, s₅, resolved, u, s₆, rfl, u, s₇, reported,
        rfl, rfl⟩ := h
      refine ⟨field, resolution, s₅, planned, ?_, ?_, (report_ok.1 reported).symm⟩
      · simp only [Planning.entering, streaming]
        exact resolved
      · simp only [PlanField.fieldPlan, streaming]
        rfl

theorem resolvePlan_ok {below : Below} {field : PlanField} {plan : ResolvePlan}
    (h : resolvePlan below position field s = .ok plan s') :
    plan = .resolver field ∧ field.sets = [] ∧ s = s' ∨
      ∃ selections, plan = .composite field selections ∧ field.sets ≠ [] ∧
        below (position.push field) field.resultType.namedType field.sets s = .ok selections s' := by
  unfold resolvePlan at h
  cases sets : field.fieldNodes.filterMap (·.selectionSet) with
  | nil =>
      simp only [sets, pure_ok] at h
      exact .inl ⟨h.1.symm, sets, h.2⟩
  | cons first rest =>
      simp only [sets, bind_ok, pure_ok] at h
      obtain ⟨selections, s₁, planned, rfl, rfl⟩ := h
      refine .inr ⟨selections, rfl, ?_⟩
      rw [PlanField.sets, sets]
      exact ⟨by simp, planned⟩

def CoursesBelow (provider : MetadataProvider) (height : Nat) (below : Below) : Prop :=
  ∀ ⦃position parentType sets plan s s'⦄, (∀ set ∈ sets, set.height ≤ height) → sets ≠ [] →
    below position parentType sets s = .ok plan s' →
      ∃ aside, SetsCourse provider (position.scope parentType) sets plan aside s s' ∧
        s'.deferred = s.deferred ++ aside ∧ ∀ f ∈ aside, f.selectionSet.height < height

theorem fieldPlan_course {height : Nat} {below : Below} (courses : CoursesBelow provider height below)
    {g : FieldGroup} {node : FieldPlan} (parentType : Text)
    (low : ∀ set ∈ g.fieldNodes.filterMap (·.selectionSet), set.height ≤ height)
    (h : fieldPlan provider below position g s = .ok node s') :
    ∃ aside, (∀ {groups nodes aside' s''},
        FieldsCourse provider (position.scope parentType) groups nodes aside' s' s'' →
          FieldsCourse provider (position.scope parentType) (g :: groups) (node :: nodes) (aside ++ aside') s s'') ∧
      s'.deferred = s.deferred ++ aside ∧ ∀ f ∈ aside, f.selectionSet.height < height := by
  obtain ⟨field, resolution, s₁, planned, resolved, made, rfl⟩ := fieldPlan_ok parentType h
  obtain ⟨rfl, none, rfl⟩ | ⟨selections, rfl, some, inner⟩ := resolvePlan_ok resolved
  · exact ⟨[], fun rest => .leaf planned none made rest, by simp, by simp⟩
  · obtain ⟨aside, course, added, lower⟩ := courses (planned.sets_eq ▸ low) some inner
    rw [Position.scope_push position field parentType] at course
    exact ⟨aside, fun rest => .composite planned some course made rest, by simpa using added, lower⟩

theorem fieldPlans_course {height : Nat} {below : Below} (courses : CoursesBelow provider height below)
    {groups : List FieldGroup} {nodes : List FieldPlan} (parentType : Text)
    (low : ∀ g ∈ groups, ∀ set ∈ g.fieldNodes.filterMap (·.selectionSet), set.height ≤ height)
    (h : groups.mapM (fieldPlan provider below position) s = .ok nodes s') :
    ∃ aside, FieldsCourse provider (position.scope parentType) groups nodes aside s s' ∧
      s'.deferred = s.deferred ++ aside ∧ ∀ f ∈ aside, f.selectionSet.height < height := by
  induction groups generalizing nodes s s' with
  | nil =>
      obtain ⟨rfl, rfl⟩ := pure_ok.1 h
      exact ⟨[], .nil, by simp, by simp⟩
  | cons g groups ih =>
      simp only [List.mapM_cons, bind_ok, pure_ok] at h
      obtain ⟨node, s₁, first, others, s₂, rest, rfl, rfl⟩ := h
      obtain ⟨aside, onNode, added, lower⟩ := fieldPlan_course courses parentType (low g (by simp)) first
      obtain ⟨aside', onRest, added', lower'⟩ := ih (fun g member => low g (by simp [member])) rest
      exact ⟨aside ++ aside', onNode onRest, by rw [added', added, List.append_assoc],
        List.forall_mem_append.2 ⟨lower, lower'⟩⟩

theorem selectionPlan_course (provider : MetadataProvider) (height : Nat) :
    CoursesBelow provider height (selectionPlan provider height) := by
  -- Merged sets stem from several fields, so the induction is on their height and not on a position in the source.
  induction height with
  | zero =>
      intro position parentType sets plan s s' low nonempty h
      obtain ⟨set, rest, rfl⟩ := List.exists_cons_of_ne_nil nonempty
      have := low set (by simp)
      have := set.height_pos
      omega
  | succ height ih =>
      intro position parentType sets plan s s' low nonempty h
      simp only [selectionPlan, bind_ok, pure_ok] at h
      obtain ⟨groups, s₁, collected, nodes, s₂, planned, rfl, rfl⟩ := h
      obtain ⟨rfl, rfl⟩ := collect_ok collected
      obtain ⟨aside, course, added, lower⟩ :=
        fieldPlans_course ih parentType (fun g member => Scope.groups_height low member) planned
      refine ⟨_, .intro course, by rw [added]; exact List.append_assoc _ _ _,
        List.forall_mem_append.2 ⟨fun f member => ?_, fun f member => Nat.lt_succ_of_lt (lower f member)⟩⟩
      exact Nat.lt_succ_of_le (Scope.setAside_height low f member)

theorem takeDeferred_ok {taken : List DeferredFragment} (h : takeDeferred s = .ok taken s') :
    taken = s.deferred ∧ s' = s.withoutDeferred := by
  simp only [takeDeferred, bind_ok, get_ok, set_ok, pure_ok] at h
  obtain ⟨s₀, s₁, ⟨rfl, rfl⟩, u, s₂, rfl, rfl, rfl⟩ := h
  exact ⟨rfl, rfl⟩

theorem deferPlans_course {depth : Nat} {fragments : List DeferredFragment} {plans : List DeferPlan}
    (low : ∀ f ∈ fragments, f.selectionSet.height ≤ depth) (empty : s.deferred = [])
    (h : fragments.mapM (deferPlan provider depth) s = .ok plans s') :
    FragmentsCourse provider fragments plans s s' ∧ s'.deferred = [] := by
  induction depth generalizing fragments plans s s' with
  | zero =>
      cases fragments with
      | nil =>
          obtain ⟨rfl, rfl⟩ := pure_ok.1 h
          exact ⟨.nil, empty⟩
      | cons f rest =>
          have := low f (by simp)
          have := f.selectionSet.height_pos
          omega
  | succ depth ih =>
      induction fragments generalizing plans s with
      | nil =>
          obtain ⟨rfl, rfl⟩ := pure_ok.1 h
          exact ⟨.nil, empty⟩
      | cons f rest ihRest =>
          simp only [List.mapM_cons, bind_ok, pure_ok] at h
          obtain ⟨plan, s₁, first, others, s₂, tail, rfl, rfl⟩ := h
          simp only [deferPlan, bind_ok, pure_ok] at first
          obtain ⟨node, s₃, planned, nested, s₄, taken, deferred, s₅, inner, rfl, rfl⟩ := first
          obtain ⟨aside, course, added, lower⟩ := selectionPlan_course provider _ (by simp) (by simp) planned
          obtain ⟨rfl, rfl⟩ := takeDeferred_ok taken
          rw [empty, List.nil_append] at added
          rw [added] at inner
          -- Fragments set aside in a fragment are lower than it, so the depth that is left is enough.
          have inside : ∀ g ∈ aside, g.selectionSet.height ≤ depth := fun g member =>
            Nat.le_of_lt_succ ((lower g member).trans_le (low f (by simp)))
          obtain ⟨onInner, empty'⟩ := ih inside rfl inner
          obtain ⟨onRest, empty''⟩ := ihRest (fun g member => low g (by simp [member])) empty' tail
          exact ⟨.cons (Position.scope_branch f ▸ course) onInner onRest, empty''⟩

theorem subscriptionPlan_course {operation : PreparedOperation} {rootType : Text} {root : RootPlan}
    (empty : s.deferred = []) (h : subscriptionPlan provider operation rootType s = .ok root s') :
    ∃ top aside, root.Shows top ∧ SetsCourse provider (.root rootType) [operation.selectionSet] top aside s s' ∧
      s'.deferred = aside ∧ ∀ f ∈ aside, f.selectionSet.height ≤ operation.selectionSet.height := by
  unfold subscriptionPlan at h
  simp only [bind_ok, get_ok] at h
  obtain ⟨groups, s₁, collected, s₂, s₃, ⟨rfl, rfl⟩, h⟩ := h
  obtain ⟨groups_eq, rfl⟩ := collect_ok collected
  have asideHere : (s.noting ((Position.scope {} rootType).found [operation.selectionSet])).deferred =
      (Scope.root rootType).setAside [operation.selectionSet] := by
    rw [Planning.noting, empty]
    rfl
  rw [asideHere] at h
  cases aside : (Scope.root rootType).setAside [operation.selectionSet] with
  | cons f rest => simp [aside, failSubscription, fail] at h
  | nil =>
      simp only [aside] at h
      cases groups with
      | nil => simp [failSubscription, fail] at h
      | cons g others =>
          cases others with
          | cons _ _ => simp [failSubscription, fail] at h
          | nil =>
              simp only [bind_ok] at h
              obtain ⟨node, s₄, planned, h⟩ := h
              have low : ∀ set ∈ [operation.selectionSet], set.height ≤ operation.selectionSet.height + 1 := by simp
              obtain ⟨below, onNode, added, lower⟩ := fieldPlan_course
                (selectionPlan_course provider operation.selectionSet.height) rootType
                (Scope.groups_height low (groups_eq ▸ List.mem_singleton_self g)) planned
              -- A streamed field is refused, so that the run could only return with a plain one.
              cases node with
              | stream plan => simp [failSubscription, fail] at h
              | resolve plan =>
                  obtain ⟨rfl, rfl⟩ := pure_ok.1 h
                  have course : FieldsCourse provider (.root rootType)
                      ((Scope.root rootType).groups [operation.selectionSet]) [.resolve plan] (below ++ [])
                      (s.noting ((Scope.root rootType).found [operation.selectionSet])) s₄ := by
                    have single : (Scope.root rootType).groups [operation.selectionSet] = [g] := groups_eq.symm
                    rw [single]
                    exact onNode .nil
                  refine ⟨_, _, ⟨plan, rfl, rfl, rfl⟩, .intro course, ?_, ?_⟩
                  · rw [added, asideHere, List.append_nil]
                  · rw [aside, List.nil_append, List.append_nil]
                    exact fun f member => (lower f member).le

theorem queryPlan_course {operation : PreparedOperation} {plan : QueryPlan}
    (h : queryPlan provider operation {} = .ok plan s') :
    ∃ rootType, provider.rootType? operation.type = some rootType ∧ PlanCourse provider operation rootType plan s' := by
  unfold queryPlan at h
  simp only [bind_ok, pure_ok, get_ok] at h
  obtain ⟨rootType, s₁, typed, root, s₂, rooted, aside, s₃, taken, deferred, s₄, planned, s₅, s₆, ⟨rfl, rfl⟩, u, s₇,
    reported, rfl, rfl⟩ := h
  have known : provider.rootType? operation.type = some rootType ∧ s₁ = {} := by
    unfold Planner.rootType at typed
    cases found : provider.rootType? operation.type with
    | none => simp [found, fail] at typed
    | some type =>
        simp only [found, pure_ok] at typed
        exact ⟨congrArg some typed.1, typed.2.symm⟩
  obtain ⟨known, rfl⟩ := known
  have roots : ∃ top aside, root.Shows top ∧
      SetsCourse provider (.root rootType) [operation.selectionSet] top aside {} s₂ ∧
      s₂.deferred = aside ∧ ∀ f ∈ aside, f.selectionSet.height ≤ operation.selectionSet.height := by
    unfold rootPlan at rooted
    by_cases subscribes : operation.type = .subscription
    · simp only [subscribes] at rooted
      exact subscriptionPlan_course rfl rooted
    · simp only at rooted
      obtain ⟨top, made, rfl⟩ := map_ok.1 rooted
      obtain ⟨aside, course, added, lower⟩ := selectionPlan_course provider _ (by simp) (by simp) made
      exact ⟨top, aside, rfl, course, added, fun f member => (lower f member).le⟩
  obtain ⟨top, set, shows, course, rfl, low⟩ := roots
  obtain ⟨rfl, rfl⟩ := takeDeferred_ok taken
  exact ⟨rootType, known, root, top, _, s₂, s₄, rfl, shows, course, (deferPlans_course low rfl planned).1, rfl,
    (report_ok.1 reported).symm⟩

end Planner

theorem PreparedOperation.plan_course {operation : PreparedOperation} {provider : MetadataProvider} {plan : QueryPlan}
    (built : (operation.plan provider).1 = .ok plan) :
    ∃ rootType s', provider.rootType? operation.type = some rootType ∧
      PlanCourse provider operation rootType plan s' ∧ (operation.plan provider).2.log = s'.log ∧
        (operation.plan provider).2.lookups = s'.lookups := by
  obtain ⟨s', run⟩ := PreparedOperation.plan_ok_iff.1 built
  obtain ⟨rootType, known, course⟩ := Planner.queryPlan_course run
  have passed := operation.plan_passed provider
  rw [run] at passed
  obtain ⟨t, same, notes⟩ := passed
  rw [same]
  exact ⟨rootType, s', known, course, notes⟩

end QueryPlanner
