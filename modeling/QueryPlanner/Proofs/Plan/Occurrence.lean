import QueryPlanner.Plan.Flattening
import Mathlib.Tactic.SplitIfs

namespace QueryPlanner

/-- A field and the inline fragments that it stands in, outermost first. -/
structure Occurrence where
  field : Field
  within : List InlineFragment

def Occurrence.inside (fragment : InlineFragment) (o : Occurrence) : Occurrence :=
  { o with within := fragment :: o.within }

mutual

def Selection.occurrences : Selection → List Occurrence
  | .field f => [⟨f, []⟩]
  | .spread _ => []
  | .inline ⟨typeCondition, directives, set, loc⟩ =>
    set.occurrences.map (.inside ⟨typeCondition, directives, set, loc⟩)

def SelectionSet.occurrences : SelectionSet → List Occurrence
  | ⟨selections, _⟩ => occurrencesIn selections

def occurrencesIn : List Selection → List Occurrence
  | [] => []
  | s :: rest => s.occurrences ++ occurrencesIn rest

end

namespace Directive

def required? (d : Directive) : Option Bool :=
  if d.name.text = "skip" then some false else if d.name.text = "include" then some true else none

def admits (value : Text → Bool) (d : Directive) : Bool :=
  match d.required?, d.argument? "if" with
  | some required, some (.boolean b _) => b == required
  | some required, some (.var v) => value v.name.text == required
  | _, _ => true

def variableCondition? (d : Directive) : Option (Text × Bool) := do
  let required ← d.required?
  let name ← (d.argument? "if").bind Value.varName?
  return (name, required)

theorem admits_eq (value : Text → Bool) (d : Directive) :
    d.admits value = (!d.excludes && d.variableCondition?.all fun c => value c.1 == c.2) := by
  have distinct : ¬ Text.ofString "include" = Text.ofString "skip" := by decide
  unfold admits excludes variableCondition? required?
  cases d.argument? "if" with
  | none => split_ifs <;> rfl
  | some v =>
      by_cases skip : d.name.text = "skip"
      · cases v with
        | boolean b => cases b <;> simp [skip, Ne.symm distinct, Value.boolean?, Value.varName?]
        | _ => simp [skip, Value.boolean?, Value.varName?]
      · by_cases incl : d.name.text = "include"
        · cases v with
          | boolean b => cases b <;> simp [incl, distinct, Value.boolean?, Value.varName?]
          | _ => simp [incl, distinct, Value.boolean?, Value.varName?]
        · cases v with
          | boolean b => cases b <;> simp [skip, incl, Value.boolean?]
          | _ => simp [skip, incl, Value.boolean?]

end Directive

def allHold (value : Text → Bool) (conditions : List (Text × Bool)) : Bool := conditions.all fun c => value c.1 == c.2

def admitsAll (value : Text → Bool) (directives : List Directive) : Bool := directives.all (·.admits value)

def variableConditions (directives : List Directive) : List (Text × Bool) :=
  directives.filterMap (·.variableCondition?)

theorem admitsAll_eq (value : Text → Bool) (directives : List Directive) :
    admitsAll value directives = (!isExcluded directives && allHold value (variableConditions directives)) := by
  induction directives with
  | nil => rfl
  | cons d rest ih =>
      simp only [admitsAll, isExcluded, variableConditions, allHold, List.all_cons, List.any_cons] at ih ⊢
      rw [ih, Directive.admits_eq]
      cases h : d.variableCondition? <;>
        simp only [List.filterMap_cons, h, Option.all, List.all_cons, Bool.not_or, Bool.and_true] <;>
        ac_rfl

namespace InlineFragment

def typeName? (f : InlineFragment) : Option Text := f.typeCondition.map (·.name.text)

def isDeferred (isDeferrable : Bool) (f : InlineFragment) : Bool :=
  isDeferrable && (Directive.find? f.directives "defer").any fun d =>
    (d.argument? "if").bind Value.boolean? ≠ some false

end InlineFragment

namespace Occurrence

def responseKey (o : Occurrence) : Text := o.field.responseKey

def isAdmitted (value : Text → Bool) (o : Occurrence) : Bool :=
  admitsAll value o.field.directives && o.within.all fun f => admitsAll value f.directives

def isIncluded (o : Occurrence) : Bool :=
  !isExcluded o.field.directives && o.within.all fun f => !isExcluded f.directives

def isImmediate (isDeferrable : Bool) (o : Occurrence) : Bool :=
  o.within.all fun f => !f.isDeferred isDeferrable

def isPlanned (isDeferrable : Bool) (o : Occurrence) : Bool := o.isIncluded && o.isImmediate isDeferrable

def fragmentConditions (o : Occurrence) : List (Text × Bool) :=
  o.within.flatMap fun f => variableConditions f.directives

def appliesTo (types : Text → Bool) (o : Occurrence) : Bool := o.within.all fun f => f.typeName?.all types

def innermostType? (o : Occurrence) : Option Text := (o.within.filterMap (·.typeName?)).getLast?

/-- The condition that flattening records for the field, given the one in force outside. -/
def recorded (parentType : Text) (condition : Option Text) (o : Occurrence) : Option Text :=
  o.within.foldl (fun condition f => narrow parentType condition f.typeCondition) condition

theorem isAdmitted_eq (value : Text → Bool) (o : Occurrence) :
    o.isAdmitted value =
      (o.isIncluded && (allHold value (variableConditions o.field.directives) && allHold value o.fragmentConditions)) := by
  have fragments : (o.within.all fun f => admitsAll value f.directives) =
      ((o.within.all fun f => !isExcluded f.directives) && allHold value o.fragmentConditions) := by
    rw [fragmentConditions, allHold, List.all_flatMap]
    induction o.within with
    | nil => rfl
    | cons f rest ih =>
        rw [List.all_cons, List.all_cons, List.all_cons, ih, admitsAll_eq, allHold]
        ac_rfl
  rw [isAdmitted, isIncluded, fragments, admitsAll_eq]
  ac_rfl

@[simp] theorem inside_field (fragment : InlineFragment) (o : Occurrence) : (o.inside fragment).field = o.field := rfl

@[simp] theorem isPlanned_mk_nil (isDeferrable : Bool) (f : Field) :
    isPlanned isDeferrable ⟨f, []⟩ = !isExcluded f.directives := by
  simp [isPlanned, isIncluded, isImmediate]

@[simp] theorem isPlanned_inside (isDeferrable : Bool) (fragment : InlineFragment) (o : Occurrence) :
    (o.inside fragment).isPlanned isDeferrable =
      (!isExcluded fragment.directives && !fragment.isDeferred isDeferrable && o.isPlanned isDeferrable) := by
  simp only [isPlanned, isIncluded, isImmediate, inside, List.all_cons]
  ac_rfl

@[simp] theorem recorded_inside (parentType : Text) (condition : Option Text) (fragment : InlineFragment)
    (o : Occurrence) :
    (o.inside fragment).recorded parentType condition =
      o.recorded parentType (narrow parentType condition fragment.typeCondition) := rfl

theorem narrow_getD (parentType : Text) (condition : Option Text) (typeCondition : Option NamedType) :
    (narrow parentType condition typeCondition).getD parentType =
      (typeCondition.map (·.name.text)).getD (condition.getD parentType) := by
  cases typeCondition with
  | none => rfl
  | some type =>
      simp only [narrow]
      split_ifs with same
      · simp [same]
      · rfl

theorem recorded_getD (parentType : Text) (o : Occurrence) :
    (o.recorded parentType none).getD parentType = o.innermostType?.getD parentType := by
  have fold (fragments : List InlineFragment) (condition : Option Text) :
      (fragments.foldl (fun condition f => narrow parentType condition f.typeCondition) condition).getD parentType =
        ((fragments.filterMap (·.typeName?)).getLast?).getD (condition.getD parentType) := by
    induction fragments generalizing condition with
    | nil => rfl
    | cons f rest ih =>
        rw [List.foldl_cons, ih, narrow_getD]
        cases h : f.typeCondition with
        | none => simp [InlineFragment.typeName?, h]
        | some type => simp [InlineFragment.typeName?, h, List.getLast?_cons]
  exact fold o.within none

end Occurrence

@[simp] theorem Flattened.field?_field (condition : Option Text) (f : Field) :
    (field condition f).field? = some (condition, f) := rfl

@[simp] theorem Flattened.field?_inlined (reason : Event) : (inlined reason).field? = none := rfl

@[simp] theorem Flattened.field?_deferred (fragment : DeferredFragment) : (deferred fragment).field? = none := rfl

theorem decide_of_immediate {scope : Scope} (parentType : Text) {fragment : InlineFragment}
    (immediate : fragment.isDeferred scope.isDeferrable = false) :
    ∃ reason, Deferral.decide scope parentType fragment.directives = .inline reason := by
  unfold InlineFragment.isDeferred at immediate
  unfold Deferral.decide
  cases h : Directive.find? fragment.directives "defer" with
  | none => exact ⟨none, rfl⟩
  | some d =>
      simp only [h] at immediate ⊢
      split_ifs with disabled fixed
      · exact ⟨_, rfl⟩
      · exact ⟨_, rfl⟩
      · simp_all

theorem decide_of_deferred {scope : Scope} (parentType : Text) {fragment : InlineFragment}
    (deferred : fragment.isDeferred scope.isDeferrable = true) :
    ∃ label condition, Deferral.decide scope parentType fragment.directives = .aside label condition := by
  unfold InlineFragment.isDeferred at deferred
  unfold Deferral.decide
  cases h : Directive.find? fragment.directives "defer" with
  | none => simp [h] at deferred
  | some d =>
      simp only [h, Option.any_some, Bool.and_eq_true, decide_eq_true_eq] at deferred
      refine ⟨(d.argument? "label").bind Value.string?, (d.argument? "if").bind Value.varName?, ?_⟩
      simp only [deferred.1, deferred.2, if_false, Bool.not_true, Bool.false_eq_true]

mutual

theorem Selection.flatten_fields (scope : Scope) (condition : Option Text) : (s : Selection) →
    (s.flatten scope condition).filterMap (·.field?) =
      (s.occurrences.filter (·.isPlanned scope.isDeferrable)).map fun o =>
        (o.recorded scope.parentType condition, o.field)
  | .field f => by
      by_cases excluded : isExcluded f.directives <;>
        simp [Selection.flatten, Selection.occurrences, Occurrence.recorded, excluded]
  | .spread s => rfl
  | .inline ⟨typeCondition, directives, set, loc⟩ => by
      have inner := set.flatten_fields scope (narrow scope.parentType condition typeCondition)
      let fragment : InlineFragment := ⟨typeCondition, directives, set, loc⟩
      rw [Selection.flatten, Selection.occurrences, List.filter_map, List.map_map]
      by_cases excluded : isExcluded directives
      · simp [excluded, Function.comp_def]
      · by_cases deferred : fragment.isDeferred scope.isDeferrable = true
        · obtain ⟨label, deferCondition, aside⟩ := decide_of_deferred
            ((narrow scope.parentType condition typeCondition).getD scope.parentType) deferred
          simp [fragment] at deferred aside
          simp [excluded, deferred, aside, List.filterMap_cons]
        · obtain ⟨reason, inline⟩ := decide_of_immediate
            ((narrow scope.parentType condition typeCondition).getD scope.parentType) (by simpa using deferred)
          simp [fragment] at deferred inline
          cases reason <;>
            simp [excluded, deferred, inline, List.filterMap_cons, Function.comp_def, inner]

theorem SelectionSet.flatten_fields (scope : Scope) (condition : Option Text) : (set : SelectionSet) →
    (set.flatten scope condition).filterMap (·.field?) =
      (set.occurrences.filter (·.isPlanned scope.isDeferrable)).map fun o =>
        (o.recorded scope.parentType condition, o.field)
  | ⟨selections, _⟩ => flattenSelections_fields scope condition selections

theorem flattenSelections_fields (scope : Scope) (condition : Option Text) : (selections : List Selection) →
    (flattenSelections scope condition selections).filterMap (·.field?) =
      ((occurrencesIn selections).filter (·.isPlanned scope.isDeferrable)).map fun o =>
        (o.recorded scope.parentType condition, o.field)
  | [] => rfl
  | s :: rest => by
      simp only [flattenSelections, occurrencesIn, List.filterMap_append, List.filter_append, List.map_append,
        s.flatten_fields scope condition, flattenSelections_fields scope condition rest]

end

end QueryPlanner
