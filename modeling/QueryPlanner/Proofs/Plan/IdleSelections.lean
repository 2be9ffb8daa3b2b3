import QueryPlanner.Proofs.Plan.Places

namespace QueryPlanner

namespace Directive

def isLiterally (d : Directive) (b : Bool) : Prop := (d.argument? "if").bind Value.boolean? = some b

/-- `@defer(if: false)`, `@skip(if: false)` or `@include(if: true)`. -/
def IsIdle (d : Directive) : Prop :=
  d.name.text = "defer" ∧ d.isLiterally false ∨ d.name.text = "skip" ∧ d.isLiterally false ∨
    d.name.text = "include" ∧ d.isLiterally true

theorem IsIdle.excludes_eq {d : Directive} (idle : d.IsIdle) : d.excludes = false := by
  unfold excludes
  rcases idle with ⟨name, literal⟩ | ⟨name, literal⟩ | ⟨name, literal⟩ <;> rw [isLiterally] at literal <;>
    rw [literal, name] <;> decide

theorem IsIdle.literal_of_defer {d : Directive} (idle : d.IsIdle) (name : d.name.text = "defer") :
    d.isLiterally false := by
  rcases idle with ⟨-, literal⟩ | ⟨-, literal⟩ | ⟨other, -⟩
  · exact literal
  · exact literal
  · rw [name] at other
    exact absurd other (by decide)

end Directive

theorem isExcluded_of_idle {directives : List Directive} (idle : ∀ d ∈ directives, d.IsIdle) :
    isExcluded directives = false :=
  List.any_eq_false.2 fun d member => by simp [(idle d member).excludes_eq]

theorem Deferral.decide_of_idle {directives : List Directive} (idle : ∀ d ∈ directives, d.IsIdle) (scope : Scope)
    (parentType : Text) : ∃ reason, Deferral.decide scope parentType directives = .inline reason := by
  unfold Deferral.decide
  cases found : Directive.find? directives "defer" with
  | none => exact ⟨none, rfl⟩
  | some d =>
      have name : d.name.text = "defer" := by simpa using List.find?_some found
      have literal := (idle d (List.mem_of_find?_eq_some found)).literal_of_defer name
      exact ⟨some (.deferDisabled scope.path), if_pos literal⟩

/-- Selections among which some do nothing, before and after these are put there or taken away. -/
inductive IdleEdit (inForce : Text → Prop) : SelectionSet → SelectionSet → Prop
  | wrap {before run after : List Selection} {typeCondition : Option NamedType} {directives : List Directive}
      {loc innerLoc fragmentLoc : Option Location} :
      (∀ type ∈ typeCondition, ∀ name, inForce name → type.name.text = name) → (∀ d ∈ directives, d.IsIdle) →
      IdleEdit inForce ⟨before ++ (run ++ after), loc⟩
        ⟨before ++ .inline ⟨typeCondition, directives, ⟨run, innerLoc⟩, fragmentLoc⟩ :: after, loc⟩
  | drop {before after : List Selection} {selection : Selection} {loc : Option Location} :
      isExcluded selection.directives = true → (∀ spread, selection ≠ .spread spread) →
      IdleEdit inForce ⟨before ++ selection :: after, loc⟩ ⟨before ++ after, loc⟩

/-- The field itself, or with `hole'` at a place where it selects `hole`. -/
def Field.IsReplacedBy (hole hole' : SelectionSet) (f f' : Field) : Prop :=
  f = f' ∨ ∃ (g : Field) (place : Place), f = g.selecting (place.fill hole) ∧ f' = g.selecting (place.fill hole')

theorem forall₂_isReplacedBy (hole hole' : SelectionSet) (fields : List Field) :
    List.Forall₂ (Field.IsReplacedBy hole hole') fields fields :=
  List.forall₂_same.2 fun _ _ => .inl rfl

def Field.IsRewrittenTo (hole hole' : SelectionSet) (f f' : Field) : Prop :=
  ∃ replaced, f.IsReplacedBy hole hole' replaced ∧ replaced.bare = f'.bare

section
variable {hole hole' : SelectionSet} {scope : Scope} {condition : Option Text}

theorem IdleEdit.mono {inForce inForce' : Text → Prop} (edit : IdleEdit inForce hole hole')
    (weaker : ∀ name, inForce' name → inForce name) : IdleEdit inForce' hole hole' := by
  cases edit with
  | wrap named idle => exact .wrap (fun type some name force => named type some name (weaker name force)) idle
  | drop excluded written => exact .drop excluded written

theorem narrow_of_inForce {parentType : Text} {typeCondition : Option NamedType}
    (named : ∀ type ∈ typeCondition, type.name.text = condition.getD parentType) :
    narrow parentType condition typeCondition = condition := by
  cases typeCondition with
  | none => rfl
  | some type => exact if_pos (named type rfl)

theorem flatten_idle {typeCondition : Option NamedType} {directives : List Directive}
    (named : ∀ type ∈ typeCondition, type.name.text = condition.getD scope.parentType)
    (idle : ∀ d ∈ directives, d.IsIdle) (run : List Selection) (innerLoc fragmentLoc : Option Location) :
    ∃ reasons : List Event,
      Selection.flatten scope condition (.inline ⟨typeCondition, directives, ⟨run, innerLoc⟩, fragmentLoc⟩) =
        reasons.map .inlined ++ flattenSelections scope condition run := by
  have inside := narrow_of_inForce named
  obtain ⟨reason, inlined⟩ := Deferral.decide_of_idle idle scope (condition.getD scope.parentType)
  refine ⟨reason.toList, ?_⟩
  rw [Selection.flatten, isExcluded_of_idle idle, inside]
  dsimp only
  rw [inlined]
  cases reason <;> rfl

theorem flatten_excluded {selection : Selection} (excluded : isExcluded selection.directives = true)
    (written : ∀ spread, selection ≠ .spread spread) : selection.flatten scope condition = [] := by
  cases selection with
  | field f => exact if_pos excluded
  | spread s => exact absurd rfl (written s)
  | inline f =>
      obtain ⟨typeCondition, directives, set, loc⟩ := f
      exact if_pos excluded

theorem IdleEdit.flatten (edit : IdleEdit (· = condition.getD scope.parentType) hole hole') :
    ∃ (front back : List Flattened) (reasons : List Event), hole.flatten scope condition = front ++ back ∧
      hole'.flatten scope condition = front ++ reasons.map .inlined ++ back := by
  cases edit with
  | @wrap before run after typeCondition directives loc innerLoc fragmentLoc named idle =>
      obtain ⟨reasons, shown⟩ := flatten_idle (fun type some => named type some _ rfl) idle run innerLoc fragmentLoc
      refine ⟨flattenSelections scope condition before,
        flattenSelections scope condition run ++ flattenSelections scope condition after, reasons, ?_, ?_⟩
      · rw [SelectionSet.flatten, flattenSelections_append, flattenSelections_append]
      · rw [SelectionSet.flatten_around, shown]
        simp
  | @drop before after selection loc excluded written =>
      refine ⟨flattenSelections scope condition before, flattenSelections scope condition after, [], ?_, ?_⟩
      · rw [SelectionSet.flatten_around, flatten_excluded excluded written, List.append_nil]
      · rw [SelectionSet.flatten, flattenSelections_append, List.map_nil, List.append_nil]

end

theorem IdleEdit.isEdit (provider : MetadataProvider) (hole hole' : SelectionSet) :
    IsEdit provider (List.Forall₂ (Field.IsReplacedBy hole hole')) hole hole'
      fun name => IdleEdit (· = name) hole hole' where
  refl := forall₂_isReplacedBy hole hole'
  around := fun front back f place =>
    List.rel_append (forall₂_isReplacedBy hole hole' front)
      (.cons (.inr ⟨f, place, rfl, rfl⟩) (forall₂_isReplacedBy hole hole' back))
  parted := fun scope sets condition edit => by
    obtain ⟨front, back, reasons, found, found'⟩ := edit.flatten
    have fields : (reasons.map Flattened.inlined).filterMap (·.field?) = [] := by simp [Flattened.field?]
    have aside : (reasons.map Flattened.inlined).filterMap (·.deferred?) = [] := by simp [Flattened.deferred?]
    have spread : (reasons.map Flattened.inlined).findSome? (·.spread?) = none := by simp [Flattened.spread?]
    rw [found, found']
    refine (Parting.events ?_ ?_ ?_).parted
    · rw [List.filterMap_append, List.filterMap_append, List.filterMap_append, fields, List.append_nil]
    · rw [List.filterMap_append, List.filterMap_append, List.filterMap_append, aside, List.append_nil]
    · rw [List.findSome?_append, List.findSome?_append, List.findSome?_append, spread, Option.or_none]

theorem plan_ignores_idle_selections {operation operation' : PreparedOperation} {provider : MetadataProvider}
    {place : Place} {hole hole' : SelectionSet} (edited : operation.IsEditedTo operation' place hole hole')
    (idle : IdleEdit (operation.typeInForce? provider hole place = some ·) hole hole') :
    OutcomesAlike (PlanField.Alike (List.Forall₂ (Field.IsRewrittenTo hole hole'))) (operation.plan provider).1
      (operation'.plan provider).1 := by
  refine (IdleEdit.isEdit provider hole hole').plan ?_ edited fun type inForce => idle.mono ?_
  · rintro fields fields'' ⟨fields', replaced, moved⟩
    rw [RelocatedNodes, ← List.forall₂_eq_eq_eq, List.forall₂_map_left_iff, List.forall₂_map_right_iff] at moved
    exact forall₂_comp replaced moved
  · rintro _ rfl
    exact inForce

namespace IdleSelections

open DeferredStreams (field stream provider)

def directive (name : String) (b : Bool) : Directive where
  name := { text := name }
  arguments := [{ name := { text := "if" }, value := .boolean b none }]

def selections : SelectionSet := ⟨[field "b" [] []] ++ ([field "c" [stream] []] ++ []), none⟩

/-- `b ... on A @defer(if: false) { c @stream }` -/
def wrapped : SelectionSet :=
  ⟨[field "b" [] []] ++ .inline ⟨some { name := { text := "A" } }, [directive "defer" false],
    ⟨[field "c" [stream] []], none⟩, none⟩ :: [], none⟩

/-- `b @skip(if: true) c @stream` -/
def skipped : SelectionSet := ⟨[] ++ field "b" [directive "skip" true] [] :: [field "c" [stream] []], none⟩

def remaining : SelectionSet := ⟨[] ++ [field "c" [stream] []], none⟩

/-- `{ ... @defer { a { ⋯ } } }` -/
def place : Place := [
  .fragment [] ⟨none, [{ name := { text := "defer" }, arguments := [] }], ⟨[], none⟩, none⟩ [] none,
  .field [] ⟨none, { text := "a" }, [], none, [], none, none⟩ [] none]

def query (set : SelectionSet) : Operation := { DeferredStreams.query with selectionSet := place.fill set }

def operation (set : SelectionSet) : PreparedOperation :=
  .verbatim { definitions := [.operation (query set)] } ⟨0, query set⟩

theorem typeInForce : (operation selections).typeInForce? provider selections place = some "A" := by decide +kernel

theorem plans_alike : (∃ plan, ((operation selections).plan provider).1 = .ok plan) ∧
    OutcomesAlike (PlanField.Alike (List.Forall₂ (Field.IsRewrittenTo selections wrapped)))
      ((operation selections).plan provider).1 ((operation wrapped).plan provider).1 ∧
    OutcomesAlike (PlanField.Alike (List.Forall₂ (Field.IsRewrittenTo skipped remaining)))
      ((operation skipped).plan provider).1 ((operation remaining).plan provider).1 := by
  refine ⟨Run.exists_of_isOk (by decide +kernel), plan_ignores_idle_selections ⟨rfl, rfl, rfl, rfl⟩ (.wrap ?_ ?_),
    plan_ignores_idle_selections ⟨rfl, rfl, rfl, rfl⟩ (.drop (by decide +kernel) nofun)⟩
  · rintro _ ⟨⟩ name force
    rw [typeInForce] at force
    exact Option.some.inj force
  · exact List.forall_mem_singleton.2 (.inl ⟨rfl, rfl⟩)

end IdleSelections

end QueryPlanner
