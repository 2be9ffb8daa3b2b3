import QueryPlanner.Proofs.Plan.Places

namespace QueryPlanner

/-- A field among others and a division of what it selects. -/
structure FieldSplit where
  before : List Selection
  field : Field
  between : List Selection
  after : List Selection
  loc : Option Location
  first : List Selection
  second : List Selection
  innerLoc : Option Location
  selects : field.selectionSet = some ⟨first ++ second, innerLoc⟩
  undirected : field.directives = []
  apart : ∀ o ∈ occurrencesIn between, o.isIncluded → o.responseKey ≠ field.responseKey

namespace FieldSplit

variable (split : FieldSplit)

def whole : SelectionSet := ⟨split.before ++ .field split.field :: (split.between ++ split.after), split.loc⟩

def firstPart : Field := split.field.selecting ⟨split.first, split.innerLoc⟩

def secondPart : Field := split.field.selecting ⟨split.second, split.innerLoc⟩

def parts : SelectionSet :=
  ⟨split.before ++ .field split.firstPart :: (split.between ++ .field split.secondPart :: split.after), split.loc⟩

theorem flatten_field (scope : Scope) (condition : Option Text) {f : Field}
    (same : f.directives = split.field.directives) :
    Selection.flatten scope condition (.field f) = [.field condition f] := by
  rw [Selection.flatten, same, split.undirected]
  rfl

theorem flatten_whole (scope : Scope) (condition : Option Text) : split.whole.flatten scope condition =
    flattenSelections scope condition split.before ++
      .field condition split.field :: flattenSelections scope condition split.between ++
      flattenSelections scope condition split.after := by
  rw [whole, SelectionSet.flatten_around, split.flatten_field scope condition rfl, flattenSelections_append]
  simp

theorem flatten_parts (scope : Scope) (condition : Option Text) : split.parts.flatten scope condition =
    flattenSelections scope condition split.before ++ .field condition split.firstPart ::
      (flattenSelections scope condition split.between ++ [split.secondPart].map (Flattened.field condition)) ++
      flattenSelections scope condition split.after := by
  rw [parts, SelectionSet.flatten_around, split.flatten_field (f := split.firstPart) scope condition rfl,
    flattenSelections_append, flattenSelections, split.flatten_field (f := split.secondPart) scope condition rfl]
  simp

theorem apart_flatten (scope : Scope) (condition : Option Text) :
    ∀ entry ∈ (flattenSelections scope condition split.between).filterMap (·.field?),
      groupKey entry ≠ (condition, split.field.responseKey) := by
  rw [flattenSelections_fields]
  refine List.forall_mem_map.2 fun o member same => ?_
  obtain ⟨occurs, planned⟩ := List.mem_filter.1 member
  have included : o.isIncluded = true := (Bool.and_eq_true_iff.1 planned).1
  exact split.apart o occurs included (congrArg Prod.snd same)

theorem found_parts (scope : Scope) (front back : List SelectionSet) :
    scope.found (front ++ ⟨split.first ++ split.second, split.innerLoc⟩ :: back) =
      scope.found (front ++ ⟨split.first, split.innerLoc⟩ :: ⟨split.second, split.innerLoc⟩ :: back) := by
  simp [Scope.found, SelectionSet.flatten, flattenSelections_append]

theorem yields (provider : MetadataProvider) (scope : Scope) (sets : List SelectionSet) (condition : Option Text) :
    Yields provider (fun _ _ => True) (Edited provider split.whole split.parts fun _ => True) scope sets condition
      (flattenSelections scope condition split.between) split.field split.firstPart [split.secondPart] where
  named := rfl
  keyed := by simp [firstPart, secondPart, Field.selecting, Field.responseKey]
  arguments := rfl
  modifier := rfl
  directives := by simp [firstPart, secondPart, Field.selecting, split.undirected]
  leaf := by simp [firstPart, secondPart, Field.selecting, split.selects]
  apart := .inr (split.apart_flatten scope condition)
  fieldNodes := fun _ _ => trivial
  selects := fun g _ _ front back fields metadata _ => by
    have merged := split.found_parts (scope.entered g metadata) (front.filterMap (·.selectionSet))
      (back.filterMap (·.selectionSet))
    have whole : g.sets = front.filterMap (·.selectionSet) ++ ⟨split.first ++ split.second, split.innerLoc⟩ ::
        back.filterMap (·.selectionSet) := by
      rw [FieldGroup.sets, fields, List.filterMap_append, List.filterMap_cons_some split.selects]
    have parts : (front ++ split.firstPart :: ([split.secondPart] ++ back)).filterMap (·.selectionSet) =
        front.filterMap (·.selectionSet) ++ ⟨split.first, split.innerLoc⟩ :: ⟨split.second, split.innerLoc⟩ ::
          back.filterMap (·.selectionSet) := by
      rw [List.filterMap_append]
      rfl
    rw [whole, parts]
    exact .of_found_eq merged

theorem isEdit (provider : MetadataProvider) :
    IsEdit provider (fun _ _ => True) split.whole split.parts fun _ => True where
  refl := fun _ => trivial
  around := fun _ _ _ _ => trivial
  parted := fun scope sets condition _ => by
    rw [split.flatten_whole, split.flatten_parts]
    exact ⟨_, _, _, _, rfl, rfl, .field (split.yields provider scope sets condition)⟩

end FieldSplit

theorem plan_merges_split_field {operation operation' : PreparedOperation} (provider : MetadataProvider) {place : Place}
    (split : FieldSplit) (edited : operation.IsEditedTo operation' place split.whole split.parts) :
    OutcomesAlike (PlanField.Alike fun _ _ => True) (operation.plan provider).1 (operation'.plan provider).1 :=
  (split.isEdit provider).plan (fun _ _ _ => trivial) edited fun _ _ => trivial

namespace MergedPieces

open DeferredStreams (field stream provider)

def split : FieldSplit where
  before := []
  field := ⟨none, { text := "s" }, [], none, [], some ⟨[field "b" [] [], field "c" [stream] []], none⟩, none⟩
  between := [field "__typename" [] []]
  after := [field "a" [stream] [field "b" [] []]]
  loc := none
  first := [field "b" [] []]
  second := [field "c" [stream] []]
  innerLoc := none
  selects := rfl
  undirected := rfl
  apart := by decide

/-- `{ a { b } ... @defer { ⋯ } }` -/
def place : Place := [
  .fragment [field "a" [] [field "b" [] []]]
    ⟨none, [{ name := { text := "defer" }, arguments := [] }], ⟨[], none⟩, none⟩ [] none]

def query (set : SelectionSet) : Operation := { DeferredStreams.query with selectionSet := place.fill set }

def operation (set : SelectionSet) : PreparedOperation :=
  .verbatim { definitions := [.operation (query set)] } ⟨0, query set⟩

theorem merges : (∃ plan, ((operation split.whole).plan provider).1 = .ok plan) ∧
    OutcomesAlike (PlanField.Alike fun _ _ => True) ((operation split.whole).plan provider).1
      ((operation split.parts).plan provider).1 := by
  have built : ∃ plan, ((operation split.whole).plan provider).1 = .ok plan := Run.exists_of_isOk (by decide +kernel)
  have edited : (operation split.whole).IsEditedTo (operation split.parts) place split.whole split.parts :=
    ⟨rfl, rfl, rfl, rfl⟩
  exact ⟨built, plan_merges_split_field provider split edited⟩

end MergedPieces

end QueryPlanner
