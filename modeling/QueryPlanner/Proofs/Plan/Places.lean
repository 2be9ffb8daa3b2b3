import QueryPlanner.Proofs.Lookup
import QueryPlanner.Proofs.Plan.Parting
import QueryPlanner.Proofs.Plan.Relocation

namespace QueryPlanner

/--
A selection set around one that it holds: the one that a field selects on its result, or that of a fragment. What the
field or fragment of the frame selects itself does not count.
-/
inductive Frame where
  | field (before : List Selection) (field : Field) (after : List Selection) (loc : Option Location)
  | fragment (before : List Selection) (fragment : InlineFragment) (after : List Selection) (loc : Option Location)

def Field.selecting (f : Field) (set : SelectionSet) : Field := { f with selectionSet := some set }

def InlineFragment.selecting (f : InlineFragment) (set : SelectionSet) : InlineFragment :=
  { f with selectionSet := set }

def Frame.around (set : SelectionSet) : Frame → SelectionSet
  | field before f after loc => ⟨before ++ .field (f.selecting set) :: after, loc⟩
  | fragment before f after loc => ⟨before ++ .inline (f.selecting set) :: after, loc⟩

abbrev Place := List Frame

def Place.fill (place : Place) (set : SelectionSet) : SelectionSet :=
  place.foldr (fun frame inner => frame.around inner) set

theorem Place.fill_cons (frame : Frame) (place : Place) (set : SelectionSet) :
    Place.fill (frame :: place) set = frame.around (place.fill set) := rfl

def InlineFragment.conditionInside (f : InlineFragment) (scope : Scope) (condition : Option Text) : Option Text :=
  narrow scope.parentType condition f.typeCondition

def InlineFragment.typeInside (f : InlineFragment) (scope : Scope) (condition : Option Text) : Text :=
  (f.conditionInside scope condition).getD scope.parentType

/--
The type in force at a place, where `hole` stands: the innermost condition recorded there, else the type of the
enclosing object. The place is a way down from one of `sets`, which are planned together in `scope`, and starts where
the given condition is in force. No type is in force where planning does not get to.
-/
def Place.typeInForce? (provider : MetadataProvider) (hole : SelectionSet) :
    Scope → List SelectionSet → Option Text → Place → Option Text
  | scope, _, condition, [] => some (condition.getD scope.parentType)
  | scope, sets, condition, .fragment _ f _ _ :: place =>
    if isExcluded f.directives then none
    else match Deferral.decide scope (f.typeInside scope condition) f.directives with
      | .inline _ => typeInForce? provider hole scope sets (f.conditionInside scope condition) place
      | .aside _ _ =>
        typeInForce? provider hole ⟨scope.path, true, f.typeInside scope condition⟩ [Place.fill place hole] none place
  | scope, sets, condition, .field _ f _ _ :: place =>
    if isExcluded f.directives then none
    else do
      let g ← (scope.groups sets).find? (·.key = (condition, f.responseKey))
      let metadata ← g.metadata? provider
      typeInForce? provider hole (scope.entered g metadata) g.sets none place

/--
Sets of two operations that are planned on one object: `hole` stands at a place in one of them, where an allowed type
is in force if any is, and `hole'` stands there in the other operation; or nothing but events sets them apart.
-/
inductive Edited (provider : MetadataProvider) (hole hole' : SelectionSet) (allowed : Text → Prop) : SetsRelation
  | events {scope : Scope} {sets sets' : List SelectionSet} :
      (scope.found sets).filterMap (·.field?) = (scope.found sets').filterMap (·.field?) →
      (scope.found sets).filterMap (·.deferred?) = (scope.found sets').filterMap (·.deferred?) →
      (scope.found sets).findSome? (·.spread?) = (scope.found sets').findSome? (·.spread?) →
      Edited provider hole hole' allowed scope sets sets'
  | inside {scope : Scope} {before after : List SelectionSet} {place : Place} :
      (∀ type ∈ place.typeInForce? provider hole scope (before ++ place.fill hole :: after) none, allowed type) →
      Edited provider hole hole' allowed scope (before ++ place.fill hole :: after)
        (before ++ place.fill hole' :: after)

theorem Edited.of_fill {provider : MetadataProvider} {hole hole' : SelectionSet} {allowed : Text → Prop} {scope : Scope}
    {place : Place}
    (law : ∀ type ∈ place.typeInForce? provider hole scope [place.fill hole] none, allowed type) :
    Edited provider hole hole' allowed scope [place.fill hole] [place.fill hole'] :=
  @Edited.inside provider hole hole' allowed scope [] [] place law

theorem flattenSelections_append (scope : Scope) (condition : Option Text) (selections selections' : List Selection) :
    flattenSelections scope condition (selections ++ selections') =
      flattenSelections scope condition selections ++ flattenSelections scope condition selections' := by
  induction selections with
  | nil => rfl
  | cons s rest ih => rw [List.cons_append, flattenSelections, ih, flattenSelections, List.append_assoc]

theorem SelectionSet.flatten_around (scope : Scope) (condition : Option Text) (before after : List Selection)
    (s : Selection) (loc : Option Location) :
    SelectionSet.flatten scope condition ⟨before ++ s :: after, loc⟩ = flattenSelections scope condition before ++
      s.flatten scope condition ++ flattenSelections scope condition after := by
  rw [SelectionSet.flatten, flattenSelections_append, flattenSelections, List.append_assoc]

theorem Selection.flatten_field_selecting (scope : Scope) (condition : Option Text) (f : Field) (set : SelectionSet) :
    Selection.flatten scope condition (.field (f.selecting set)) =
      if isExcluded f.directives then [] else [.field condition (f.selecting set)] :=
  rfl

theorem Selection.flatten_inline_selecting (scope : Scope) (condition : Option Text) (f : InlineFragment)
    (set : SelectionSet) :
    Selection.flatten scope condition (.inline (f.selecting set)) =
      if isExcluded f.directives then []
      else match Deferral.decide scope (f.typeInside scope condition) f.directives with
        | .inline none => set.flatten scope (f.conditionInside scope condition)
        | .inline (some reason) => .inlined reason :: set.flatten scope (f.conditionInside scope condition)
        | .aside label deferCondition =>
          [.deferred ⟨set, f.typeInside scope condition, scope.path, label, deferCondition⟩] :=
  rfl

section
variable {provider : MetadataProvider} {nodes : NodesRelation} {hole hole' : SelectionSet} {allowed : Text → Prop}

theorem Parted.of_fragment {related : SetsRelation} {scope : Scope} {sets : List SelectionSet} {condition : Option Text}
    {set set' : SelectionSet} (f : InlineFragment)
    (inlined : ∀ reason, isExcluded f.directives = false →
      Deferral.decide scope (f.typeInside scope condition) f.directives = .inline reason →
        Parted provider nodes related scope sets (set.flatten scope (f.conditionInside scope condition))
          (set'.flatten scope (f.conditionInside scope condition)))
    (aside : ∀ label deferCondition, isExcluded f.directives = false →
      Deferral.decide scope (f.typeInside scope condition) f.directives = .aside label deferCondition →
        related ⟨scope.path, true, f.typeInside scope condition⟩ [set] [set']) :
    Parted provider nodes related scope sets (Selection.flatten scope condition (.inline (f.selecting set)))
      (Selection.flatten scope condition (.inline (f.selecting set'))) := by
  rw [Selection.flatten_inline_selecting, Selection.flatten_inline_selecting]
  cases excluded : isExcluded f.directives with
  | true => exact (Parting.events rfl rfl rfl).parted
  | false =>
      rw [if_neg Bool.false_ne_true, if_neg Bool.false_ne_true]
      cases decided : Deferral.decide scope (f.typeInside scope condition) f.directives with
      | inline reason =>
          have inner := inlined reason excluded decided
          cases reason with
          | none => exact inner
          | some reason => simpa using inner.within [.inlined reason] []
      | aside label deferCondition =>
          let fragment (set : SelectionSet) : DeferredFragment :=
            ⟨set, f.typeInside scope condition, scope.path, label, deferCondition⟩
          have alike : (fragment set).Alike related (fragment set') :=
            ⟨rfl, rfl, rfl, rfl, aside label deferCondition excluded decided⟩
          exact (Parting.aside alike).parted

structure IsEdit (provider : MetadataProvider) (nodes : NodesRelation) (hole hole' : SelectionSet)
    (allowed : Text → Prop) : Prop where
  refl : ∀ fields, nodes fields fields
  around : ∀ front back (f : Field) (place : Place), nodes (front ++ f.selecting (place.fill hole) :: back)
    (front ++ f.selecting (place.fill hole') :: back)
  parted : ∀ (scope : Scope) (sets : List SelectionSet) (condition : Option Text),
    allowed (condition.getD scope.parentType) → Parted provider nodes (Edited provider hole hole' allowed) scope sets
      (hole.flatten scope condition) (hole'.flatten scope condition)

variable {scope : Scope} {sets sets' : List SelectionSet}

theorem Edited.of_found_eq (same : scope.found sets = scope.found sets') :
    Edited provider hole hole' allowed scope sets sets' :=
  .events (by rw [same]) (by rw [same]) (by rw [same])

theorem Scope.find?_groups {g : FieldGroup} {k : GroupKey} (member : g ∈ scope.groups sets) (own : g.key = k) :
    (scope.groups sets).find? (·.key = k) = some g :=
  (find?_eq_some_iff_of_nodup (FieldGroup.collects_ofFields _ _).distinct).2 ⟨member, own⟩

theorem IsEdit.yields (edit : IsEdit provider nodes hole hole' allowed) {f : Field} {place : Place}
    {condition : Option Text} (between : List Flattened)
    (law : ∀ g ∈ scope.groups sets, g.key = (condition, f.responseKey) →
      ∀ metadata, g.metadata? provider = some metadata →
        ∀ type ∈ place.typeInForce? provider hole (scope.entered g metadata) g.sets none, allowed type) :
    Yields provider nodes (Edited provider hole hole' allowed) scope sets condition between
      (f.selecting (place.fill hole)) (f.selecting (place.fill hole')) [] where
  named := rfl
  keyed := List.forall_mem_singleton.2 rfl
  arguments := rfl
  modifier := rfl
  directives := List.append_nil _
  leaf := by simp [Field.selecting]
  apart := .inl rfl
  fieldNodes := fun front back => edit.around front back f place
  selects := fun g member own front back fields metadata known => by
    have split (set : SelectionSet) : (front ++ f.selecting set :: back).filterMap (·.selectionSet) =
        front.filterMap (·.selectionSet) ++ set :: back.filterMap (·.selectionSet) := by
      rw [List.filterMap_append, List.filterMap_cons_some (by rfl)]
    have law := law g member own metadata known
    rw [FieldGroup.sets, fields, split] at law ⊢
    rw [List.nil_append, split]
    exact .inside law

theorem IsEdit.fill_parted (edit : IsEdit provider nodes hole hole' allowed) (place : Place) (condition : Option Text)
    (law : ∀ type ∈ place.typeInForce? provider hole scope sets condition, allowed type) :
    Parted provider nodes (Edited provider hole hole' allowed) scope sets ((place.fill hole).flatten scope condition)
      ((place.fill hole').flatten scope condition) := by
  induction place generalizing condition with
  | nil => exact edit.parted scope sets condition (law _ rfl)
  | cons frame place ih =>
      cases frame with
      | field before f after loc =>
          have shown (set : SelectionSet) := SelectionSet.flatten_around scope condition before after
            (.field (f.selecting (Place.fill place set))) loc
          rw [Place.fill_cons, Place.fill_cons, Frame.around, Frame.around, shown hole, shown hole',
            Selection.flatten_field_selecting, Selection.flatten_field_selecting]
          refine Parted.within ?_ _ _
          cases excluded : isExcluded f.directives with
          | true => exact (Parting.events rfl rfl rfl).parted
          | false =>
              refine (Parting.field (edit.yields [] fun g member own metadata known type inForce => law type ?_)).parted
              rw [Place.typeInForce?, excluded, Scope.find?_groups member own]
              simpa [known] using inForce
      | fragment before f after loc =>
          have shown (set : SelectionSet) := SelectionSet.flatten_around scope condition before after
            (.inline (f.selecting (Place.fill place set))) loc
          rw [Place.fill_cons, Place.fill_cons, Frame.around, Frame.around, shown hole, shown hole']
          refine Parted.within (Parted.of_fragment f (fun reason excluded decided => ?_) ?_) _ _
          · refine ih (f.conditionInside scope condition) fun type inForce => law type ?_
            rwa [Place.typeInForce?, excluded, decided]
          · refine fun label deferCondition excluded decided => .of_fill fun type inForce => law type ?_
            rwa [Place.typeInForce?, excluded, decided]

theorem edits_simulate (edit : IsEdit provider nodes hole hole' allowed) :
    IsSimulation provider nodes (Edited provider hole hole' allowed) := by
  refine .of_parted edit.refl (fun _ _ => .of_found_eq rfl) fun {scope sets sets'} edited => ?_
  cases edited with
  | events fields aside spread => exact (Parting.events fields aside spread).parted
  | @inside _ before after place law =>
      have found (set : SelectionSet) : scope.found (before ++ set :: after) =
          scope.found before ++ set.flatten scope none ++ scope.found after := by
        simp [Scope.found]
      rw [found (place.fill hole'), found (place.fill hole)]
      exact (edit.fill_parted place none law).within _ _

end

def PreparedOperation.typeInForce? (operation : PreparedOperation) (provider : MetadataProvider) (hole : SelectionSet)
    (place : Place) : Option Text := do
  let rootType ← provider.rootType? operation.type
  place.typeInForce? provider hole (.root rootType) [operation.selectionSet] none

/-- Up to locations, the second operation is the first with another selection set at a place. -/
structure PreparedOperation.IsEditedTo (operation operation' : PreparedOperation) (place : Place)
    (hole hole' : SelectionSet) : Prop where
  type : operation.type = operation'.type
  name : operation.name = operation'.name
  whole : operation.selectionSet = place.fill hole
  edited : operation'.selectionSet.bare = (place.fill hole').bare

theorem IsEdit.plan {provider : MetadataProvider} {nodes nodes' : NodesRelation} {hole hole' : SelectionSet}
    {allowed : Text → Prop} (edit : IsEdit provider nodes hole hole' allowed)
    (relocated : ∀ fields fields', Relation.Comp nodes RelocatedNodes fields fields' → nodes' fields fields')
    {operation operation' : PreparedOperation} {place : Place}
    (edited : operation.IsEditedTo operation' place hole hole')
    (inForce : ∀ type ∈ operation.typeInForce? provider hole place, allowed type) :
    OutcomesAlike (PlanField.Alike nodes') (operation.plan provider).1 (operation'.plan provider).1 := by
  have simulates := ((edits_simulate edit).comp (relocation_simulates provider)).mono relocated
  refine simulates.plan edited.type edited.name fun rootType known => ?_
  refine ⟨[place.fill hole'], ?_, congrArg (fun set => [set]) edited.edited.symm⟩
  have law : ∀ type ∈ place.typeInForce? provider hole (.root rootType) [place.fill hole] none, allowed type :=
    fun type member => inForce type (by
      rw [PreparedOperation.typeInForce?, known, edited.whole]
      exact member)
  rw [edited.whole]
  exact .of_fill law

end QueryPlanner
