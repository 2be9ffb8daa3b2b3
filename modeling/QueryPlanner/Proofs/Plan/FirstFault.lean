import QueryPlanner.Proofs.Lookup
import QueryPlanner.Proofs.Plan.Encounters
import QueryPlanner.Proofs.Operation.Preparation

namespace QueryPlanner

/-- The types of fields carry at most one non-null mark at each level, as all types that can be written do. -/
def MetadataProvider.IsProper (provider : MetadataProvider) : Prop :=
  ∀ parentType field metadata, provider.field? parentType field = some metadata → metadata.resultType.IsProper

theorem MetadataProvider.IsProper.of_metadata? {provider : MetadataProvider} (proper : provider.IsProper)
    {g : FieldGroup} {known : FieldMetadata} (found : g.metadata? provider = some known) :
    known.resultType.IsProper := by
  unfold FieldGroup.metadata? at found
  split_ifs at found
  · rw [← Option.some.inj found]
    exact ⟨rfl, trivial⟩
  · exact proper _ _ _ found

theorem MetadataProvider.ofTables_isProper (roots : List (OperationType × Text)) {fields : List (Text × FieldMetadata)}
    (proper : ∀ entry ∈ fields, entry.2.resultType.IsProper) : (MetadataProvider.ofTables roots fields).IsProper := by
  intro parentType field metadata found
  exact proper (MetadataProvider.key parentType field, metadata) (mem_of_lookup found)

inductive Encounter.Fault (provider : MetadataProvider) (e : Encounter) : Diagnostic → Prop
  | unknownField : e.group.metadata? provider = none →
      e.Fault provider ⟨.unknownField e.group.parentType e.group.fieldName,
        (Whereabouts.ofLocation? e.group.first.loc).withPath e.path⟩
  | modifier {metadata : FieldMetadata} {modifier : Modifier} : e.group.metadata? provider = some metadata →
      e.group.first.modifier = some modifier → metadata.resultType.depth < modifier.depth →
      e.Fault provider ⟨.nullabilityModifier (Planner.modifierMessage (some modifier) metadata.resultType
          (MetadataProvider.key e.group.parentType e.group.fieldName)),
        (Whereabouts.ofLocation? modifier.loc).withPath e.path⟩

theorem Encounter.Fault.not_canBePlanned {provider : MetadataProvider} {e : Encounter} {d : Diagnostic}
    (fault : e.Fault provider d) : ¬ e.group.CanBePlanned provider := by
  rintro ⟨metadata, known, fits⟩
  cases fault with
  | unknownField unknown => simp [known] at unknown
  | modifier known' modified deeper =>
      obtain rfl := Option.some.inj (known.symm.trans known')
      rw [modified] at fits
      exact Nat.not_le.2 deeper fits

theorem Encounter.Fault.unique {provider : MetadataProvider} {e : Encounter} {d d' : Diagnostic}
    (fault : e.Fault provider d) (fault' : e.Fault provider d') : d = d' := by
  cases fault with
  | unknownField unknown =>
      cases fault' with
      | unknownField _ => rfl
      | modifier known _ _ => simp [known] at unknown
  | modifier known modified _ =>
      cases fault' with
      | unknownField unknown => simp [known] at unknown
      | modifier known' modified' _ =>
          rw [Option.some.inj (known.symm.trans known'), Option.some.inj (modified.symm.trans modified')]

def IsFirstFault (provider : MetadataProvider) (order : List Encounter) (d : Diagnostic) : Prop :=
  ∃ before e after, order = before ++ e :: after ∧ (∀ e ∈ before, e.group.CanBePlanned provider) ∧ e.Fault provider d

namespace IsFirstFault

variable {provider : MetadataProvider} {order order' : List Encounter} {d d' : Diagnostic}

theorem not_canBePlanned (first : IsFirstFault provider order d) : ¬ ∀ e ∈ order, e.group.CanBePlanned provider := by
  obtain ⟨before, e, after, rfl, -, fault⟩ := first
  exact fun all => fault.not_canBePlanned (all e (by simp))

theorem unique (first : IsFirstFault provider order d) (first' : IsFirstFault provider order d') : d = d' := by
  classical
  have finds {d : Diagnostic} : IsFirstFault provider order d →
      ∃ e, order.find? (¬ ·.group.CanBePlanned provider) = some e ∧ e.Fault provider d := by
    rintro ⟨before, e, after, split, planned, fault⟩
    refine ⟨e, List.find?_eq_some_iff_append.2 ⟨by simpa using fault.not_canBePlanned, before, after, split, ?_⟩, fault⟩
    simpa using planned
  obtain ⟨e, found, fault⟩ := finds first
  obtain ⟨e', found', fault'⟩ := finds first'
  obtain rfl := Option.some.inj (found.symm.trans found')
  exact fault.unique fault'

theorem append (first : IsFirstFault provider order d) (after : List Encounter) :
    IsFirstFault provider (order ++ after) d := by
  obtain ⟨before, e, rest, rfl, planned, fault⟩ := first
  exact ⟨before, e, rest ++ after, by simp, planned, fault⟩

theorem prepend (planned : ∀ e ∈ order, e.group.CanBePlanned provider) (first : IsFirstFault provider order' d) :
    IsFirstFault provider (order ++ order') d := by
  obtain ⟨before, e, after, rfl, planned', fault⟩ := first
  exact ⟨order ++ before, e, after, (List.append_assoc _ _ _).symm, List.forall_mem_append.2 ⟨planned, planned'⟩, fault⟩

theorem single {e : Encounter} (fault : e.Fault provider d) : IsFirstFault provider [e] d :=
  ⟨[], e, [], rfl, List.forall_mem_nil _, fault⟩

end IsFirstFault

section
variable {provider : MetadataProvider} {scope : Scope} {g : FieldGroup} {field : PlanField}

theorem FieldGroup.IsPlannedAs.canBePlanned (proper : provider.IsProper)
    (planned : g.IsPlannedAs provider scope field) : g.CanBePlanned provider := by
  obtain ⟨metadata, type, known, modified, -⟩ := planned
  exact ⟨metadata, known, (TypeRef.isSome_modifiedBy (proper.of_metadata? known) _).1 (by rw [modified]; rfl)⟩

theorem FieldGroup.IsPlannedAs.below_eq {metadata : FieldMetadata} (planned : g.IsPlannedAs provider scope field)
    (known : g.metadata? provider = some metadata) : scope.below field = scope.entered g metadata := by
  rw [Scope.below, planned.namedType_eq]
  obtain ⟨metadata', type, known', -, rfl⟩ := planned
  rw [Option.some.inj (known.symm.trans known')]
  rfl

end

def Flattened.IsReplaced : Flattened → Prop
  | field _ f => ∀ set ∈ f.selectionSet, set.spreads = []
  | deferred f => f.selectionSet.spreads = []
  | inlined _ => True
  | spread _ => False

mutual

theorem Selection.flatten_replaced (scope : Scope) (condition : Option Text) : (selection : Selection) →
    selection.spreads = [] → ∀ x ∈ selection.flatten scope condition, x.IsReplaced
  | .field ⟨_, _, _, _, directives, none, _⟩ => by
      intro _ x member
      by_cases excluded : isExcluded directives <;> simp_all [Selection.flatten, Flattened.IsReplaced]
  | .field ⟨_, _, _, _, directives, some set, _⟩ => by
      intro replaced x member
      rw [Selection.spreads] at replaced
      by_cases excluded : isExcluded directives <;> simp_all [Selection.flatten, Flattened.IsReplaced]
  | .spread s => nofun
  | .inline ⟨typeCondition, directives, set, loc⟩ => by
      intro replaced x member
      rw [Selection.spreads] at replaced
      have inner := set.flatten_replaced scope (narrow scope.parentType condition typeCondition) replaced
      rw [Selection.flatten] at member
      split_ifs at member
      · contradiction
      · dsimp only at member
        split at member
        · exact inner x member
        · obtain rfl | member := List.mem_cons.1 member
          · trivial
          · exact inner x member
        · rw [List.mem_singleton.1 member]
          exact replaced

theorem SelectionSet.flatten_replaced (scope : Scope) (condition : Option Text) : (set : SelectionSet) →
    set.spreads = [] → ∀ x ∈ set.flatten scope condition, x.IsReplaced
  | ⟨selections, _⟩ => flattenSelections_replaced scope condition selections

theorem flattenSelections_replaced (scope : Scope) (condition : Option Text) : (selections : List Selection) →
    spreadsIn selections = [] → ∀ x ∈ flattenSelections scope condition selections, x.IsReplaced
  | [] => fun _ => List.forall_mem_nil _
  | s :: rest => fun replaced => by
      obtain ⟨first, others⟩ := List.append_eq_nil_iff.1 replaced
      exact List.forall_mem_append.2
        ⟨s.flatten_replaced scope condition first, flattenSelections_replaced scope condition rest others⟩

end

structure SelectionSet.Fits (height : Nat) (set : SelectionSet) : Prop where
  low : set.height ≤ height
  replaced : set.spreads = []

theorem SelectionSet.Fits.mono {height height' : Nat} {set : SelectionSet} (fits : set.Fits height)
    (higher : height ≤ height') : set.Fits height' :=
  ⟨fits.low.trans higher, fits.replaced⟩

theorem SelectionSet.Fits.exists_succ {height : Nat} {set : SelectionSet} (fits : set.Fits height) :
    ∃ n, height = n + 1 :=
  Nat.exists_eq_add_one.2 (set.height_pos.trans_le fits.low)

namespace Scope

variable {scope : Scope} {sets : List SelectionSet} {height : Nat}

theorem found_replaced (fit : ∀ set ∈ sets, set.Fits height) : ∀ x ∈ scope.found sets, x.IsReplaced := by
  intro x member
  obtain ⟨set, chosen, member⟩ := List.mem_flatMap.1 member
  exact set.flatten_replaced scope none (fit set chosen).replaced x member

theorem setAside_fit (fit : ∀ set ∈ sets, set.Fits (height + 1)) :
    ∀ f ∈ scope.setAside sets, f.selectionSet.Fits height := fun f member =>
  ⟨setAside_height (fun set chosen => (fit set chosen).low) f member,
    found_replaced fit _ (found_of_mem_setAside member)⟩

theorem groups_fit (fit : ∀ set ∈ sets, set.Fits (height + 1)) {g : FieldGroup} (member : g ∈ scope.groups sets) :
    ∀ set ∈ g.sets, set.Fits height := by
  intro set chosen
  obtain ⟨f, node, selects⟩ := List.mem_filterMap.1 chosen
  obtain ⟨condition, found⟩ := found_of_mem_groups member node
  exact ⟨groups_height (fun set chosen => (fit set chosen).low) member set chosen, found_replaced fit _ found set selects⟩

end Scope

section
variable {provider : MetadataProvider} {height : Nat}

mutual

theorem MeetsSets.aside_fit {scope : Scope} {sets : List SelectionSet} {order : List Encounter}
    {aside : List DeferredFragment} : MeetsSets provider scope sets order aside →
      (∀ set ∈ sets, set.Fits (height + 1)) → ∀ f ∈ aside, f.selectionSet.Fits height
  | .intro keys merged fields => fun fit => by
      have groups := Scope.groups_eq_iff.1 ⟨keys, merged⟩
      have below := fields.aside_fit fun g member => Scope.groups_fit fit (groups ▸ member)
      exact List.forall_mem_append.2 ⟨Scope.setAside_fit fit, below⟩

theorem MeetsFields.aside_fit {scope : Scope} {groups : List FieldGroup} {order : List Encounter}
    {aside : List DeferredFragment} : MeetsFields provider scope groups order aside →
      (∀ g ∈ groups, ∀ set ∈ g.sets, set.Fits height) → ∀ f ∈ aside, f.selectionSet.Fits height
  | .nil => fun _ => List.forall_mem_nil _
  | .closed _ rest => fun fit => rest.aside_fit (List.forall_mem_cons.1 fit).2
  | .entered _ _ _ below rest => fun fit => by
      obtain ⟨here, others⟩ := List.forall_mem_cons.1 fit
      have inside := below.aside_fit fun set member => (here set member).mono (Nat.le_succ _)
      exact List.forall_mem_append.2 ⟨inside, rest.aside_fit others⟩

end

end

namespace Planner
open Run

variable {α β : Type} {provider : MetadataProvider} {order order' : List Encounter} {s : Planning}

/-- A run over some fields returns if all of them can be planned, and reports the first that cannot. -/
def Tries (provider : MetadataProvider) (order : List Encounter) (returns : α → Planning → Prop) :
    EStateM.Result PlanFailure Planning α → Prop
  | .ok a s => (∀ e ∈ order, e.group.CanBePlanned provider) ∧ returns a s
  | .error failure _ => ∃ d, failure = .reported d ∧ IsFirstFault provider order d

namespace Tries

theorem pure {returns : α → Planning → Prop} {a : α} (holds : returns a s) :
    Tries provider [] returns ((Pure.pure a : Planner α) s) :=
  ⟨List.forall_mem_nil _, holds⟩

theorem bind {returns : α → Planning → Prop} {returns' : β → Planning → Prop} {p : Planner α} {f : α → Planner β}
    (first : Tries provider order returns (p s))
    (next : ∀ a s', returns a s' → Tries provider order' returns' (f a s')) :
    Tries provider (order ++ order') returns' ((p >>= f) s) := by
  cases run : p s with
  | error failure s₁ =>
      rw [run] at first
      rw [bind_of_error run]
      obtain ⟨d, reported, fault⟩ := first
      exact ⟨d, reported, fault.append order'⟩
  | ok a s₁ =>
      rw [run] at first
      obtain ⟨planned, holds⟩ := first
      have second := next a s₁ holds
      rw [bind_of_ok run]
      cases run' : f a s₁ with
      | ok b s₂ =>
          rw [run'] at second
          exact ⟨List.forall_mem_append.2 ⟨planned, second.1⟩, second.2⟩
      | error failure s₂ =>
          rw [run'] at second
          obtain ⟨d, reported, fault⟩ := second
          exact ⟨d, reported, fault.prepend planned⟩

theorem finish {returns : α → Planning → Prop} {returns' : β → Planning → Prop} {p : Planner α} {f : α → Planner β}
    (tries : Tries provider order returns (p s))
    (next : ∀ a s', returns a s' → ∃ b s'', f a s' = .ok b s'' ∧ returns' b s'') :
    Tries provider order returns' ((p >>= f) s) := by
  rw [← List.append_nil order]
  refine tries.bind fun a s' holds => ?_
  obtain ⟨b, s'', run, holds'⟩ := next a s' holds
  rw [run]
  exact ⟨List.forall_mem_nil _, holds'⟩

theorem of_ok {returns : β → Planning → Prop} {p : Planner α} {f : α → Planner β} {a : α} {s₁ : Planning}
    (first : p s = .ok a s₁) (next : Tries provider order returns (f a s₁)) :
    Tries provider order returns ((p >>= f) s) := by
  rwa [bind_of_ok first]

end Tries

section
variable {g : FieldGroup} {position : Position}

theorem lookup_eq (provider : MetadataProvider) (parentType field : Text) (s : Planning) :
    lookup provider parentType field s = .ok (provider.field? parentType field) (s.asking [(parentType, field)]) := rfl

theorem metadata_unknown (unknown : g.metadata? provider = none) (path : ResponsePath) :
    ∃ s', metadata provider g path s = .error (.reported ⟨.unknownField g.parentType g.fieldName,
      (Whereabouts.ofLocation? g.first.loc).withPath path⟩) s' := by
  unfold FieldGroup.metadata? at unknown
  split_ifs at unknown with typename
  refine ⟨s.asking [(g.parentType, g.fieldName)], ?_⟩
  unfold metadata
  rw [if_neg typename]
  rw [bind_of_ok (lookup_eq provider g.parentType g.fieldName s), unknown]
  rfl

theorem metadata_known {known : FieldMetadata} (found : g.metadata? provider = some known) (path : ResponsePath) :
    ∃ s', metadata provider g path s = .ok known s' ∧ s'.deferred = s.deferred := by
  unfold FieldGroup.metadata? at found
  unfold metadata
  split_ifs at found ⊢ with typename
  · exact ⟨s, by rw [← Option.some.inj found]; rfl, rfl⟩
  · refine ⟨s.asking [(g.parentType, g.fieldName)], ?_, rfl⟩
    rw [bind_of_ok (lookup_eq provider g.parentType g.fieldName s), found]
    rfl

theorem resultType_fits {declared type : TypeRef} (fits : declared.modifiedBy g.first.modifier = some type)
    (path : ResponsePath) : resultType g declared path s = .ok type s := by
  unfold resultType
  rw [fits]
  rfl

theorem resultType_unfit {declared : TypeRef} (unfit : declared.modifiedBy g.first.modifier = none)
    (path : ResponsePath) :
    resultType g declared path s = .error (.reported ⟨.nullabilityModifier (modifierMessage g.first.modifier declared
      (MetadataProvider.key g.parentType g.fieldName)),
      (Whereabouts.ofLocation? (g.first.modifier.bind Modifier.loc)).withPath path⟩) s := by
  unfold resultType
  rw [unfit]
  cases marked : g.first.modifier with
  | none =>
      rw [marked] at unfit
      contradiction
  | some modifier => rfl

theorem exists_modifier {declared : TypeRef} (proper : declared.IsProper)
    (unfit : declared.modifiedBy g.first.modifier = none) :
    ∃ modifier, g.first.modifier = some modifier ∧ declared.depth < modifier.depth := by
  have fits := TypeRef.isSome_modifiedBy proper g.first.modifier
  rw [unfit] at fits
  cases found : g.first.modifier with
  | none => exact absurd (fits.2 (by simp [found, elementDepth])) nofun
  | some modifier => exact ⟨modifier, rfl, by simpa [found, elementDepth] using fits⟩

theorem planField_tries (proper : provider.IsProper) (parentType : Text) :
    Tries provider [(position.scope parentType).encounter g]
      (fun field s' => g.IsPlannedAs provider (position.scope parentType) field ∧ s'.deferred = s.deferred)
      (planField provider position g s) := by
  unfold planField
  cases found : g.metadata? provider with
  | none =>
      obtain ⟨s₁, failed⟩ := metadata_unknown (s := s) found (position.responsePath ++ [g.responseKey])
      rw [bind_of_error failed]
      exact ⟨_, rfl, .single (.unknownField found)⟩
  | some known =>
      obtain ⟨s₁, asked, kept⟩ := metadata_known (s := s) found (position.responsePath ++ [g.responseKey])
      have declared := proper.of_metadata? found
      rw [bind_of_ok asked]
      cases modified : known.resultType.modifiedBy g.first.modifier with
      | none =>
          obtain ⟨modifier, marked, deeper⟩ := exists_modifier declared modified
          rw [bind_of_error (resultType_unfit modified _), marked]
          exact ⟨_, rfl, .single (.modifier found marked deeper)⟩
      | some type =>
          have fits := (TypeRef.isSome_modifiedBy declared g.first.modifier).1 (by rw [modified]; rfl)
          rw [bind_of_ok (resultType_fits modified _)]
          exact ⟨List.forall_mem_singleton.2 ⟨known, found, fits⟩, ⟨known, type, found, modified, rfl⟩, kept⟩

theorem report_returns (reason : Option Event) (s : Planning) :
    ∃ s', reason.forM report s = .ok () s' ∧ s'.deferred = s.deferred := by
  cases reason with
  | none => exact ⟨s, rfl, rfl⟩
  | some event => exact ⟨_, rfl, rfl⟩

theorem fieldPlan_tries (proper : provider.IsProper) (parentType : Text) {below : Below}
    {aside : List DeferredFragment}
    (inner : ∀ field s', g.IsPlannedAs provider (position.scope parentType) field →
      Tries provider order (fun _ s'' => s''.deferred = s'.deferred ++ aside) (resolvePlan below position field s')) :
    Tries provider ((position.scope parentType).encounter g :: order) (fun _ s' => s'.deferred = s.deferred ++ aside)
      (fieldPlan provider below position g s) := by
  unfold fieldPlan
  refine (planField_tries proper parentType).bind fun field s₁ ⟨planned, kept⟩ => ?_
  rw [← kept]
  cases field.streaming with
  | error reason =>
      obtain ⟨s₂, reported, same⟩ := report_returns reason s₁
      refine .of_ok reported ((inner field s₂ planned).finish fun resolution s₃ added => ?_)
      exact ⟨_, s₃, rfl, by rw [added, same]⟩
  | ok options =>
      have taken : takeStreamId s₁ = .ok s₁.nextStream { s₁ with nextStream := s₁.nextStream + 1 } := rfl
      refine .of_ok taken ((inner field _ planned).finish fun resolution s₃ added => ?_)
      exact ⟨_, _, rfl, added⟩

end

theorem collect_of_replaced {position : Position} {parentType : Text} {sets : List SelectionSet} {height : Nat}
    (fit : ∀ set ∈ sets, set.Fits height) :
    collect position parentType sets s = .ok ((position.scope parentType).groups sets)
      (s.noting ((position.scope parentType).found sets)) := by
  have replaced : ∀ x ∈ (position.scope parentType).found sets, x.spread? = none := by
    intro x member
    have inner := Scope.found_replaced fit x member
    cases x with
    | spread name => exact inner.elim
    | _ => rfl
  unfold collect
  exact bind_of_ok (record_of_replaced replaced)

theorem resolvePlan_leaf {below : Below} {position : Position} {field : PlanField} (empty : field.sets = []) :
    resolvePlan below position field = pure (.resolver field) := by
  rw [PlanField.sets] at empty
  unfold resolvePlan
  rw [empty]

theorem resolvePlan_selects {below : Below} {position : Position} {field : PlanField} (selects : field.sets ≠ []) :
    resolvePlan below position field =
      (below (position.push field) field.resultType.namedType field.sets >>= fun selections =>
        pure (.composite field selections)) := by
  unfold resolvePlan
  rw [PlanField.sets] at selects ⊢
  split
  · contradiction
  · rfl

mutual

theorem selectionPlan_tries (proper : provider.IsProper) {scope : Scope} {sets : List SelectionSet}
    {order : List Encounter} {aside : List DeferredFragment} {height : Nat} {position : Position} {parentType : Text}
    {s : Planning} : MeetsSets provider scope sets order aside → position.scope parentType = scope →
      (∀ set ∈ sets, set.Fits (height + 1)) →
      Tries provider order (fun _ s' => s'.deferred = s.deferred ++ aside)
        (selectionPlan provider (height + 1) position parentType sets s)
  | @MeetsSets.intro _ _ _ groups _ _ keys merged fields => fun same fit => by
      have groups_eq := Scope.groups_eq_iff.1 ⟨keys, merged⟩
      have fits : ∀ g ∈ groups, ∀ set ∈ g.sets, set.Fits height := fun g member =>
        Scope.groups_fit fit (groups_eq ▸ member)
      have tries := fieldPlans_tries proper fields same (s := s.noting (scope.found sets)) fits
      unfold selectionPlan
      refine .of_ok (collect_of_replaced fit) ?_
      rw [same, ← groups_eq]
      refine tries.finish fun nodes s' added => ⟨_, s', rfl, ?_⟩
      rw [added]
      exact List.append_assoc _ _ _

theorem fieldPlans_tries (proper : provider.IsProper) {scope : Scope} {groups : List FieldGroup}
    {order : List Encounter} {aside : List DeferredFragment} {height : Nat} {position : Position} {parentType : Text}
    {s : Planning} : MeetsFields provider scope groups order aside → position.scope parentType = scope →
      (∀ g ∈ groups, ∀ set ∈ g.sets, set.Fits height) →
      Tries provider order (fun _ s' => s'.deferred = s.deferred ++ aside)
        (groups.mapM (fieldPlan provider (selectionPlan provider height) position) s)
  | .nil => fun _ _ => .pure (List.append_nil _).symm
  | @MeetsFields.closed _ _ g _ _ _ ends rest => fun same fit => by
      -- If the field can be planned at all, nothing is selected on it.
      have leaf : ∀ field s', g.IsPlannedAs provider (position.scope parentType) field →
          Tries provider [] (fun _ s'' => s''.deferred = s'.deferred ++ [])
            (resolvePlan (selectionPlan provider height) position field s') := by
        intro field s' planned
        have empty : g.sets = [] := ends.resolve_left (not_not_intro (planned.canBePlanned proper))
        rw [resolvePlan_leaf (planned.sets_eq.trans empty)]
        exact .pure (List.append_nil _).symm
      have first := fieldPlan_tries (s := s) proper parentType leaf
      rw [same] at first
      rw [List.mapM_cons]
      refine first.bind fun node s₁ added => ?_
      have others := fieldPlans_tries proper rest same (s := s₁) (List.forall_mem_cons.1 fit).2
      exact others.finish fun nodes s₂ added' => ⟨_, s₂, rfl, by rw [added', added, List.append_nil]⟩
  | @MeetsFields.entered _ _ g _ metadata inner _ below _ _ known selects sets rest => fun same fit => by
      obtain ⟨here, fit⟩ := List.forall_mem_cons.1 fit
      have composite : ∀ field s', g.IsPlannedAs provider (position.scope parentType) field →
          Tries provider inner (fun _ s'' => s''.deferred = s'.deferred ++ below)
            (resolvePlan (selectionPlan provider height) position field s') := by
        intro field s' planned
        have sets_eq : field.sets = g.sets := planned.sets_eq
        obtain ⟨set, member⟩ := List.exists_mem_of_ne_nil _ selects
        obtain ⟨height, rfl⟩ := (here set member).exists_succ
        rw [resolvePlan_selects (sets_eq ▸ selects), sets_eq]
        have entered : (position.push field).scope field.resultType.namedType = scope.entered g metadata := by
          rw [Position.scope_push position field parentType, planned.below_eq known, same]
        have inside := selectionPlan_tries proper sets entered (s := s') here
        exact inside.finish fun selections s'' added => ⟨_, s'', rfl, added⟩
      have first := fieldPlan_tries (s := s) proper parentType composite
      rw [same] at first
      rw [List.mapM_cons]
      refine first.bind fun node s₁ added => ?_
      have others := fieldPlans_tries proper rest same (s := s₁) fit
      exact others.finish fun nodes s₂ added' => ⟨_, s₂, rfl, by rw [added', added, List.append_assoc]⟩

end

theorem takeDeferred_eq (s : Planning) : takeDeferred s = .ok s.deferred s.withoutDeferred := rfl

theorem deferPlans_tries (proper : provider.IsProper) {fragments : List DeferredFragment} {depth : Nat}
    (meets : MeetsFragments provider fragments order) (fit : ∀ f ∈ fragments, f.selectionSet.Fits depth)
    (empty : s.deferred = []) :
    Tries provider order (fun _ s' => s'.deferred = []) (fragments.mapM (deferPlan provider depth) s) := by
  induction meets generalizing depth s with
  | nil => exact .pure empty
  | @cons f rest aside here nested order sets _ _ ihNested ihRest =>
      obtain ⟨first, others⟩ := List.forall_mem_cons.1 fit
      obtain ⟨depth, rfl⟩ := first.exists_succ
      obtain ⟨height, high⟩ : ∃ n, f.selectionSet.height = n + 1 := Nat.exists_eq_add_one.2 f.selectionSet.height_pos
      have own : ∀ set ∈ [f.selectionSet], set.Fits (height + 1) :=
        List.forall_mem_singleton.2 ⟨high.le, first.replaced⟩
      have lower : ∀ g ∈ aside, g.selectionSet.Fits depth := fun g member =>
        (sets.aside_fit own g member).mono (Nat.le_of_succ_le_succ (high.symm.trans_le first.low))
      have main := selectionPlan_tries proper sets (Position.scope_branch f) own (s := s)
      have whole : Tries provider (here ++ nested) (fun _ s' => s'.deferred = []) (deferPlan provider (depth + 1) f s) := by
        unfold deferPlan
        rw [high]
        refine main.bind fun node s₁ added => .of_ok (takeDeferred_eq s₁) ?_
        rw [added, empty]
        exact (ihNested lower rfl).finish fun inner s₂ taken => ⟨_, s₂, rfl, taken⟩
      rw [List.mapM_cons]
      exact whole.bind fun plan s₁ taken =>
        (ihRest others taken).finish fun plans s₂ taken' => ⟨_, s₂, rfl, taken'⟩

theorem queryPlan_tries (proper : provider.IsProper) {operation : PreparedOperation} {rootType : Text}
    (replaced : operation.selectionSet.spreads = []) (immediate : operation.type ≠ .subscription)
    (known : provider.rootType? operation.type = some rootType)
    (met : Encounters provider operation rootType order) :
    Tries provider order (fun _ _ => True) (queryPlan provider operation {}) := by
  obtain ⟨aside, main, later, sets, fragments, rfl⟩ := met
  obtain ⟨height, high⟩ : ∃ n, operation.selectionSet.height = n + 1 :=
    Nat.exists_eq_add_one.2 operation.selectionSet.height_pos
  have whole : ∀ set ∈ [operation.selectionSet], set.Fits (height + 1) :=
    List.forall_mem_singleton.2 ⟨high.le, replaced⟩
  have lower : ∀ f ∈ aside, f.selectionSet.Fits (height + 1) := fun f member =>
    (sets.aside_fit whole f member).mono (Nat.le_succ height)
  have typed : Planner.rootType provider operation {} = .ok rootType {} := by
    unfold Planner.rootType
    rw [known]
    rfl
  have rooted : Tries provider main (fun _ s' => s'.deferred = aside) (rootPlan provider operation rootType {}) := by
    have selects : rootPlan provider operation rootType =
        .selections <$> selectionPlan provider (height + 1) {} rootType [operation.selectionSet] := by
      rw [← high]
      unfold rootPlan
      cases type : operation.type with
      | subscription => exact absurd type immediate
      | query | mutation => rfl
    rw [selects, map_eq_pure_bind]
    exact (selectionPlan_tries proper sets rfl whole).finish fun top s' added => ⟨_, s', rfl, added⟩
  unfold queryPlan
  refine .of_ok typed (rooted.bind fun root s₁ set => .of_ok (takeDeferred_eq s₁) ?_)
  rw [high, set]
  exact (deferPlans_tries proper fragments lower rfl).finish fun plans s₂ _ => ⟨_, _, rfl, trivial⟩

theorem queryPlan_unknownType {operation : PreparedOperation} (unknown : provider.rootType? operation.type = none) :
    queryPlan provider operation {} = .error (.reported ⟨.unknownType operation.type.text
      ("Schema is not configured to execute " ++ operation.type.text ++ " operation."),
      .ofLocation? operation.operation.definition.loc⟩) {} := by
  have untyped : Planner.rootType provider operation {} = .error (.reported ⟨.unknownType operation.type.text
      ("Schema is not configured to execute " ++ operation.type.text ++ " operation."),
      .ofLocation? operation.operation.definition.loc⟩) {} := by
    unfold Planner.rootType
    rw [unknown]
    rfl
  exact bind_of_error untyped

end Planner

theorem plan_reports_first_fault {document : Document} {wanted : Option Text} {operation : PreparedOperation}
    {provider : MetadataProvider} (prepared : document.prepare wanted = .ok operation)
    (immediate : operation.type ≠ .subscription) (proper : provider.IsProper) :
    (provider.rootType? operation.type = none →
      (operation.plan provider).1 = .error (.reported ⟨.unknownType operation.type.text
        ("Schema is not configured to execute " ++ operation.type.text ++ " operation."),
        .ofLocation? operation.operation.definition.loc⟩)) ∧
    (∀ rootType, provider.rootType? operation.type = some rootType →
      ∃ order, (∀ other, Encounters provider operation rootType other ↔ other = order) ∧
        ((∃ plan, (operation.plan provider).1 = .ok plan) ↔ ∀ e ∈ order, e.group.CanBePlanned provider) ∧
        ∀ d, (operation.plan provider).1 = .error (.reported d) ↔ IsFirstFault provider order d) ∧
    ∀ invariant, (operation.plan provider).1 ≠ .error (.broken invariant) := by
  have replaced : operation.selectionSet.spreads = [] := (prepare_expands prepared).2.2.1
  cases known : provider.rootType? operation.type with
  | none =>
      have reported := PreparedOperation.plan_error_iff.2 ⟨_, Planner.queryPlan_unknownType known⟩
      exact ⟨fun _ => reported, nofun, by simp [reported]⟩
  | some rootType =>
      obtain ⟨order, met⟩ := exists_encounters provider operation rootType
      have only : ∀ other, Encounters provider operation rootType other ↔ other = order := fun other =>
        ⟨fun met' => met'.unique met, fun same => same ▸ met⟩
      have tries := Planner.queryPlan_tries proper replaced immediate known met
      cases run : Planner.queryPlan provider operation {} with
      | ok plan s =>
          rw [run] at tries
          have made := PreparedOperation.plan_ok_iff.2 ⟨s, run⟩
          refine ⟨nofun, fun _ same => ⟨order, Option.some.inj same ▸ only, ?_, fun d => ?_⟩, by simp [made]⟩
          · exact iff_of_true ⟨plan, made⟩ tries.1
          · exact iff_of_false (by simp [made]) fun first => first.not_canBePlanned tries.1
      | error failure s =>
          rw [run] at tries
          obtain ⟨d, rfl, first⟩ := tries
          have reported := PreparedOperation.plan_error_iff.2 ⟨s, run⟩
          refine ⟨nofun, fun _ same => ⟨order, Option.some.inj same ▸ only, ?_, fun d' => ?_⟩, by simp [reported]⟩
          · exact iff_of_false (by simp [reported]) first.not_canBePlanned
          · rw [reported]
            constructor
            · rintro ⟨⟩
              exact first
            · intro first'
              rw [first.unique first']

namespace SharedFragment

def provider : MetadataProvider :=
  .ofTables [(.query, "T")] [
    ("T.a", ⟨.ofName "T", false, true, false, true⟩),
    ("T.b", ⟨.nonNull (.ofName "T") none, false, true, false, true⟩),
    ("T.c", ⟨.ofName "T", false, true, false, true⟩)]

theorem provider_isProper : provider.IsProper :=
  MetadataProvider.ofTables_isProper _ (by
    rintro entry (_ | ⟨_, _ | ⟨_, _ | ⟨_, _⟩⟩⟩)
    · trivial
    · exact ⟨rfl, trivial⟩
    · trivial
    · contradiction)

theorem unplanned : ∃ p, document.prepare none = .ok p ∧ p.type = .query ∧ (p.plan provider).1.isOk = false := by
  have outcome : (match document.prepare none with
      | .ok p => p.type = .query && !(p.plan provider).1.isOk
      | .error _ => false) = true := by decide +kernel
  cases prepared : document.prepare none with
  | error d => simp [prepared] at outcome
  | ok p =>
      simp only [prepared, Bool.and_eq_true, decide_eq_true_eq, Bool.not_eq_true'] at outcome
      exact ⟨p, rfl, outcome⟩

theorem reports_first_fault : ∃ p, document.prepare none = .ok p ∧ ∃ order d,
    (∀ other, Encounters provider p "T" other ↔ other = order) ∧
      (p.plan provider).1 = .error (.reported d) ∧ IsFirstFault provider order d := by
  obtain ⟨p, prepared, type, fails⟩ := unplanned
  obtain ⟨-, known, unbroken⟩ := plan_reports_first_fault prepared (by simp [type]) provider_isProper
  obtain ⟨order, only, -, reported⟩ := known "T" (by rw [type]; rfl)
  refine ⟨p, prepared, order, ?_⟩
  cases failure : (p.plan provider).1 with
  | ok plan => simp [failure, Except.isOk, Except.toBool] at fails
  | error failed =>
      cases failed with
      | reported d => exact ⟨d, only, rfl, (reported d).1 failure⟩
      | broken invariant => exact absurd failure (unbroken invariant)

example : (match document.prepare none with
    | .ok p => match (p.plan provider).1 with
      | .error (.reported d) => d = (⟨.unknownField "T" "x", { path := some [.key "a", .key "x"] }⟩ : Diagnostic)
      | _ => false
    | .error _ => false) = true := by decide +kernel

end SharedFragment

end QueryPlanner
