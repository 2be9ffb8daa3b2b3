import QueryPlanner.Proofs.Plan.Regrouping

/-!
# Where two operations part

When the same is found in related selection sets but for one place, where a fragment set aside or a field makes way for
one that selects related sets, the planner does the same on both (`IsSimulation.of_parted`).
-/

namespace QueryPlanner

section
variable (provider : MetadataProvider) (nodes : NodesRelation) (related : SetsRelation) (scope : Scope)
  (sets : List SelectionSet)

structure Yields (condition : Option Text) (between : List Flattened) (f f' : Field) (more : List Field) : Prop where
  named : f'.name.text = f.name.text
  keyed : ∀ x ∈ f' :: more, x.responseKey = f.responseKey
  arguments : f'.arguments = f.arguments
  modifier : f'.modifier = f.modifier
  directives : (f' :: more).flatMap (·.directives) = f.directives
  leaf : f.selectionSet = none ↔ (f' :: more).filterMap (·.selectionSet) = []
  apart : more = [] ∨ ∀ entry ∈ between.filterMap (·.field?), groupKey entry ≠ groupKey (condition, f)
  fieldNodes : ∀ front back, nodes (front ++ f :: back) (front ++ f' :: (more ++ back))
  selects : ∀ g ∈ scope.groups sets, g.key = (condition, f.responseKey) →
    ∀ front back, g.fieldNodes = front ++ f :: back → ∀ metadata, g.metadata? provider = some metadata →
      related (scope.entered g metadata) g.sets ((front ++ f' :: (more ++ back)).filterMap (·.selectionSet))

/-- What is found at a place where two operations part. -/
inductive Parting : List Flattened → List Flattened → Prop
  | events {found found' : List Flattened} : found.filterMap (·.field?) = found'.filterMap (·.field?) →
      found.filterMap (·.deferred?) = found'.filterMap (·.deferred?) →
      found.findSome? (·.spread?) = found'.findSome? (·.spread?) → Parting found found'
  | aside {f f' : DeferredFragment} : f.Alike related f' → Parting [.deferred f] [.deferred f']
  | field {condition : Option Text} {between : List Flattened} {f f' : Field} {more : List Field} :
      Yields provider nodes related scope sets condition between f f' more →
      Parting (.field condition f :: between) (.field condition f' :: (between ++ more.map (.field condition)))

def Parted (found found' : List Flattened) : Prop :=
  ∃ front here here' back, found = front ++ here ++ back ∧ found' = front ++ here' ++ back ∧
    Parting provider nodes related scope sets here here'

end

section
variable {provider : MetadataProvider} {nodes : NodesRelation} {related : SetsRelation} {scope : Scope}
  {sets sets' : List SelectionSet} {found found' : List Flattened}

theorem Parting.parted (parting : Parting provider nodes related scope sets found found') :
    Parted provider nodes related scope sets found found' :=
  ⟨[], found, found', [], by simp, by simp, parting⟩

theorem Parted.within (parted : Parted provider nodes related scope sets found found') (before after : List Flattened) :
    Parted provider nodes related scope sets (before ++ found ++ after) (before ++ found' ++ after) := by
  obtain ⟨front, here, here', back, rfl, rfl, parting⟩ := parted
  exact ⟨before ++ front, here, here', back ++ after, by simp, by simp, parting⟩

theorem Parted.findSome?_spread? (parted : Parted provider nodes related scope sets found found') :
    found.findSome? (·.spread?) = found'.findSome? (·.spread?) := by
  obtain ⟨front, here, here', back, rfl, rfl, parting⟩ := parted
  have same : here.findSome? (·.spread?) = here'.findSome? (·.spread?) := by
    cases parting with
    | events _ _ spread => exact spread
    | aside _ => rfl
    | @field condition between _ _ more yields =>
        have none : (more.map (Flattened.field condition)).findSome? (·.spread?) = none := by simp [Flattened.spread?]
        change between.findSome? (·.spread?) = (between ++ more.map (Flattened.field condition)).findSome? (·.spread?)
        rw [List.findSome?_append, none, Option.or_none]
  rw [List.findSome?_append, List.findSome?_append, same, List.findSome?_append, List.findSome?_append]

theorem DeferredFragment.Alike.refl (keeps : ∀ scope sets, related scope sets sets) (f : DeferredFragment) :
    f.Alike related f :=
  ⟨rfl, rfl, rfl, rfl, keeps _ _⟩

theorem Parted.aside (keeps : ∀ scope sets, related scope sets sets)
    (parted : Parted provider nodes related scope sets found found') :
    List.Forall₂ (DeferredFragment.Alike related) (found.filterMap (·.deferred?)) (found'.filterMap (·.deferred?)) := by
  obtain ⟨front, here, here', back, rfl, rfl, parting⟩ := parted
  have same (fragments : List DeferredFragment) : List.Forall₂ (DeferredFragment.Alike related) fragments fragments :=
    List.forall₂_same.2 fun f _ => .refl keeps f
  have at_place : List.Forall₂ (DeferredFragment.Alike related) (here.filterMap (·.deferred?))
      (here'.filterMap (·.deferred?)) := by
    cases parting with
    | events _ aside _ => exact aside ▸ same _
    | aside alike => exact .cons alike .nil
    | @field condition between _ _ more yields =>
        have none : (more.map (Flattened.field condition)).filterMap (·.deferred?) = [] := by
          simp [List.filterMap_map, Flattened.deferred?]
        change List.Forall₂ _ (between.filterMap (·.deferred?))
          ((between ++ more.map (Flattened.field condition)).filterMap (·.deferred?))
        rw [List.filterMap_append, none, List.append_nil]
        exact same _
  simp only [List.filterMap_append]
  exact List.rel_append (List.rel_append (same _) at_place) (same _)

inductive KeyParting (provider : MetadataProvider) (nodes : NodesRelation) (related : SetsRelation) (scope : Scope)
    (sets : List SelectionSet) (k : GroupKey) : List Field → List Field → Prop
  | same (fields : List Field) : KeyParting provider nodes related scope sets k fields fields
  | yields {condition : Option Text} {between : List Flattened} {f f' : Field} {more front back : List Field} :
      groupKey (condition, f) = k → Yields provider nodes related scope sets condition between f f' more →
      KeyParting provider nodes related scope sets k (front ++ f :: back) (front ++ f' :: (more ++ back))

theorem filterMap_field?_map (condition : Option Text) (fields : List Field) :
    (fields.map (Flattened.field condition)).filterMap (·.field?) = fields.map (condition, ·) := by
  rw [List.filterMap_map, ← List.filterMap_eq_map]
  rfl

section
variable {condition : Option Text} {between : List Flattened} {f f' : Field} {more : List Field}

theorem filterMap_field?_cons (condition : Option Text) (f : Field) (between : List Flattened) (more : List Field) :
    (Flattened.field condition f :: (between ++ more.map (Flattened.field condition))).filterMap (·.field?) =
      (condition, f) :: (between.filterMap (·.field?) ++ more.map (condition, ·)) := by
  rw [← filterMap_field?_map, ← List.filterMap_append]
  rfl

namespace Yields

theorem groupKey_eq (yields : Yields provider nodes related scope sets condition between f f' more) {x : Field}
    (member : x ∈ f' :: more) : groupKey (condition, x) = groupKey (condition, f) :=
  Prod.ext rfl (yields.keyed x member)

theorem fieldsOf_own (yields : Yields provider nodes related scope sets condition between f f' more) :
    fieldsOf (groupKey (condition, f)) ((condition, f') :: (between.filterMap (·.field?) ++ more.map (condition, ·))) =
      f' :: (more ++ fieldsOf (groupKey (condition, f)) (between.filterMap (·.field?))) := by
  rw [fieldsOf_cons_of_key (yields.groupKey_eq List.mem_cons_self), fieldsOf_append,
    fieldsOf_of_key more fun x member => yields.groupKey_eq (List.mem_cons_of_mem _ member)]
  rcases yields.apart with rfl | other
  · rw [List.append_nil, List.nil_append]
  · rw [fieldsOf_of_ne other, List.append_nil, List.nil_append]

theorem fieldsOf_other (yields : Yields provider nodes related scope sets condition between f f' more) {k : GroupKey}
    (other : groupKey (condition, f) ≠ k) :
    fieldsOf k ((condition, f') :: (between.filterMap (·.field?) ++ more.map (condition, ·))) =
      fieldsOf k (between.filterMap (·.field?)) := by
  have distinct {x : Field} (member : x ∈ f' :: more) : groupKey (condition, x) ≠ k := by
    rwa [yields.groupKey_eq member]
  have nothing : fieldsOf k (more.map (condition, ·)) = [] :=
    fieldsOf_of_ne (List.forall_mem_map.2 fun x member => distinct (List.mem_cons_of_mem _ member))
  rw [fieldsOf_cons_of_ne (distinct List.mem_cons_self), fieldsOf_append, nothing, List.append_nil]

end Yields

end

theorem Parted.keyParting (parted : Parted provider nodes related scope sets found found') (k : GroupKey) :
    KeyParting provider nodes related scope sets k (fieldsOf k (found.filterMap (·.field?)))
      (fieldsOf k (found'.filterMap (·.field?))) := by
  obtain ⟨front, here, here', back, rfl, rfl, parting⟩ := parted
  simp only [List.filterMap_append, fieldsOf_append]
  cases parting with
  | events fields _ _ =>
      rw [fields]
      exact .same _
  | aside _ => exact .same _
  | @field condition between f f' more yields =>
      have entries : (Flattened.field condition f :: between).filterMap (·.field?) =
          (condition, f) :: between.filterMap (·.field?) := rfl
      rw [entries, filterMap_field?_cons]
      by_cases own : groupKey (condition, f) = k
      · subst own
        rw [fieldsOf_cons_of_key rfl, yields.fieldsOf_own]
        simpa using KeyParting.yields rfl yields
      · rw [fieldsOf_cons_of_ne own, yields.fieldsOf_other own]
        exact .same _

theorem eraseDups_absorb {α : Type} [BEq α] [LawfulBEq α] {before more : List α} (known : ∀ a ∈ more, a ∈ before)
    (after : List α) : (before ++ (more ++ after)).eraseDups = (before ++ after).eraseDups := by
  have absorbed : (more ++ after).removeAll before = after.removeAll before := by
    unfold List.removeAll
    rw [List.filter_append, List.filter_eq_nil_iff.2 (by simpa using known), List.nil_append]
  rw [List.eraseDups_append, List.eraseDups_append, absorbed]

theorem Parted.keys (parted : Parted provider nodes related scope sets found found') :
    ((found.filterMap (·.field?)).map groupKey).eraseDups =
      ((found'.filterMap (·.field?)).map groupKey).eraseDups := by
  obtain ⟨front, here, here', back, rfl, rfl, parting⟩ := parted
  simp only [List.filterMap_append, List.map_append]
  cases parting with
  | events fields _ _ => rw [fields]
  | aside _ => rfl
  | @field condition between f f' more yields =>
      have entries : (Flattened.field condition f :: between).filterMap (·.field?) =
          (condition, f) :: between.filterMap (·.field?) := rfl
      have key : groupKey (condition, f') = groupKey (condition, f) := yields.groupKey_eq List.mem_cons_self
      have known : ∀ k ∈ (more.map (condition, ·)).map groupKey, k ∈ (front.filterMap (·.field?)).map groupKey ++
          groupKey (condition, f) :: (between.filterMap (·.field?)).map groupKey := by
        refine List.forall_mem_map.2 (List.forall_mem_map.2 fun x member => List.mem_append_right _ ?_)
        rw [yields.groupKey_eq (List.mem_cons_of_mem _ member)]
        exact List.mem_cons_self
      have absorbed := eraseDups_absorb known ((back.filterMap (·.field?)).map groupKey)
      rw [entries, filterMap_field?_cons, List.map_cons, List.map_cons, key, List.map_append]
      simp only [List.append_assoc, List.cons_append] at absorbed ⊢
      exact absorbed.symm

theorem group_alike_of_same {g g' : FieldGroup} (refl : ∀ fields, nodes fields fields)
    (keeps : ∀ scope sets, related scope sets sets) (member : g ∈ scope.groups sets)
    (member' : g' ∈ scope.groups sets') (same : g.key = g'.key) (fields : g.fieldNodes = g'.fieldNodes) :
    g.Alike provider nodes related scope g' := by
  have first : g.first = g'.first := (List.cons.inj fields).1
  have selected : g.sets = g'.sets := by rw [FieldGroup.sets, fields, FieldGroup.sets]
  refine Scope.group_alike member member' same (by rw [first]) (fields ▸ refl _) (by rw [first]) (by rw [first])
    (by rw [fields]) (by rw [selected]) fun metadata _ => selected ▸ keeps _ _

theorem group_alike_of_yields {g g' : FieldGroup} {condition : Option Text} {between : List Flattened}
    {f f' : Field} {more front back : List Field}
    (yields : Yields provider nodes related scope sets condition between f f' more)
    (member : g ∈ scope.groups sets) (member' : g' ∈ scope.groups sets') (same : g.key = g'.key)
    (own : g.key = (condition, f.responseKey)) (fields : g.fieldNodes = front ++ f :: back)
    (fields' : g'.fieldNodes = front ++ f' :: (more ++ back)) : g.Alike provider nodes related scope g' := by
  -- Only what is selected on the field may differ between the first fields of the groups.
  have first : g'.first.name.text = g.first.name.text ∧ g'.first.arguments = g.first.arguments ∧
      g'.first.modifier = g.first.modifier := by
    cases front with
    | nil =>
        rw [(List.cons.inj fields).1, (List.cons.inj fields').1]
        exact ⟨yields.named, yields.arguments, yields.modifier⟩
    | cons x front =>
        rw [(List.cons.inj fields).1, (List.cons.inj fields').1]
        exact ⟨rfl, rfl, rfl⟩
  obtain ⟨named, arguments, modifier⟩ := first
  have selected : g'.sets = (front ++ f' :: (more ++ back)).filterMap (·.selectionSet) := by
    rw [FieldGroup.sets, fields']
  have directives : g.fieldNodes.flatMap (·.directives) = g'.fieldNodes.flatMap (·.directives) := by
    have here := yields.directives
    rw [List.flatMap_cons] at here
    rw [fields, fields']
    simp only [List.flatMap_append, List.flatMap_cons]
    rw [← here]
    simp
  refine Scope.group_alike member member' same named.symm ?_ (by rw [arguments]) (by rw [modifier]) (by rw [directives])
    ?_ fun metadata known => ?_
  · rw [fields, fields']
    exact yields.fieldNodes front back
  · have leaf := yields.leaf
    have single : [f].filterMap (·.selectionSet) = [] ↔ f.selectionSet = none := by simp
    rw [selected, FieldGroup.sets, fields, ← List.cons_append, ← List.singleton_append (l := back)]
    simp only [List.filterMap_append, List.append_eq_nil_iff, single, leaf]
  · rw [selected]
    exact yields.selects g member own front back fields metadata known

theorem IsSimulation.of_parted (refl : ∀ fields, nodes fields fields)
    (keeps : ∀ scope sets, related scope sets sets)
    (parts : ∀ {scope sets sets'}, related scope sets sets' →
      Parted provider nodes related scope sets (scope.found sets) (scope.found sets')) :
    IsSimulation provider nodes related where
  spread := fun alike => (parts alike).findSome?_spread?
  aside := fun alike => (parts alike).aside keeps
  groups := fun {scope sets sets'} alike => by
    refine Scope.groups_alike (parts alike).keys fun g member g' member' same => ?_
    have parting := (parts alike).keyParting g.key
    have fields := Scope.fieldNodes_eq member
    have fields' := Scope.fieldNodes_eq member'
    rw [← same] at fields'
    rw [Scope.entries] at fields fields'
    rw [← fields, ← fields'] at parting
    generalize nodes_eq : g.fieldNodes = here at parting
    generalize nodes_eq' : g'.fieldNodes = here' at parting
    cases parting with
    | same _ => exact group_alike_of_same refl keeps member member' same (nodes_eq.trans nodes_eq'.symm)
    | yields own yields => exact group_alike_of_yields yields member member' same own.symm nodes_eq nodes_eq'

end

end QueryPlanner
