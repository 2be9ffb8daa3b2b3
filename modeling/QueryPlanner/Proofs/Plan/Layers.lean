import QueryPlanner.Proofs.Plan.Sightings
import QueryPlanner.Proofs.Plan.PlannedFields

/-!
# Layers of a plan

A layer is a selection set that is planned, with the addresses that its selections stand at and those of the fields that
each of its plan fields is planned for. What is planned for an object, field by field and level by level, is a list of
layers (`OnSets.layers`) that pass each included address below the object once, but for those below fragments set aside.
-/

namespace QueryPlanner

/-- A plan field and the addresses of the fields that it is planned for. -/
structure Sourced where
  field : PlanField
  sources : List Address

/-- The sites are where the selection sets stand that are planned as one. -/
structure Layer where
  scope : Scope
  sites : List Address
  fields : List Sourced

def Sighting.field? (s : Sighting) : Option (Address × Option Text × Field) :=
  (s.found?.bind (·.field?)).map (s.address, ·)

def Sighting.aside? (s : Sighting) : Option (Address × DeferredFragment) :=
  (s.found?.bind (·.deferred?)).map (s.address, ·)

def Scope.sightings (scope : Scope) (whole : SelectionSet) (sites : List Address) : List Sighting :=
  sites.flatMap fun site => (site.selectionSet? whole).elim [] (·.sightings scope none site)

namespace Layer

variable (whole : SelectionSet) (layer : Layer)

def entered : List Address :=
  ((layer.scope.sightings whole layer.sites).filter (·.found?.isNone)).map (·.address)

def aside : List (Address × DeferredFragment) := (layer.scope.sightings whole layer.sites).filterMap (·.aside?)

def shown : List Address :=
  layer.fields.flatMap (·.sources) ++ layer.entered whole ++
    (layer.aside whole).flatMap fun h => h.1 :: h.1.inside whole

end Layer

/-! ## The sightings of a layer -/

section
variable {whole : SelectionSet} {scope : Scope} {sites : List Address}

theorem Scope.mem_sightings {s : Sighting} : s ∈ scope.sightings whole sites ↔
    ∃ site ∈ sites, ∃ set, site.selectionSet? whole = some set ∧ s ∈ set.sightings scope none site := by
  rw [sightings, List.mem_flatMap]
  refine exists_congr fun site => and_congr_right fun _ => ?_
  cases site.selectionSet? whole <;> simp

theorem Scope.found_sightings (scope : Scope) (whole : SelectionSet) (sites : List Address) :
    (scope.found (sites.filterMap (·.selectionSet? whole))).filter (·.isKept) =
      (scope.sightings whole sites).filterMap (·.found?) := by
  induction sites with
  | nil => rfl
  | cons site rest ih =>
      rw [sightings, List.flatMap_cons, List.filterMap_append, List.filterMap_cons, ← sightings, ← ih]
      cases site.selectionSet? whole with
      | none => rfl
      | some set =>
          rw [found, List.flatMap_cons, List.filter_append, set.flatten_sightings scope none site]
          rfl

theorem filterMap_kept {α : Type} {select : Flattened → Option α} (ignores : ∀ x, x.isKept = false → select x = none)
    (found : List Flattened) : (found.filter (·.isKept)).filterMap select = found.filterMap select := by
  rw [List.filterMap_filter]
  refine List.filterMap_congr fun x _ => ?_
  cases kept : x.isKept with
  | true => rfl
  | false => exact (ignores x kept).symm

theorem Scope.found_entries (scope : Scope) (whole : SelectionSet) (sites : List Address) :
    (scope.found (sites.filterMap (·.selectionSet? whole))).filterMap (·.field?) =
      ((scope.sightings whole sites).filterMap (·.field?)).map (·.2) := by
  rw [← filterMap_kept (by rintro (_ | _ | _ | _) <;> simp [Flattened.isKept, Flattened.field?]), found_sightings,
    List.filterMap_filterMap, List.map_filterMap]
  refine List.filterMap_congr fun s _ => ?_
  rw [Sighting.field?, Option.map_map]
  exact Option.map_id'.symm

theorem Scope.setAside_sightings (scope : Scope) (whole : SelectionSet) (sites : List Address) :
    scope.setAside (sites.filterMap (·.selectionSet? whole)) =
      ((scope.sightings whole sites).filterMap (·.aside?)).map (·.2) := by
  rw [setAside, ← filterMap_kept (by rintro (_ | _ | _ | _) <;> simp [Flattened.isKept, Flattened.deferred?]),
    found_sightings, List.filterMap_filterMap, List.map_filterMap]
  refine List.filterMap_congr fun s _ => ?_
  rw [Sighting.aside?, Option.map_map]
  exact Option.map_id'.symm

theorem Scope.sightings_inside (scope : Scope) (whole : SelectionSet) (included : ∀ site ∈ sites, site.isIncluded) :
    sites.flatMap (·.inside whole) = (scope.sightings whole sites).flatMap fun s => s.address :: s.below whole := by
  rw [sightings, List.flatMap_assoc]
  refine List.flatMap_congr fun site member => ?_
  rw [Address.inside]
  cases site.selectionSet? whole with
  | none => rfl
  | some set => exact SelectionSet.sightings_included scope whole none (included site member) set

theorem sightings_perm {sightings : List Sighting} (kept : ∀ s ∈ sightings, ∀ x, s.found? = some x → x.isKept) :
    (sightings.flatMap fun s => s.address :: s.below whole).Perm
      (((sightings.filterMap (·.field?)).map (·.1) ++ (sightings.filter (·.found?.isNone)).map (·.address) ++
          (sightings.filterMap (·.aside?)).flatMap fun h => h.1 :: h.1.inside whole) ++
        ((sightings.filterMap (·.field?)).map (·.1)).flatMap (·.inside whole)) := by
  classical
  induction sightings with
  | nil => rfl
  | cons s rest ih =>
      rw [List.forall_mem_cons] at kept
      -- Each address is counted on both sides, one sighting at a time.
      have counted := List.perm_iff_count.1 (ih kept.2)
      refine List.perm_iff_count.2 fun t => ?_
      specialize counted t
      simp only [List.count_append] at counted
      rw [List.flatMap_cons, List.filterMap_cons, List.filterMap_cons, List.filter_cons]
      obtain ⟨address, found⟩ := s
      match found with
      | none =>
          simp only [Sighting.below, Sighting.field?, Sighting.aside?, Option.isSome_none, Bool.false_eq_true, ↓reduceIte,
            Option.bind_none, Option.map_none, Option.isNone_none, List.map_cons, List.cons_append, List.nil_append,
            List.count_cons, List.count_append]
            at counted ⊢
          omega
      | some (.field condition f) =>
          simp only [Sighting.below, Sighting.field?, Sighting.aside?, Flattened.field?, Flattened.deferred?,
            Option.isSome_some, Option.isNone_some, Bool.false_eq_true, ↓reduceIte, Option.bind_some, Option.map_some,
            Option.map_none, List.map_cons, List.flatMap_cons, List.cons_append, List.count_cons, List.count_append]
            at counted ⊢
          omega
      | some (.deferred g) =>
          simp only [Sighting.below, Sighting.field?, Sighting.aside?, Flattened.field?, Flattened.deferred?,
            Option.isSome_some, Option.isNone_some, Bool.false_eq_true, ↓reduceIte, Option.bind_some, Option.map_some,
            Option.map_none, List.flatMap_cons, List.cons_append, List.count_cons, List.count_append]
            at counted ⊢
          omega
      | some (.inlined reason) => exact absurd (kept.1 _ rfl) Bool.false_ne_true
      | some (.spread name) => exact absurd (kept.1 _ rfl) Bool.false_ne_true

end

/-! ## Layers that are planned -/

def FieldPlan.sourcesIn (sightings : List Sighting) (node : FieldPlan) : List Address :=
  ((sightings.filterMap (·.field?)).filter (groupKey ·.2 = node.key)).map (·.1)

def Layer.ofNodes (whole : SelectionSet) (scope : Scope) (sites : List Address) (nodes : List FieldPlan) : Layer :=
  ⟨scope, sites, nodes.map fun node => ⟨node.field, node.sourcesIn (scope.sightings whole sites)⟩⟩

def PlanField.IsKnown (provider : MetadataProvider) (f : PlanField) : Prop :=
  (if f.fieldName = FieldMetadata.typenameField then some .typename else provider.field? f.parentType f.fieldName) =
    some f.metadata

structure Sourced.IsPlanned (provider : MetadataProvider) (e : Sourced) : Prop where
  known : e.field.IsKnown provider
  nodes : e.field.fieldNodes = e.sources.filterMap (·.field?)
  fields : ∀ t ∈ e.sources, t.field?.isSome
  included : ∀ t ∈ e.sources, t.isIncluded
  located : ∀ t ∈ e.sources, t.responsePath = e.field.path

namespace Sourced.IsPlanned

variable {provider : MetadataProvider} {e : Sourced}

theorem sets_eq (planned : e.IsPlanned provider) (whole : SelectionSet) :
    e.field.sets = e.sources.filterMap (·.selectionSet? whole) := by
  rw [PlanField.sets, planned.nodes, List.filterMap_filterMap]
  refine List.filterMap_congr fun t member => ?_
  obtain ⟨f, field⟩ := Option.isSome_iff_exists.1 (planned.fields t member)
  obtain ⟨base, index, rfl⟩ := Address.exists_concat_of_field? field
  rw [field, Address.selectionSet?_concat]
  rfl

end Sourced.IsPlanned

structure Layer.IsPlanned (provider : MetadataProvider) (whole : SelectionSet) (layer : Layer) : Prop where
  included : ∀ site ∈ layer.sites, site.isIncluded
  located : ∀ site ∈ layer.sites, site.responsePath = layer.scope.path
  selected : (layer.fields.flatMap (·.sources)).Perm
    (((layer.scope.sightings whole layer.sites).filterMap (·.field?)).map (·.1))
  fields : ∀ e ∈ layer.fields, e.IsPlanned provider

theorem flatMap_filter_perm {α κ : Type} [DecidableEq κ] (key : α → κ) {keys : List κ} (distinct : keys.Nodup)
    {entries : List α} (covered : ∀ x ∈ entries, key x ∈ keys) :
    (keys.flatMap fun k => entries.filter (key · = k)).Perm entries := by
  induction keys generalizing entries with
  | nil =>
      rw [List.eq_nil_iff_forall_not_mem.2 fun x member => List.not_mem_nil (covered x member)]
      rfl
  | cons k rest ih =>
      rw [List.nodup_cons] at distinct
      have later (x : α) (member : x ∈ entries.filter fun x => !decide (key x = k)) : key x ∈ rest := by
        obtain ⟨seen, other⟩ := List.mem_filter.1 member
        exact (List.mem_cons.1 (covered x seen)).resolve_left (by simpa using other)
      have others := ih distinct.2 later
      have apart : (rest.flatMap fun k' => (entries.filter fun x => !decide (key x = k)).filter (key · = k')) =
          rest.flatMap fun k' => entries.filter (key · = k') := by
        refine List.flatMap_congr fun k' member => ?_
        rw [List.filter_filter]
        refine List.filter_congr fun x _ => ?_
        by_cases here : key x = k'
        · have other : k' ≠ k := fun same => distinct.1 (same ▸ member)
          simp [here, other]
        · simp [here]
      rw [List.flatMap_cons, ← apart]
      exact (others.append_left _).trans (List.filter_append_perm _ _)

section
variable {provider : MetadataProvider} {whole : SelectionSet} {scope : Scope} {sites : List Address}

theorem Layer.IsPlanned.shown_perm {layer : Layer} (planned : layer.IsPlanned provider whole) :
    (layer.shown whole ++ layer.fields.flatMap fun e => e.sources.flatMap (·.inside whole)).Perm
      (layer.sites.flatMap (·.inside whole)) := by
  have kept (s : Sighting) (member : s ∈ layer.scope.sightings whole layer.sites) :
      ∀ x, s.found? = some x → x.isKept := by
    obtain ⟨site, -, set, -, met⟩ := Scope.mem_sightings.1 member
    exact (set.sightings_fit layer.scope none site s met).kept
  rw [layer.scope.sightings_inside whole planned.included, ← List.flatMap_assoc]
  refine .trans ?_ (sightings_perm kept).symm
  exact (((planned.selected.append_right _).append_right _).append (planned.selected.flatMap_right _))

theorem Scope.sightings_located (scope : Scope) (whole : SelectionSet)
    (located : ∀ site ∈ sites, site.responsePath = scope.path) :
    ∀ s ∈ scope.sightings whole sites, s.address.enclosingField.responsePath = scope.path := by
  intro s member
  obtain ⟨site, chosen, set, -, met⟩ := mem_sightings.1 member
  rw [(set.sightings_fit scope none site s met).enclosed, Address.responsePath_withoutFragments, located site chosen]

theorem Scope.sightings_isIncluded (scope : Scope) (whole : SelectionSet)
    (included : ∀ site ∈ sites, site.isIncluded) : ∀ s ∈ scope.sightings whole sites, s.address.isIncluded := by
  intro s member
  obtain ⟨site, chosen, set, -, met⟩ := mem_sightings.1 member
  have passed : s.address ∈ set.included site := by
    rw [SelectionSet.sightings_included scope whole none (included site chosen)]
    exact List.mem_flatMap.2 ⟨s, met, List.mem_cons_self⟩
  exact (List.mem_filter.1 passed).2

theorem Scope.exists_of_entry {entry : Address × Option Text × Field}
    (member : entry ∈ (scope.sightings whole sites).filterMap (·.field?)) :
    ∃ s ∈ scope.sightings whole sites, s.address = entry.1 ∧ entry.1.field? = some entry.2.2 := by
  obtain ⟨s, chosen, found⟩ := List.mem_filterMap.1 member
  obtain ⟨site, -, set, -, met⟩ := mem_sightings.1 chosen
  obtain ⟨⟨condition, f⟩, kept, rfl⟩ := Option.map_eq_some_iff.1 found
  obtain ⟨x, put, isField⟩ := Option.bind_eq_some_iff.1 kept
  cases x with
  | field condition' f' =>
      obtain ⟨rfl, rfl⟩ := Prod.mk.inj (Option.some.inj isField)
      exact ⟨s, chosen, rfl, (set.sightings_fit scope none site s met).field _ _ put⟩
  | _ => contradiction

theorem Scope.entry_located (located : ∀ site ∈ sites, site.responsePath = scope.path)
    {entry : Address × Option Text × Field} (member : entry ∈ (scope.sightings whole sites).filterMap (·.field?)) :
    entry.1.responsePath = scope.path ++ [entry.2.2.responseKey] := by
  obtain ⟨s, met, address, field⟩ := exists_of_entry member
  have enclosing := scope.sightings_located whole located s met
  obtain ⟨base, index, concat⟩ := Address.exists_concat_of_field? field
  rw [address, concat, Address.enclosingField_concat, Address.responsePath_withoutFragments] at enclosing
  rw [concat, Address.responsePath_concat, enclosing]
  rfl

section
variable {nodes : List FieldPlan}

theorem followsGroups_selected
    (follow : followsGroups provider scope (sites.filterMap (·.selectionSet? whole)) (SelectionPlan.ofFields nodes)) :
    (nodes.flatMap (·.sourcesIn (scope.sightings whole sites))).Perm
      (((scope.sightings whole sites).filterMap (·.field?)).map (·.1)) := by
  obtain ⟨nodes', same, planned, -⟩ := follow
  have collects := FieldGroup.collects_ofFields scope.parentType
    ((scope.found (sites.filterMap (·.selectionSet? whole))).filterMap (·.field?))
  have keys : nodes'.map FieldPlan.key = (scope.groups (sites.filterMap (·.selectionSet? whole))).map FieldGroup.key :=
    keys_planned planned
  have byKey : nodes'.flatMap (·.sourcesIn (scope.sightings whole sites)) =
      ((nodes'.map FieldPlan.key).flatMap fun k =>
        ((scope.sightings whole sites).filterMap (·.field?)).filter (groupKey ·.2 = k)).map (·.1) := by
    rw [List.map_flatMap, List.flatMap_map]
    rfl
  refine ((reordered same).flatMap_right _).trans ?_
  rw [byKey]
  refine (flatMap_filter_perm (fun entry : Address × Option Text × Field => groupKey entry.2) ?_ ?_).map _
  · exact keys ▸ collects.distinct
  · intro entry member
    rw [keys]
    refine collects.covered _ ?_
    rw [scope.found_entries whole sites]
    exact List.mem_map_of_mem member

theorem followsGroups_sourced
    (follow : followsGroups provider scope (sites.filterMap (·.selectionSet? whole)) (SelectionPlan.ofFields nodes))
    (included : ∀ site ∈ sites, site.isIncluded) (located : ∀ site ∈ sites, site.responsePath = scope.path) :
    ∀ node ∈ nodes, Sourced.IsPlanned provider ⟨node.field, node.sourcesIn (scope.sightings whole sites)⟩ := by
  obtain ⟨nodes', same, planned, -⟩ := follow
  intro node member
  obtain ⟨g, chosen, isPlanned⟩ := exists_group ((reordered same).mem_iff.1 member) planned
  -- Every source is the address of an entry that has the key of the field plan.
  have entry_of {t : Address} (source : t ∈ node.sourcesIn (scope.sightings whole sites)) :
      ∃ entry ∈ (scope.sightings whole sites).filterMap (·.field?), groupKey entry.2 = node.key ∧ entry.1 = t := by
    obtain ⟨entry, kept, rfl⟩ := List.mem_map.1 source
    obtain ⟨among, key⟩ := List.mem_filter.1 kept
    exact ⟨entry, among, of_decide_eq_true key, rfl⟩
  refine ⟨?_, ?_, fun t source => ?_, fun t source => ?_, fun t source => ?_⟩
  · obtain ⟨metadata, type, known, -, field⟩ := isPlanned
    rw [PlanField.IsKnown, field]
    exact known
  · change node.field.fieldNodes = _
    rw [isPlanned.fieldNodes_eq, FieldGroup.ofFields_fieldNodes chosen, scope.found_entries whole sites,
      ← isPlanned.key_eq, List.filter_map, List.map_map, FieldPlan.sourcesIn, List.filterMap_map, ← List.filterMap_eq_map]
    refine List.filterMap_congr fun entry kept => ?_
    obtain ⟨s, -, -, field⟩ := Scope.exists_of_entry (List.mem_filter.1 kept).1
    exact field.symm
  · obtain ⟨entry, among, -, rfl⟩ := entry_of source
    obtain ⟨s, -, -, field⟩ := Scope.exists_of_entry among
    rw [field]
    rfl
  · obtain ⟨entry, among, -, rfl⟩ := entry_of source
    obtain ⟨s, met, address, -⟩ := Scope.exists_of_entry among
    exact address ▸ scope.sightings_isIncluded whole included s met
  · obtain ⟨entry, among, key, rfl⟩ := entry_of source
    have key : entry.2.2.responseKey = node.field.responseKey := congrArg Prod.snd key
    rw [Scope.entry_located located among, key]
    exact isPlanned.path_eq.symm

theorem followsGroups_layer
    (follow : followsGroups provider scope (sites.filterMap (·.selectionSet? whole)) (SelectionPlan.ofFields nodes))
    (included : ∀ site ∈ sites, site.isIncluded) (located : ∀ site ∈ sites, site.responsePath = scope.path) :
    (Layer.ofNodes whole scope sites nodes).IsPlanned provider whole := by
  refine ⟨included, located, ?_, List.forall_mem_map.2 (followsGroups_sourced follow included located)⟩
  rw [Layer.ofNodes, List.flatMap_map]
  exact followsGroups_selected follow

end

end

/-! ## All layers of a part of a plan -/

def Layer.IsBelow (layer above : Layer) : Prop :=
  ∃ e ∈ above.fields, layer.scope = above.scope.below e.field ∧ layer.sites = e.sources

/-- The layers that planning passes from the given objects and sites on, with the fields planned and the fragments set aside. -/
structure Layered (provider : MetadataProvider) (whole : SelectionSet) (tops : List (Scope × List Address))
    (fields : List PlanField) (aside : List DeferredFragment) (layers : List Layer) : Prop where
  planned : ∀ layer ∈ layers, layer.IsPlanned provider whole
  linked : ∀ layer ∈ layers, (layer.scope, layer.sites) ∈ tops ∨ ∃ above ∈ layers, layer.IsBelow above
  fields_perm : ((layers.flatMap (·.fields)).map (·.field)).Perm fields
  aside_eq : (layers.flatMap (·.aside whole)).map (·.2) = aside
  shown_perm : (layers.flatMap (·.shown whole)).Perm (tops.flatMap fun top => top.2.flatMap (·.inside whole))

section
variable {provider : MetadataProvider} {whole : SelectionSet}

theorem SelectionPlan.fieldsOf_ofFields_split (nodes : List FieldPlan) :
    (fieldsOf (ofFields nodes)).Perm
      (nodes.map (·.field) ++ nodes.flatMap fun node => fieldsOf node.resolution.selections?) := by
  refine (fieldsOf_ofFields nodes).trans (.trans (.of_eq ?_) (List.map_append_flatMap_perm nodes _ _).symm)
  refine List.flatMap_congr fun node _ => ?_
  rw [node.fields_eq, ResolvePlan.fields_eq, node.field_resolution]

namespace Layered

variable {tops tops' : List (Scope × List Address)} {fields fields' : List PlanField}
  {aside aside' : List DeferredFragment} {layers layers' : List Layer}

theorem nil : Layered provider whole [] [] [] [] := ⟨nofun, nofun, .nil, rfl, .nil⟩

theorem append (first : Layered provider whole tops fields aside layers)
    (second : Layered provider whole tops' fields' aside' layers') :
    Layered provider whole (tops ++ tops') (fields ++ fields') (aside ++ aside') (layers ++ layers') := by
  refine ⟨List.forall_mem_append.2 ⟨first.planned, second.planned⟩, List.forall_mem_append.2 ⟨?_, ?_⟩, ?_, ?_, ?_⟩
  · intro layer member
    rcases first.linked layer member with top | ⟨above, among, below⟩
    · exact .inl (List.mem_append_left _ top)
    · exact .inr ⟨above, List.mem_append_left _ among, below⟩
  · intro layer member
    rcases second.linked layer member with top | ⟨above, among, below⟩
    · exact .inl (List.mem_append_right _ top)
    · exact .inr ⟨above, List.mem_append_right _ among, below⟩
  · rw [List.flatMap_append, List.map_append]
    exact first.fields_perm.append second.fields_perm
  · rw [List.flatMap_append, List.map_append, first.aside_eq, second.aside_eq]
  · rw [List.flatMap_append, List.flatMap_append]
    exact first.shown_perm.append second.shown_perm

theorem leaf {scope : Scope} {sources : List Address} (none : sources.filterMap (·.selectionSet? whole) = []) :
    Layered provider whole [(scope, sources)] [] [] [] := by
  refine ⟨nofun, nofun, .nil, rfl, .of_eq ?_⟩
  rw [List.flatMap_singleton]
  refine (List.flatMap_eq_nil_iff.2 fun t member => ?_).symm
  rw [Address.inside, List.filterMap_eq_nil_iff.1 none t member]
  rfl

theorem under {layer : Layer} (planned : layer.IsPlanned provider whole)
    (below : Layered provider whole (layer.fields.map fun e => (layer.scope.below e.field, e.sources)) fields aside
      layers) :
    Layered provider whole [(layer.scope, layer.sites)] (layer.fields.map (·.field) ++ fields)
      ((layer.aside whole).map (·.2) ++ aside) (layer :: layers) := by
  refine ⟨List.forall_mem_cons.2 ⟨planned, below.planned⟩,
    List.forall_mem_cons.2 ⟨.inl List.mem_cons_self, fun lower member => .inr ?_⟩, ?_, ?_, ?_⟩
  · rcases below.linked lower member with top | ⟨above, among, isBelow⟩
    · obtain ⟨e, chosen, same⟩ := List.mem_map.1 top
      obtain ⟨scope, sites⟩ := Prod.mk.inj same
      exact ⟨layer, List.mem_cons_self, e, chosen, scope.symm, sites.symm⟩
    · exact ⟨above, List.mem_cons_of_mem _ among, isBelow⟩
  · rw [List.flatMap_cons, List.map_append]
    exact below.fields_perm.append_left _
  · rw [List.flatMap_cons, List.map_append, below.aside_eq]
  · have shown := below.shown_perm
    rw [List.flatMap_map] at shown
    rw [List.flatMap_cons, List.flatMap_singleton]
    exact (shown.append_left _).trans planned.shown_perm

end Layered

namespace SelectionLaw

mutual

theorem OnSets.layers {scope : Scope} {sets : List SelectionSet} {plan : Option SelectionPlan}
    {aside : List DeferredFragment} : (followsGroups provider).OnSets scope sets plan aside →
      ∀ sites : List Address, sets = sites.filterMap (·.selectionSet? whole) →
        (∀ site ∈ sites, site.isIncluded) → (∀ site ∈ sites, site.responsePath = scope.path) →
          ∃ layers, Layered provider whole [(scope, sites)] (SelectionPlan.fieldsOf plan) aside layers
  | @OnSets.intro _ _ _ nodes _ here fields => fun sites sets included located => by
      have inner := fields.layers (followsGroups_coherent here)
      subst sets
      obtain ⟨layers, below⟩ := inner _ (followsGroups_sourced here included located)
      have stacked := Layered.under (followsGroups_layer here included located)
        (by rwa [Layer.ofNodes, List.map_map])
      rw [Layer.ofNodes, List.map_map] at stacked
      refine ⟨_, { stacked with
        fields_perm := stacked.fields_perm.trans (SelectionPlan.fieldsOf_ofFields_split nodes).symm
        aside_eq := ?_ }⟩
      rw [stacked.aside_eq, scope.setAside_sightings whole sites]
      rfl

theorem OnFields.layers {scope : Scope} {nodes : List FieldPlan} {aside : List DeferredFragment} :
    (followsGroups provider).OnFields scope nodes aside → (∀ node ∈ nodes, node.IsCoherent scope) →
      ∀ sourcesOf : FieldPlan → List Address,
        (∀ node ∈ nodes, Sourced.IsPlanned provider ⟨node.field, sourcesOf node⟩) →
          ∃ layers, Layered provider whole (nodes.map fun node => (scope.below node.field, sourcesOf node))
            (nodes.flatMap fun node => SelectionPlan.fieldsOf node.resolution.selections?) aside layers
  | .nil => fun _ _ _ => ⟨[], .nil⟩
  | .leaf leaf rest => fun coherent sourcesOf sourced => by
      rw [List.forall_mem_cons] at coherent sourced
      obtain ⟨layers, others⟩ := rest.layers coherent.2 sourcesOf sourced.2
      have none := (coherent.1.leaf_fields leaf).2
      rw [sourced.1.sets_eq whole] at none
      rw [List.map_cons, List.flatMap_cons, leaf]
      exact ⟨layers, (Layered.leaf none).append others⟩
  | .composite composite inner rest => fun coherent sourcesOf sourced => by
      have below := inner.layers
      rw [List.forall_mem_cons] at coherent sourced
      obtain ⟨layers, others⟩ := rest.layers coherent.2 sourcesOf sourced.2
      obtain ⟨-, rfl, located⟩ := coherent.1.composite_fields composite
      obtain ⟨layers', below⟩ := below (sourcesOf _) (sourced.1.sets_eq whole) sourced.1.included
        fun t member => (sourced.1.located t member).trans located.symm
      rw [List.map_cons, List.flatMap_cons, composite]
      exact ⟨layers' ++ layers, below.append others⟩

end

end SelectionLaw

end

end QueryPlanner
