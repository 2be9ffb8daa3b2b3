import QueryPlanner.Proofs.Plan.Layers

/-!
# Portions of a plan

A plan is delivered in portions: what its root holds, then one portion for each deferred fragment. `OnAllDeferred.portions`
makes the portions that the deferred fragments of a plan deliver, each accounting for all that is selected in its fragment.
-/

namespace QueryPlanner

/--
What is delivered at once for a deferred fragment, or for the operation: the plan fields with their sources, the fragments
inlined on the way to them, and the portions of the deferred fragments met there.
-/
structure Portion where
  fragment : Address
  fields : List Sourced
  entered : List Address
  nested : List Portion

mutual

def Portion.portions : Portion → List Portion
  | ⟨fragment, fields, entered, nested⟩ => ⟨fragment, fields, entered, nested⟩ :: portionsIn nested

def portionsIn : List Portion → List Portion
  | [] => []
  | portion :: rest => portion.portions ++ portionsIn rest

end

namespace Portion

structure Fits (portion : Portion) (plan : DeferPlan) : Prop where
  path : plan.path = portion.fragment.enclosingField.responsePath
  options : ∃ f d, portion.fragment.fragment? = some f ∧ f.deferral? = some d ∧
    plan.label = (d.argument? "label").bind Value.string? ∧ plan.condition = (d.argument? "if").bind Value.varName?
  fields : (portion.fields.map (·.field)).Perm (SelectionPlan.fieldsOf plan.node)

inductive IsDelivered : Portion → DeferPlan → Prop
  | intro {portion : Portion} {plan : DeferPlan} : portion.Fits plan →
      List.Forall₂ IsDelivered portion.nested plan.deferred → IsDelivered portion plan

end Portion

theorem Portion.portions_eq (portion : Portion) : portion.portions = portion :: portionsIn portion.nested := by
  cases portion
  rfl

theorem Portion.self_mem (portion : Portion) : portion ∈ portion.portions := by
  rw [portions_eq]
  exact List.mem_cons_self

mutual

theorem Portion.nested_mem : (root : Portion) → ∀ portion ∈ root.portions, ∀ inner ∈ portion.nested, inner ∈ root.portions
  | ⟨fragment, fields, entered, nested⟩ => by
      obtain ⟨own, others⟩ := portionsIn_nested_mem nested
      refine List.forall_mem_cons.2 ⟨fun inner member => List.mem_cons_of_mem _ (own inner member), ?_⟩
      exact fun portion among inner member => List.mem_cons_of_mem _ (others portion among inner member)

theorem portionsIn_nested_mem : (portions : List Portion) → (∀ portion ∈ portions, portion ∈ portionsIn portions) ∧
    ∀ portion ∈ portionsIn portions, ∀ inner ∈ portion.nested, inner ∈ portionsIn portions
  | [] => ⟨nofun, nofun⟩
  | first :: rest => by
      obtain ⟨own, others⟩ := portionsIn_nested_mem rest
      have here := first.nested_mem
      rw [portionsIn, List.forall_mem_cons, List.forall_mem_append]
      exact ⟨⟨List.mem_append_left _ first.self_mem, fun portion member => List.mem_append_right _ (own portion member)⟩,
        fun portion among inner member => List.mem_append_left _ (here portion among inner member),
        fun portion among inner member => List.mem_append_right _ (others portion among inner member)⟩

end

theorem Portion.nested_mem_portions (root : Portion) : ∀ portion ∈ portionsIn root.nested, portion ∈ root.portions := by
  rw [root.portions_eq]
  exact fun portion nested => List.mem_cons_of_mem _ nested

mutual

theorem Portion.forall_portions {holds : Portion → Prop} : (root : Portion) → holds root →
    (∀ portion ∈ root.portions, holds portion → ∀ inner ∈ portion.nested, holds inner) →
      ∀ portion ∈ root.portions, holds portion
  | ⟨fragment, fields, entered, nested⟩ => fun start step => by
      refine List.forall_mem_cons.2 ⟨start, forall_portionsIn nested (step _ List.mem_cons_self start) ?_⟩
      exact fun portion among => step portion (List.mem_cons_of_mem _ among)

theorem forall_portionsIn {holds : Portion → Prop} : (portions : List Portion) →
    (∀ portion ∈ portions, holds portion) →
      (∀ portion ∈ portionsIn portions, holds portion → ∀ inner ∈ portion.nested, holds inner) →
        ∀ portion ∈ portionsIn portions, holds portion
  | [] => fun _ _ => nofun
  | first :: rest => fun starts step => by
      rw [List.forall_mem_cons] at starts
      rw [portionsIn, List.forall_mem_append] at step
      refine List.forall_mem_append.2 ⟨first.forall_portions starts.1 step.1, ?_⟩
      exact forall_portionsIn rest starts.2 step.2

end

theorem Portion.exists_outer (root : Portion) :
    ∀ portion ∈ portionsIn root.nested, ∃ outer ∈ root.portions, portion ∈ outer.nested :=
  forall_portionsIn root.nested (fun _ nested => ⟨root, root.self_mem, nested⟩)
    fun portion among _ _ nested => ⟨portion, root.nested_mem_portions portion among, nested⟩

namespace Portion

def kept (portion : Portion) : List Address := portion.fields.flatMap (·.sources) ++ portion.entered

def Rates (portion : Portion) (object : Address) (isDeferrable : Bool) : Prop :=
  (object = portion.fragment.withoutFragments ∧ isDeferrable = true) ∨
    ∃ e ∈ portion.fields, object ∈ e.sources ∧ e.field.metadata.isDeferrable = isDeferrable

def Judges (portion : Portion) (t : Address) (verdict : Bool) : Prop :=
  ∃ f isDeferrable, t.fragment? = some f ∧ portion.Rates t.enclosingField isDeferrable ∧
    f.isDeferred isDeferrable = verdict

/-- The portion accounts for all that is in its fragment, by itself or by what is nested in it. -/
structure IsSound (provider : MetadataProvider) (whole : SelectionSet) (portion : Portion) : Prop where
  accounts : (portion.kept ++ portion.nested.flatMap fun inner => inner.fragment :: inner.fragment.inside whole).Perm
    (portion.fragment.inside whole)
  stands : ∀ t ∈ portion.kept ++ portion.nested.map (·.fragment),
    t.dropLast = portion.fragment ∨ t.dropLast ∈ portion.kept
  planned : ∀ e ∈ portion.fields, e.IsPlanned provider
  entered : ∀ t ∈ portion.entered, portion.Judges t false
  deferred : ∀ inner ∈ portion.nested, portion.Judges inner.fragment true

end Portion

structure Address.Holds (t : Address) (f : DeferredFragment) : Prop where
  included : t.isIncluded
  stands : ∃ fragment, t.fragment? = some fragment ∧ f.IsOf fragment
  located : f.path = t.enclosingField.responsePath

section
variable {provider : MetadataProvider} {whole : SelectionSet} {scope : Scope} {sites : List Address}

theorem Layer.exists_of_entered {layer : Layer} {t : Address} (member : t ∈ layer.entered whole) :
    ∃ s ∈ layer.scope.sightings whole layer.sites, s.address = t ∧ s.found? = none := by
  obtain ⟨s, passed, address⟩ := List.mem_map.1 member
  obtain ⟨met, none⟩ := List.mem_filter.1 passed
  exact ⟨s, met, address, Option.isNone_iff_eq_none.1 none⟩

theorem Layer.exists_of_aside {layer : Layer} {h : Address × DeferredFragment} (member : h ∈ layer.aside whole) :
    ∃ s ∈ layer.scope.sightings whole layer.sites, s.address = h.1 ∧ s.found? = some (.deferred h.2) := by
  obtain ⟨s, chosen, found⟩ := List.mem_filterMap.1 member
  obtain ⟨g, kept, rfl⟩ := Option.map_eq_some_iff.1 found
  obtain ⟨x, put, isAside⟩ := Option.bind_eq_some_iff.1 kept
  cases x with
  | deferred g' => exact ⟨s, chosen, rfl, by rw [put, Option.some.inj isAside]⟩
  | _ => contradiction

theorem Layer.IsPlanned.exists_of_source {layer : Layer} (planned : layer.IsPlanned provider whole) {e : Sourced}
    (field : e ∈ layer.fields) {t : Address} (source : t ∈ e.sources) :
    ∃ s ∈ layer.scope.sightings whole layer.sites, s.address = t := by
  obtain ⟨entry, met, rfl⟩ := List.mem_map.1 (planned.selected.mem_iff.1 (List.mem_flatMap.2 ⟨e, field, source⟩))
  obtain ⟨s, met, address, -⟩ := Scope.exists_of_entry met
  exact ⟨s, met, address⟩

theorem Layer.IsPlanned.aside_holds {layer : Layer} (planned : layer.IsPlanned provider whole) :
    ∀ h ∈ layer.aside whole, h.1.Holds h.2 := by
  intro h member
  obtain ⟨s, met, address, found⟩ := Layer.exists_of_aside member
  have enclosing := layer.scope.sightings_located whole planned.located s met
  have included := layer.scope.sightings_isIncluded whole planned.included s met
  obtain ⟨site, -, set, -, here⟩ := Scope.mem_sightings.1 met
  obtain ⟨f, fragment, -, isOf, path⟩ := (set.sightings_fit layer.scope none site s here).aside h.2 found
  rw [address] at enclosing included fragment
  exact ⟨included, ⟨f, fragment, isOf⟩, path.trans enclosing.symm⟩

section
variable {fragment : Address} {fields : List PlanField} {aside : List DeferredFragment} {layers : List Layer}
  (layered : Layered provider whole [(scope, [fragment])] fields aside layers) (nested : List Portion)

def portionOf (whole : SelectionSet) (fragment : Address) (layers : List Layer) (nested : List Portion) : Portion :=
  ⟨fragment, layers.flatMap (·.fields), layers.flatMap (·.entered whole), nested⟩

include layered

theorem Layered.site_eq {layer : Layer} (member : layer ∈ layers) {site : Address} (chosen : site ∈ layer.sites) :
    (site = fragment ∧ layer.scope = scope) ∨ ∃ e ∈ layers.flatMap (·.fields), site ∈ e.sources ∧
      layer.scope.isDeferrable = e.field.metadata.isDeferrable := by
  rcases layered.linked layer member with top | ⟨above, among, e, source, scope_eq, sites_eq⟩
  · obtain ⟨scope_eq, sites_eq⟩ := Prod.mk.inj (List.mem_singleton.1 top)
    rw [sites_eq, List.mem_singleton] at chosen
    exact .inl ⟨chosen, scope_eq⟩
  · refine .inr ⟨e, List.mem_flatMap.2 ⟨above, among, source⟩, sites_eq ▸ chosen, ?_⟩
    rw [scope_eq]
    rfl

theorem Layered.rates (isDeferrable : scope.isDeferrable = true) {layer : Layer} (member : layer ∈ layers)
    {s : Sighting} (met : s ∈ layer.scope.sightings whole layer.sites) :
    (portionOf whole fragment layers nested).Rates s.address.enclosingField layer.scope.isDeferrable := by
  obtain ⟨site, chosen, set, -, here⟩ := Scope.mem_sightings.1 met
  rw [(set.sightings_fit layer.scope none site s here).enclosed]
  rcases layered.site_eq member chosen with ⟨rfl, scope_eq⟩ | ⟨e, planned, source, deferrable⟩
  · exact .inl ⟨rfl, scope_eq ▸ isDeferrable⟩
  · refine .inr ⟨e, planned, ?_, deferrable.symm⟩
    obtain ⟨above, among, field⟩ := List.mem_flatMap.1 planned
    obtain ⟨f, isField⟩ := Option.isSome_iff_exists.1 (((layered.planned above among).fields e field).fields site source)
    obtain ⟨base, index, rfl⟩ := Address.exists_concat_of_field? isField
    rw [Address.withoutFragments_field]
    exact source

theorem Layered.stands {layer : Layer} (member : layer ∈ layers)
    {s : Sighting} (met : s ∈ layer.scope.sightings whole layer.sites) :
    s.address.dropLast = fragment ∨ s.address.dropLast ∈ (portionOf whole fragment layers nested).kept := by
  obtain ⟨site, chosen, set, selects, here⟩ := Scope.mem_sightings.1 met
  rcases set.sightings_stand layer.scope none site s here with direct | ⟨outer, among, entered, around⟩
  · rw [direct]
    refine (layered.site_eq member chosen).imp And.left fun ⟨e, planned, source, _⟩ => ?_
    exact List.mem_append_left _ (List.mem_flatMap.2 ⟨e, planned, source⟩)
  · refine .inr (List.mem_append_right _ (List.mem_flatMap.2 ⟨layer, member, List.mem_map.2 ⟨outer, ?_, around⟩⟩))
    exact List.mem_filter.2 ⟨Scope.mem_sightings.2 ⟨site, chosen, set, selects, among⟩, by rw [entered]; rfl⟩

theorem Layered.accounts :
    ((portionOf whole fragment layers nested).kept ++
      (layers.flatMap (·.aside whole)).flatMap fun h => h.1 :: h.1.inside whole).Perm (fragment.inside whole) := by
  have shown := layered.shown_perm
  rw [List.flatMap_singleton, List.flatMap_singleton] at shown
  refine .trans ?_ shown
  have split : layers.flatMap (·.shown whole) = layers.flatMap fun layer =>
      (layer.fields.flatMap (·.sources) ++ layer.entered whole) ++
        (layer.aside whole).flatMap fun h => h.1 :: h.1.inside whole := rfl
  rw [split, Portion.kept, portionOf, List.flatMap_assoc, List.flatMap_assoc]
  exact (((List.flatMap_append_perm layers _ _).append_right _)).trans (List.flatMap_append_perm layers _ _)

theorem Layered.stands_kept : ∀ t ∈ (portionOf whole fragment layers nested).kept,
    t.dropLast = fragment ∨ t.dropLast ∈ (portionOf whole fragment layers nested).kept := by
  refine List.forall_mem_append.2 ⟨fun t member => ?_, fun t member => ?_⟩
  · obtain ⟨e, planned, source⟩ := List.mem_flatMap.1 member
    obtain ⟨layer, among, field⟩ := List.mem_flatMap.1 planned
    obtain ⟨s, met, rfl⟩ := (layered.planned layer among).exists_of_source field source
    exact layered.stands nested among met
  · obtain ⟨layer, among, entered⟩ := List.mem_flatMap.1 member
    obtain ⟨s, met, rfl, -⟩ := Layer.exists_of_entered entered
    exact layered.stands nested among met

theorem Layered.stands_aside : ∀ h ∈ layers.flatMap (·.aside whole),
    h.1.dropLast = fragment ∨ h.1.dropLast ∈ (portionOf whole fragment layers nested).kept := by
  intro h member
  obtain ⟨layer, among, aside⟩ := List.mem_flatMap.1 member
  obtain ⟨s, met, address, -⟩ := Layer.exists_of_aside aside
  exact address ▸ layered.stands nested among met

theorem Layered.judges_entered (isDeferrable : scope.isDeferrable = true) :
    ∀ t ∈ layers.flatMap (·.entered whole), (portionOf whole fragment layers nested).Judges t false := by
  intro t member
  obtain ⟨layer, among, entered⟩ := List.mem_flatMap.1 member
  obtain ⟨s, met, rfl, none⟩ := Layer.exists_of_entered entered
  have rates := layered.rates nested isDeferrable among met
  obtain ⟨site, -, set, -, here⟩ := Scope.mem_sightings.1 met
  obtain ⟨f, stands, verdict⟩ := (set.sightings_fit layer.scope Option.none site s here).entered none
  exact ⟨f, _, stands, rates, verdict⟩

theorem Layered.judges_aside (isDeferrable : scope.isDeferrable = true) :
    ∀ h ∈ layers.flatMap (·.aside whole), (portionOf whole fragment layers nested).Judges h.1 true := by
  intro h member
  obtain ⟨layer, among, aside⟩ := List.mem_flatMap.1 member
  obtain ⟨s, met, address, found⟩ := Layer.exists_of_aside aside
  have rates := layered.rates nested isDeferrable among met
  obtain ⟨site, -, set, -, here⟩ := Scope.mem_sightings.1 met
  obtain ⟨f, stands, verdict, -⟩ := (set.sightings_fit layer.scope none site s here).aside h.2 found
  exact address ▸ ⟨f, _, stands, rates, verdict⟩

theorem Layered.isSound (isDeferrable : scope.isDeferrable = true)
    (deferred : nested.map (·.fragment) = (layers.flatMap (·.aside whole)).map (·.1)) :
    (portionOf whole fragment layers nested).IsSound provider whole := by
  refine ⟨?_, List.forall_mem_append.2 ⟨layered.stands_kept nested, ?_⟩, ?_,
    layered.judges_entered nested isDeferrable, ?_⟩
  · have below : (nested.flatMap fun inner => inner.fragment :: inner.fragment.inside whole) =
        (nested.map (·.fragment)).flatMap fun t => t :: t.inside whole := by rw [List.flatMap_map]
    change (_ ++ nested.flatMap _).Perm _
    rw [below, deferred, List.flatMap_map]
    exact layered.accounts nested
  · change ∀ t ∈ nested.map (·.fragment), _
    rw [deferred]
    exact List.forall_mem_map.2 (layered.stands_aside nested)
  · intro e planned
    obtain ⟨layer, among, field⟩ := List.mem_flatMap.1 planned
    exact (layered.planned layer among).fields e field
  · intro inner member
    obtain ⟨h, aside, same⟩ := List.mem_map.1 (deferred ▸ List.mem_map_of_mem member)
    exact same ▸ layered.judges_aside nested isDeferrable h aside

end

theorem Address.Holds.site {t : Address} {f : DeferredFragment} (holds : t.Holds f) :
    [f.selectionSet] = [t].filterMap (·.selectionSet? whole) ∧ t.responsePath = f.scope.path := by
  obtain ⟨-, ⟨fragment, stands, isOf⟩, located⟩ := holds
  obtain ⟨base, index, rfl⟩ := exists_concat_of_fragment? stands
  rw [enclosingField_concat, responsePath_withoutFragments] at located
  refine ⟨?_, ?_⟩
  · rw [List.filterMap_cons, selectionSet?_concat, isOf.selects]
    rfl
  · rw [responsePath_concat]
    exact (List.append_nil _).trans located.symm

namespace SelectionLaw

theorem OnSets.portion (whole : SelectionSet) {set : SelectionSet} {plan : Option SelectionPlan} {aside : List DeferredFragment} {t : Address}
    (sets : (followsGroups provider).OnSets scope [set] plan aside) (isDeferrable : scope.isDeferrable = true)
    (included : t.isIncluded)
    (site : [set] = [t].filterMap (·.selectionSet? whole) ∧ t.responsePath = scope.path) :
    ∃ fields : List Sourced, ∃ entered, ∃ held : List (Address × DeferredFragment),
      (fields.map (·.field)).Perm (SelectionPlan.fieldsOf plan) ∧
      held.map (·.2) = aside ∧ (∀ h ∈ held, h.1.Holds h.2) ∧
      ∀ nested : List Portion, nested.map (·.fragment) = held.map (·.1) →
        Portion.IsSound provider whole ⟨t, fields, entered, nested⟩ := by
  obtain ⟨layers, layered⟩ := sets.layers [t] site.1 (List.forall_mem_singleton.2 included)
    (List.forall_mem_singleton.2 site.2)
  refine ⟨_, _, layers.flatMap (·.aside whole), layered.fields_perm, layered.aside_eq, ?_,
    fun nested deferred => layered.isSound nested isDeferrable deferred⟩
  intro h member
  obtain ⟨layer, among, aside⟩ := List.mem_flatMap.1 member
  exact (layered.planned layer among).aside_holds h aside

mutual

theorem OnDeferred.portion {f : DeferredFragment} {plan : DeferPlan} :
    (followsGroups provider).OnDeferred f plan → ∀ t : Address, t.Holds f →
      ∃ portion : Portion, portion.fragment = t ∧ portion.IsDelivered plan ∧
        ∀ inner ∈ portion.portions, inner.IsSound provider whole
  | .intro sets nested => fun t holds => by
      have deferred := nested.portions
      obtain ⟨fields, entered, held, planned, aside, areHeld, sound⟩ :=
        sets.portion whole rfl holds.included holds.site
      obtain ⟨portions, fragments, delivered, below⟩ := deferred held aside areHeld
      obtain ⟨-, ⟨fragment, stands, -, d, deferral, label, condition⟩, located⟩ := holds
      refine ⟨⟨t, fields, entered, portions⟩, rfl, .intro ⟨located, ?_, planned⟩ delivered, ?_⟩
      · exact ⟨fragment, d, stands, deferral, label, condition⟩
      · exact List.forall_mem_cons.2 ⟨sound portions fragments, below⟩

theorem OnAllDeferred.portions {fragments : List DeferredFragment} {plans : List DeferPlan} :
    (followsGroups provider).OnAllDeferred fragments plans → ∀ held : List (Address × DeferredFragment),
      held.map (·.2) = fragments → (∀ h ∈ held, h.1.Holds h.2) →
        ∃ portions : List Portion, portions.map (·.fragment) = held.map (·.1) ∧
          List.Forall₂ Portion.IsDelivered portions plans ∧
            ∀ inner ∈ portionsIn portions, inner.IsSound provider whole
  | .nil => fun held fragments _ => by
      rw [List.map_eq_nil_iff.1 fragments]
      exact ⟨[], rfl, .nil, nofun⟩
  | .cons first rest => fun held fragments holds => by
      have head := first.portion
      have tail := rest.portions
      obtain ⟨h, others, rfl, rfl, rfl⟩ := List.map_eq_cons_iff.1 fragments
      rw [List.forall_mem_cons] at holds
      obtain ⟨portion, fragment, delivered, sound⟩ := head h.1 holds.1
      obtain ⟨portions, fragments, areDelivered, areSound⟩ := tail others rfl holds.2
      refine ⟨portion :: portions, ?_, .cons delivered areDelivered, List.forall_mem_append.2 ⟨sound, areSound⟩⟩
      rw [List.map_cons, fragment, fragments]
      rfl

end

end SelectionLaw

end

end QueryPlanner
