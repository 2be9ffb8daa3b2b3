import QueryPlanner.Proofs.Plan.Portions
import QueryPlanner.Proofs.Plan.EncounterOrder
import Mathlib.Data.List.Pairwise

namespace QueryPlanner

namespace Portion

def AllowsDeferral (root : Portion) (object : Address) : Prop :=
  object = [] ∨ ∃ portion ∈ root.portions, ∃ e ∈ portion.fields, object ∈ e.sources ∧ e.field.metadata.isDeferrable

structure Sorts (provider : MetadataProvider) (whole : SelectionSet) (root : Portion) : Prop where
  fields : (root.portions.flatMap fun portion => portion.fields.flatMap (·.sources)).Perm
    ((whole.included []).filter (·.field?.isSome))
  planned : ∀ portion ∈ root.portions, ∀ e ∈ portion.fields,
    e.field.IsKnown provider ∧ e.field.fieldNodes = e.sources.filterMap (·.field?)
  once : (root.portions.map (·.fragment)).Nodup
  deferred : ∀ t, t ∈ (portionsIn root.nested).map (·.fragment) ↔
    t ∈ whole.included [] ∧ (∃ f, t.fragment? = some f ∧ f.deferral?.isSome) ∧ root.AllowsDeferral t.enclosingField
  innermost : ∀ portion ∈ root.portions, ∀ inner ∈ portion.nested, portion.fragment.Encloses inner.fragment ∧
    ∀ outer ∈ root.portions, outer.fragment.Encloses inner.fragment → outer.fragment <+: portion.fragment
  contained : ∀ portion ∈ root.portions, ∀ e ∈ portion.fields, ∀ t ∈ e.sources, ∀ outer ∈ root.portions,
    outer.fragment.Encloses t → portion ∈ outer.portions

end Portion

section
variable {provider : MetadataProvider} {whole : SelectionSet}

mutual

theorem Portion.addresses_perm : (root : Portion) → (∀ portion ∈ root.portions, portion.IsSound provider whole) →
    (root.portions.map (·.fragment) ++ root.portions.flatMap (·.kept)).Perm
      (root.fragment :: root.fragment.inside whole)
  | ⟨fragment, fields, entered, nested⟩ => fun sound => by
      have below := portionsIn_addresses_perm nested
      obtain ⟨here, others⟩ := List.forall_mem_cons.1 sound
      rw [Portion.portions, List.map_cons, List.flatMap_cons, List.cons_append]
      refine .cons _ ((List.perm_append_comm_assoc _ _ _).trans ?_)
      exact ((below others).append_left _).trans here.accounts

theorem portionsIn_addresses_perm : (portions : List Portion) →
    (∀ portion ∈ portionsIn portions, portion.IsSound provider whole) →
      ((portionsIn portions).map (·.fragment) ++ (portionsIn portions).flatMap (·.kept)).Perm
        (portions.flatMap fun portion => portion.fragment :: portion.fragment.inside whole)
  | [] => fun _ => .nil
  | first :: rest => fun sound => by
      have here := first.addresses_perm
      have below := portionsIn_addresses_perm rest
      obtain ⟨first, others⟩ := List.forall_mem_append.1 sound
      rw [portionsIn, List.map_append, List.flatMap_append, List.flatMap_cons]
      exact (append_interchange _ _ _ _).trans ((here first).append (below others))

end

theorem Portion.Judges.field?_eq {portion : Portion} {t : Address} {verdict : Bool}
    (judged : portion.Judges t verdict) : t.field? = none := by
  obtain ⟨f, -, stands, -⟩ := judged
  obtain ⟨base, index, rfl⟩ := Address.exists_concat_of_fragment? stands
  rw [Address.field?_concat]
  rfl

theorem Sourced.IsPlanned.source_ne_nil {e : Sourced} (planned : e.IsPlanned provider) {t : Address}
    (source : t ∈ e.sources) : t ≠ [] := by
  rintro rfl
  exact Bool.false_ne_true (planned.fields [] source)

theorem Portion.allows_of_judged {root portion : Portion} (among : portion ∈ root.portions)
    (allowed : root.AllowsDeferral portion.fragment.withoutFragments) {t : Address} (judged : portion.Judges t true) :
    (∃ f, t.fragment? = some f ∧ f.deferral?.isSome) ∧ root.AllowsDeferral t.enclosingField := by
  obtain ⟨f, isDeferrable, stands, rates, verdict⟩ := judged
  rw [InlineFragment.isDeferred_eq, Bool.and_eq_true] at verdict
  refine ⟨⟨f, stands, verdict.2⟩, ?_⟩
  rcases rates with ⟨same, -⟩ | ⟨e, planned, source, deferrable⟩
  · exact same ▸ allowed
  · exact .inr ⟨portion, among, e, planned, source, deferrable.trans verdict.1⟩

namespace Portion.IsSound

variable {portion : Portion} (sound : portion.IsSound provider whole)

include sound

theorem encloses {t : Address} (member : t ∈ portion.kept ++ portion.nested.map (·.fragment)) :
    portion.fragment.Encloses t := by
  refine Address.encloses_inside whole (sound.accounts.mem_iff.1 ?_)
  rcases List.mem_append.1 member with kept | deferred
  · exact List.mem_append_left _ kept
  · obtain ⟨inner, nested, rfl⟩ := List.mem_map.1 deferred
    exact List.mem_append_right _ (List.mem_flatMap.2 ⟨inner, nested, List.mem_cons_self⟩)

theorem around {outer t : Address} (member : t ∈ portion.kept ++ portion.nested.map (·.fragment))
    (encloses : outer.Encloses t) : outer <+: portion.fragment ∨ outer ∈ portion.kept := by
  -- The way up from one address to that directly around it ends at the fragment of the portion.
  induction length : t.length using Nat.strongRecOn generalizing t with
  | ind n ih =>
      have within := encloses.prefix_dropLast
      rcases sound.stands t member with direct | kept
      · exact .inl (direct ▸ within)
      · by_cases same : outer = t.dropLast
        · exact .inr (same ▸ kept)
        · have shorter := List.length_pos_iff.2 encloses.ne_nil
          exact ih t.dropLast.length (by rw [List.length_dropLast]; omega) (List.mem_append_left _ kept)
            ⟨within, same⟩ rfl

theorem field?_of_source {t : Address} (source : t ∈ portion.fields.flatMap (·.sources)) : t.field?.isSome := by
  obtain ⟨e, planned, source⟩ := List.mem_flatMap.1 source
  exact (sound.planned e planned).fields t source

theorem filter_kept : portion.kept.filter (·.field?.isSome) = portion.fields.flatMap (·.sources) := by
  rw [Portion.kept, List.filter_append, List.filter_eq_self.2 fun t source => sound.field?_of_source source,
    List.filter_eq_nil_iff.2, List.append_nil]
  intro t entered
  rw [(sound.entered t entered).field?_eq]
  exact Bool.false_ne_true

end Portion.IsSound

section
variable {root : Portion} (sound : ∀ portion ∈ root.portions, portion.IsSound provider whole) (top : root.fragment = [])

namespace Portion

include sound top

theorem addresses_perm_root : (root.portions.map (·.fragment) ++ root.portions.flatMap (·.kept)).Perm
    ([] :: whole.included []) := by
  have all := root.addresses_perm sound
  rwa [top] at all

theorem addresses_nodup : (root.portions.map (·.fragment) ++ root.portions.flatMap (·.kept)).Nodup := by
  rw [(root.addresses_perm_root sound top).nodup_iff, List.nodup_cons]
  exact ⟨fun member => whole.not_mem_addresses [] (List.mem_filter.1 member).1, whole.included_nodup []⟩

theorem fragment_not_kept {portion outer : Portion} (among : portion ∈ root.portions) (other : outer ∈ root.portions) :
    outer.fragment ∉ portion.kept := by
  intro kept
  obtain ⟨-, -, apart⟩ := List.nodup_append.1 (root.addresses_nodup sound top)
  exact apart _ (List.mem_map_of_mem other) _ (List.mem_flatMap.2 ⟨portion, among, kept⟩) rfl

theorem eq_of_fragment {portion other : Portion} (among : portion ∈ root.portions) (amongToo : other ∈ root.portions)
    (same : portion.fragment = other.fragment) : portion = other :=
  List.inj_on_of_nodup_map (List.nodup_append.1 (root.addresses_nodup sound top)).1 among amongToo same

theorem innermost_fragment {portion inner : Portion} (among : portion ∈ root.portions) (nested : inner ∈ portion.nested)
    {outer : Portion} (other : outer ∈ root.portions) (encloses : outer.fragment.Encloses inner.fragment) :
    outer.fragment <+: portion.fragment :=
  ((sound portion among).around (List.mem_append_right _ (List.mem_map_of_mem nested)) encloses).resolve_right
    (root.fragment_not_kept sound top among other)

theorem mem_of_prefix {outer : Portion} (other : outer ∈ root.portions) :
    ∀ portion ∈ root.portions, outer.fragment <+: portion.fragment → portion ∈ outer.portions := by
  refine root.forall_portions (fun within => ?_) fun portion among ih inner nested within => ?_
  · rw [top, List.prefix_nil, ← top] at within
    exact root.eq_of_fragment sound top other root.self_mem within ▸ outer.self_mem
  · by_cases same : outer.fragment = inner.fragment
    · exact root.eq_of_fragment sound top other (root.nested_mem portion among inner nested) same ▸ outer.self_mem
    · have around := root.innermost_fragment sound top among nested other ⟨within, same⟩
      exact outer.nested_mem portion (ih around) inner nested

theorem contained_in {portion : Portion} (among : portion ∈ root.portions) {t : Address} (kept : t ∈ portion.kept)
    {outer : Portion} (other : outer ∈ root.portions) (encloses : outer.fragment.Encloses t) :
    portion ∈ outer.portions := by
  have around := (sound portion among).around (List.mem_append_left _ kept) encloses
  exact root.mem_of_prefix sound top other portion among
    (around.resolve_right (root.fragment_not_kept sound top among other))

theorem sources_perm : (root.portions.flatMap fun portion => portion.fields.flatMap (·.sources)).Perm
    ((whole.included []).filter (·.field?.isSome)) := by
  have all := (root.addresses_perm_root sound top).filter (·.field?.isSome)
  have fragments : (root.portions.map (·.fragment)).filter (·.field?.isSome) = [] := by
    refine List.filter_eq_nil_iff.2 (List.forall_mem_map.2 ?_)
    rw [root.portions_eq, List.forall_mem_cons, top]
    refine ⟨Bool.false_ne_true, fun portion nested => ?_⟩
    obtain ⟨outer, among, inner⟩ := root.exists_outer portion nested
    rw [((sound outer among).deferred portion inner).field?_eq]
    exact Bool.false_ne_true
  have kept : (root.portions.flatMap (·.kept)).filter (·.field?.isSome) =
      root.portions.flatMap fun portion => portion.fields.flatMap (·.sources) := by
    rw [List.filter_flatMap]
    exact List.flatMap_congr fun portion among => (sound portion among).filter_kept
  rw [List.filter_append, fragments, kept] at all
  exact all

theorem eq_of_source {portion other : Portion} (among : portion ∈ root.portions) (amongToo : other ∈ root.portions)
    {e e' : Sourced} (planned : e ∈ portion.fields) (planned' : e' ∈ other.fields) {t : Address} (source : t ∈ e.sources)
    (source' : t ∈ e'.sources) : e = e' := by
  have distinct := (root.sources_perm sound top).nodup_iff.2 ((whole.included_nodup []).filter _)
  rw [← List.flatMap_assoc, List.nodup_flatMap] at distinct
  have symmetric : Std.Symm (Function.onFun List.Disjoint Sourced.sources) := ⟨fun _ _ => List.disjoint_symm⟩
  by_contra different
  exact distinct.2.forall (List.mem_flatMap.2 ⟨portion, among, planned⟩)
    (List.mem_flatMap.2 ⟨other, amongToo, planned'⟩) different source source'

theorem allows_fragments : ∀ portion ∈ root.portions, root.AllowsDeferral portion.fragment.withoutFragments := by
  refine root.forall_portions (.inl (by rw [top]; rfl)) fun portion among ih inner nested => ?_
  have judged := (sound portion among).deferred inner nested
  obtain ⟨⟨f, stands, -⟩, allowed⟩ := allows_of_judged among ih judged
  obtain ⟨base, index, concat⟩ := Address.exists_concat_of_fragment? stands
  rw [concat, Address.enclosingField_concat] at allowed
  rwa [concat, Address.withoutFragments_fragment]

theorem not_allows_of_judged {portion : Portion} (among : portion ∈ root.portions) {t : Address}
    (judged : portion.Judges t false) {f : InlineFragment} (stands : t.fragment? = some f) (asks : f.deferral?.isSome) :
    ¬ root.AllowsDeferral t.enclosingField := by
  obtain ⟨f', isDeferrable, stands', rates, verdict⟩ := judged
  obtain rfl : f = f' := Option.some.inj (stands.symm.trans stands')
  rw [InlineFragment.isDeferred_eq, asks, Bool.and_true] at verdict
  rcases rates with ⟨-, deferrable⟩ | ⟨e, planned, source, deferrable⟩
  · exact nomatch deferrable.symm.trans verdict
  · rintro (none | ⟨other, amongToo, e', planned', source', deferrable'⟩)
    · exact ((sound portion among).planned e planned).source_ne_nil source none
    · obtain rfl := root.eq_of_source sound top among amongToo planned planned' source source'
      exact nomatch deferrable'.symm.trans (deferrable.trans verdict)

theorem allowed_of_mem {portion : Portion} (nested : portion ∈ portionsIn root.nested) :
    portion.fragment ∈ whole.included [] ∧ (∃ f, portion.fragment.fragment? = some f ∧ f.deferral?.isSome) ∧
      root.AllowsDeferral portion.fragment.enclosingField := by
  obtain ⟨outer, among, inner⟩ := root.exists_outer portion nested
  have allowed := allows_of_judged among (root.allows_fragments sound top outer among)
    ((sound outer among).deferred portion inner)
  refine ⟨?_, allowed⟩
  obtain ⟨⟨f, stands, -⟩, -⟩ := allowed
  have passed := (root.addresses_perm_root sound top).mem_iff.1
    (List.mem_append_left _ (List.mem_map_of_mem (root.nested_mem_portions portion nested)))
  refine (List.mem_cons.1 passed).resolve_left fun none => ?_
  rw [none] at stands
  contradiction

theorem mem_of_allowed {t : Address} (included : t ∈ whole.included []) {f : InlineFragment}
    (stands : t.fragment? = some f) (asks : f.deferral?.isSome) (allowed : root.AllowsDeferral t.enclosingField) :
    t ∈ (portionsIn root.nested).map (·.fragment) := by
  have passed := (root.addresses_perm_root sound top).mem_iff.2 (List.mem_cons_of_mem _ included)
  rcases List.mem_append.1 passed with fragment | kept
  · rw [root.portions_eq, List.map_cons, top] at fragment
    refine (List.mem_cons.1 fragment).resolve_left ?_
    rintro rfl
    contradiction
  · obtain ⟨portion, among, kept⟩ := List.mem_flatMap.1 kept
    rcases List.mem_append.1 kept with source | entered
    · have field := (sound portion among).field?_of_source source
      obtain ⟨base, index, rfl⟩ := Address.exists_concat_of_fragment? stands
      rw [Address.field?_concat] at field
      contradiction
    · have judged := (sound portion among).entered t entered
      exact absurd allowed (root.not_allows_of_judged sound top among judged stands asks)

theorem sorts : root.Sorts provider whole where
  fields := root.sources_perm sound top
  planned portion among e planned :=
    ⟨((sound portion among).planned e planned).known, ((sound portion among).planned e planned).nodes⟩
  once := (List.nodup_append.1 (root.addresses_nodup sound top)).1
  deferred _ := ⟨fun member => by
      obtain ⟨portion, nested, rfl⟩ := List.mem_map.1 member
      exact root.allowed_of_mem sound top nested,
    fun ⟨included, ⟨_, stands, asks⟩, allowed⟩ => root.mem_of_allowed sound top included stands asks allowed⟩
  innermost portion among _ nested :=
    ⟨(sound portion among).encloses (List.mem_append_right _ (List.mem_map_of_mem nested)),
      fun _ other encloses => root.innermost_fragment sound top among nested other encloses⟩
  contained _ among e planned _ source _ other encloses :=
    root.contained_in sound top among (List.mem_append_left _ (List.mem_flatMap.2 ⟨e, planned, source⟩)) other encloses

end Portion

end

end

/-- The deferred fragments of a plan are the fragments that may be deferred, each nested and filled as the operation has it. -/
theorem plan_defers {operation : PreparedOperation} {provider : MetadataProvider} {plan : QueryPlan}
    (built : (operation.plan provider).1 = .ok plan) :
    ∃ root : Portion, root.fragment = [] ∧ (root.fields.map (·.field)).Perm plan.root.root.fields ∧
      List.Forall₂ Portion.IsDelivered root.nested plan.deferred ∧ root.Sorts provider operation.selectionSet := by
  obtain ⟨rootType, -, top, aside, shows, sets, deferred⟩ := operation.plan_onPlan built
  obtain ⟨fields, entered, held, planned, aside, holds, sound⟩ :=
    sets.portion operation.selectionSet (t := []) rfl rfl ⟨rfl, rfl⟩
  obtain ⟨nested, fragments, delivered, below⟩ := deferred.portions held aside holds
  have areSound := List.forall_mem_cons.2 ⟨sound nested fragments, below⟩
  refine ⟨⟨[], fields, entered, nested⟩, rfl, ?_, delivered, Portion.sorts areSound rfl⟩
  rw [shows.fields_eq]
  exact planned

namespace DeferredStreams

theorem defers : ∃ plan, (operation.plan provider).1 = .ok plan ∧
    ∃ root : Portion, root.fragment = [] ∧ (root.fields.map (·.field)).Perm plan.root.root.fields ∧
      List.Forall₂ Portion.IsDelivered root.nested plan.deferred ∧ root.Sorts provider operation.selectionSet := by
  obtain ⟨plan, made⟩ := built
  exact ⟨plan, made, plan_defers made⟩

example : ((operation.selectionSet.included []).filter fun t => (t.fragment?.bind (·.deferral?)).isSome).length = 5 ∧
    (match (operation.plan provider).1 with
      | .ok plan => countDeferred plan.deferred
      | .error _ => 0) = 4 := by decide +kernel

end DeferredStreams

end QueryPlanner
