import QueryPlanner.Proofs.Plan.Addresses
import QueryPlanner.Proofs.Plan.Laws

namespace QueryPlanner

/-- An address and what flattening puts down there: a field or a fragment set aside, or nothing for one entered. -/
structure Sighting where
  address : Address
  found? : Option Flattened

mutual

def Selection.sightings (scope : Scope) (condition : Option Text) (base : Address) (index : Nat) :
    Selection → List Sighting
  | .field f =>
    if isExcluded f.directives then [] else [⟨base ++ [⟨index, .field f⟩], some (.field condition f)⟩]
  | .spread _ => []
  | .inline ⟨typeCondition, directives, set, loc⟩ =>
    let here := base ++ [⟨index, .fragment ⟨typeCondition, directives, set, loc⟩⟩]
    if isExcluded directives then []
    else
      let inside := narrow scope.parentType condition typeCondition
      let parentType := inside.getD scope.parentType
      match Deferral.decide scope parentType directives with
      | .inline _ => ⟨here, none⟩ :: set.sightings scope inside here
      | .aside label deferCondition =>
        [⟨here, some (.deferred
          { selectionSet := set, parentType, path := scope.path, label, condition := deferCondition })⟩]

def SelectionSet.sightings (scope : Scope) (condition : Option Text) (base : Address) :
    SelectionSet → List Sighting
  | ⟨selections, _⟩ => sightingsFrom scope condition base 0 selections

def sightingsFrom (scope : Scope) (condition : Option Text) (base : Address) (index : Nat) :
    List Selection → List Sighting
  | [] => []
  | s :: rest => s.sightings scope condition base index ++ sightingsFrom scope condition base (index + 1) rest

end

theorem Selection.sightings_inline (scope : Scope) (condition : Option Text) (base : Address) (index : Nat)
    (f : InlineFragment) :
    (Selection.inline f).sightings scope condition base index =
      if isExcluded f.directives then []
      else
        let inside := narrow scope.parentType condition f.typeCondition
        match Deferral.decide scope (inside.getD scope.parentType) f.directives with
        | .inline _ =>
          ⟨base ++ [⟨index, .fragment f⟩], none⟩ ::
            f.selectionSet.sightings scope inside (base ++ [⟨index, .fragment f⟩])
        | .aside label deferCondition =>
          [⟨base ++ [⟨index, .fragment f⟩], some (.deferred
            ⟨f.selectionSet, inside.getD scope.parentType, scope.path, label, deferCondition⟩)⟩] := by
  cases f
  rfl

def Flattened.isKept : Flattened → Bool
  | field _ _ | deferred _ => true
  | inlined _ | spread _ => false

mutual

theorem Selection.flatten_sightings (scope : Scope) (condition : Option Text) (base : Address) (index : Nat) :
    (s : Selection) → (s.flatten scope condition).filter (·.isKept) =
      (s.sightings scope condition base index).filterMap (·.found?)
  | .field f => by
      rw [Selection.flatten, Selection.sightings]
      split_ifs <;> rfl
  | .spread _ => rfl
  | .inline ⟨typeCondition, directives, set, loc⟩ => by
      have inner := set.flatten_sightings scope (narrow scope.parentType condition typeCondition)
        (base ++ [⟨index, .fragment ⟨typeCondition, directives, set, loc⟩⟩])
      rw [Selection.flatten, Selection.sightings]
      split_ifs
      · rfl
      · dsimp only
        cases Deferral.decide scope _ directives with
        | inline reason => cases reason <;> exact inner
        | aside label deferCondition => rfl

theorem SelectionSet.flatten_sightings (scope : Scope) (condition : Option Text) (base : Address) :
    (set : SelectionSet) → (set.flatten scope condition).filter (·.isKept) =
      (set.sightings scope condition base).filterMap (·.found?)
  | ⟨selections, _⟩ => flattenSelections_sightings scope condition base 0 selections

theorem flattenSelections_sightings (scope : Scope) (condition : Option Text) (base : Address) (index : Nat) :
    (selections : List Selection) → (flattenSelections scope condition selections).filter (·.isKept) =
      (sightingsFrom scope condition base index selections).filterMap (·.found?)
  | [] => rfl
  | s :: rest => by
      rw [flattenSelections, sightingsFrom, List.filter_append, List.filterMap_append,
        s.flatten_sightings scope condition base index, flattenSelections_sightings scope condition base (index + 1) rest]

end

def Sighting.below (whole : SelectionSet) (s : Sighting) : List Address :=
  if s.found?.isSome then s.address.inside whole else []

section
variable (scope : Scope) (condition : Option Text) (whole : SelectionSet) {base : Address} (index : Nat)

theorem Selection.sightings_included_field (included : base.isIncluded) (f : Field) :
    ((Selection.field f).addresses base index).filter (·.isIncluded) =
      ((Selection.field f).sightings scope condition base index).flatMap fun s => s.address :: s.below whole := by
  rw [Selection.addresses_field, Selection.sightings]
  have here : Address.isIncluded (base ++ [⟨index, .field f⟩]) = !isExcluded f.directives := by
    rw [Address.isIncluded_concat, included]
    rfl
  cases excluded : isExcluded f.directives with
  | true =>
      rw [excluded] at here
      rw [List.filter_cons_of_neg (by simp [here])]
      cases selects : f.selectionSet with
      | none => rfl
      | some set => exact set.included_of_excluded here
  | false =>
      rw [excluded] at here
      rw [List.filter_cons_of_pos here, if_neg Bool.false_ne_true, List.flatMap_singleton, Sighting.below,
        Address.inside_concat]
      cases selects : f.selectionSet <;> simp [Enclosure.selectionSet?, selects, SelectionSet.included]

theorem Selection.sightings_included_inline (included : base.isIncluded) (f : InlineFragment)
    (inner : ∀ condition base, Address.isIncluded base → f.selectionSet.included base =
      (f.selectionSet.sightings scope condition base).flatMap fun s => s.address :: s.below whole) :
    ((base ++ [⟨index, .fragment f⟩]) :: f.selectionSet.addresses (base ++ [⟨index, .fragment f⟩])).filter
        (·.isIncluded) =
      ((Selection.inline f).sightings scope condition base index).flatMap fun s => s.address :: s.below whole := by
  rw [Selection.sightings_inline]
  have here : Address.isIncluded (base ++ [⟨index, .fragment f⟩]) = !isExcluded f.directives := by
    rw [Address.isIncluded_concat, included]
    rfl
  cases excluded : isExcluded f.directives with
  | true =>
      rw [excluded] at here
      rw [List.filter_cons_of_neg (by simp [here])]
      exact f.selectionSet.included_of_excluded here
  | false =>
      rw [excluded] at here
      rw [List.filter_cons_of_pos here, if_neg Bool.false_ne_true]
      dsimp only
      cases Deferral.decide scope _ f.directives with
      | inline reason => exact congrArg _ (inner _ _ here)
      | aside label deferCondition =>
          dsimp only
          rw [List.flatMap_singleton, Sighting.below, Address.inside_concat]
          rfl

end

section
variable (scope : Scope) (whole : SelectionSet)

mutual

theorem Selection.sightings_included (condition : Option Text) {base : Address} (included : base.isIncluded)
    (index : Nat) : (s : Selection) → (s.addresses base index).filter (·.isIncluded) =
      (s.sightings scope condition base index).flatMap fun s => s.address :: s.below whole
  | .field f => Selection.sightings_included_field scope condition whole index included f
  | .spread _ => rfl
  | .inline ⟨typeCondition, directives, set, loc⟩ =>
      Selection.sightings_included_inline scope condition whole index included ⟨typeCondition, directives, set, loc⟩
        fun condition _ included => set.sightings_included condition included

theorem SelectionSet.sightings_included (condition : Option Text) {base : Address} (included : base.isIncluded) :
    (set : SelectionSet) → set.included base =
      (set.sightings scope condition base).flatMap fun s => s.address :: s.below whole
  | ⟨selections, _⟩ => sightingsFrom_included condition included 0 selections

theorem sightingsFrom_included (condition : Option Text) {base : Address} (included : base.isIncluded) (index : Nat) :
    (selections : List Selection) → (addressesFrom base index selections).filter (·.isIncluded) =
      (sightingsFrom scope condition base index selections).flatMap fun s => s.address :: s.below whole
  | [] => rfl
  | s :: rest => by
      rw [addressesFrom, sightingsFrom, List.filter_append, List.flatMap_append,
        s.sightings_included condition included index, sightingsFrom_included condition included (index + 1) rest]

end

end

def InlineFragment.deferral? (f : InlineFragment) : Option Directive :=
  (Directive.find? f.directives "defer").filter fun d => (d.argument? "if").bind Value.boolean? ≠ some false

theorem InlineFragment.isDeferred_eq (isDeferrable : Bool) (f : InlineFragment) :
    f.isDeferred isDeferrable = (isDeferrable && f.deferral?.isSome) := by
  unfold isDeferred deferral?
  cases Directive.find? f.directives "defer" with
  | none => rfl
  | some d => by_cases disabled : (d.argument? "if").bind Value.boolean? = some false <;> simp [Option.filter, disabled]

structure DeferredFragment.IsOf (f : InlineFragment) (g : DeferredFragment) : Prop where
  selects : g.selectionSet = f.selectionSet
  deferral : ∃ d, f.deferral? = some d ∧ g.label = (d.argument? "label").bind Value.string? ∧
    g.condition = (d.argument? "if").bind Value.varName?

structure Sighting.Fits (scope : Scope) (base : Address) (s : Sighting) : Prop where
  enclosed : s.address.enclosingField = base.withoutFragments
  kept : ∀ x, s.found? = some x → x.isKept
  entered : s.found? = none → ∃ f, s.address.fragment? = some f ∧ f.isDeferred scope.isDeferrable = false
  field : ∀ condition f, s.found? = some (.field condition f) → s.address.field? = some f
  aside : ∀ g, s.found? = some (.deferred g) → ∃ f, s.address.fragment? = some f ∧
    f.isDeferred scope.isDeferrable = true ∧ g.IsOf f ∧ g.path = scope.path

theorem Deferral.decide_inline {scope : Scope} {parentType : Text} {f : InlineFragment} {reason : Option Event}
    (decided : decide scope parentType f.directives = .inline reason) : f.isDeferred scope.isDeferrable = false := by
  rw [← Bool.not_eq_true]
  intro deferred
  obtain ⟨label, condition, aside⟩ := decide_of_deferred parentType deferred
  rw [decided] at aside
  contradiction

theorem Deferral.decide_aside {scope : Scope} {parentType : Text} {f : InlineFragment} {label condition : Option Text}
    (decided : decide scope parentType f.directives = .aside label condition) :
    f.isDeferred scope.isDeferrable = true ∧ ∃ d, f.deferral? = some d ∧
      label = (d.argument? "label").bind Value.string? ∧ condition = (d.argument? "if").bind Value.varName? := by
  rw [InlineFragment.isDeferred_eq]
  unfold decide at decided
  unfold InlineFragment.deferral?
  cases found : Directive.find? f.directives "defer" with
  | none =>
      rw [found] at decided
      contradiction
  | some d =>
      rw [found] at decided
      dsimp only at decided
      split_ifs at decided with disabled notDeferrable
      obtain ⟨rfl, rfl⟩ := Deferral.aside.inj decided
      have enabled : (some d).filter (fun d => (d.argument? "if").bind Value.boolean? ≠ some false) = some d := by
        simp [Option.filter, disabled]
      rw [enabled]
      exact ⟨by simpa using notDeferrable, d, rfl, rfl, rfl⟩

theorem Selection.sightings_fit_inline (scope : Scope) (condition : Option Text) (base : Address) (index : Nat)
    (f : InlineFragment)
    (inner : ∀ condition base, ∀ x ∈ f.selectionSet.sightings scope condition base, x.Fits scope base) :
    ∀ x ∈ (Selection.inline f).sightings scope condition base index, x.Fits scope base := by
  intro x member
  rw [Selection.sightings_inline] at member
  split_ifs at member
  · contradiction
  · dsimp only at member
    split at member
    · rename_i decided
      rcases List.mem_cons.1 member with rfl | member
      · exact ⟨Address.enclosingField_concat .., nofun,
          fun _ => ⟨f, Address.fragment?_concat .., Deferral.decide_inline decided⟩, nofun, nofun⟩
      · have fits := inner _ _ x member
        have enclosed := fits.enclosed
        rw [Address.withoutFragments_fragment] at enclosed
        exact { fits with enclosed }
    · rename_i decided
      rw [List.mem_singleton.1 member]
      obtain ⟨deferred, details⟩ := Deferral.decide_aside decided
      refine ⟨Address.enclosingField_concat .., fun x found => ?_, nofun, nofun, fun g found => ?_⟩
      · rw [← Option.some.inj found]
        rfl
      · obtain rfl := Flattened.deferred.inj (Option.some.inj found)
        exact ⟨f, Address.fragment?_concat .., deferred, ⟨rfl, details⟩, rfl⟩

mutual

theorem Selection.sightings_fit (scope : Scope) (condition : Option Text) (base : Address) (index : Nat) :
    (s : Selection) → ∀ x ∈ s.sightings scope condition base index, x.Fits scope base
  | .field f => by
      rw [Selection.sightings]
      split_ifs
      · nofun
      · rw [List.forall_mem_singleton]
        refine ⟨Address.enclosingField_concat .., fun x found => ?_, nofun, fun condition g found => ?_, nofun⟩
        · rw [← Option.some.inj found]
          rfl
        · rw [Address.field?_concat, ← (Flattened.field.inj (Option.some.inj found)).2]
          rfl
  | .spread _ => nofun
  | .inline ⟨typeCondition, directives, set, loc⟩ =>
      Selection.sightings_fit_inline scope condition base index ⟨typeCondition, directives, set, loc⟩
        fun condition base => set.sightings_fit scope condition base

theorem SelectionSet.sightings_fit (scope : Scope) (condition : Option Text) (base : Address) :
    (set : SelectionSet) → ∀ x ∈ set.sightings scope condition base, x.Fits scope base
  | ⟨selections, _⟩ => sightingsFrom_fit scope condition base 0 selections

theorem sightingsFrom_fit (scope : Scope) (condition : Option Text) (base : Address) (index : Nat) :
    (selections : List Selection) → ∀ x ∈ sightingsFrom scope condition base index selections, x.Fits scope base
  | [] => nofun
  | s :: rest => by
      rw [sightingsFrom, List.forall_mem_append]
      exact ⟨s.sightings_fit scope condition base index, sightingsFrom_fit scope condition base (index + 1) rest⟩

end

def Sighting.StandsIn (base : Address) (among : List Sighting) (s : Sighting) : Prop :=
  s.address.dropLast = base ∨ ∃ outer ∈ among, outer.found? = none ∧ outer.address = s.address.dropLast

theorem Sighting.StandsIn.mono {base : Address} {among among' : List Sighting} {s : Sighting}
    (more : among ⊆ among') : s.StandsIn base among → s.StandsIn base among' :=
  Or.imp_right fun ⟨outer, member, entered⟩ => ⟨outer, more member, entered⟩

mutual

theorem Selection.sightings_stand (scope : Scope) (condition : Option Text) (base : Address) (index : Nat) :
    (s : Selection) → ∀ x ∈ s.sightings scope condition base index,
      x.StandsIn base (s.sightings scope condition base index)
  | .field f => by
      rw [Selection.sightings]
      split_ifs
      · nofun
      · rw [List.forall_mem_singleton]
        exact .inl List.dropLast_concat
  | .spread _ => nofun
  | .inline ⟨typeCondition, directives, set, loc⟩ => by
      have inner := set.sightings_stand scope (narrow scope.parentType condition typeCondition)
        (base ++ [⟨index, .fragment ⟨typeCondition, directives, set, loc⟩⟩])
      rw [Selection.sightings]
      split_ifs
      · nofun
      · dsimp only
        cases Deferral.decide scope _ directives with
        | inline reason =>
            refine List.forall_mem_cons.2 ⟨.inl List.dropLast_concat, fun x member => ?_⟩
            rcases inner x member with direct | indirect
            · exact .inr ⟨_, List.mem_cons_self, rfl, direct.symm⟩
            · exact Sighting.StandsIn.mono (List.subset_cons_self _ _) (.inr indirect)
        | aside label deferCondition =>
            exact List.forall_mem_singleton.2 (.inl List.dropLast_concat)

theorem SelectionSet.sightings_stand (scope : Scope) (condition : Option Text) (base : Address) :
    (set : SelectionSet) → ∀ x ∈ set.sightings scope condition base,
      x.StandsIn base (set.sightings scope condition base)
  | ⟨selections, _⟩ => sightingsFrom_stand scope condition base 0 selections

theorem sightingsFrom_stand (scope : Scope) (condition : Option Text) (base : Address) (index : Nat) :
    (selections : List Selection) → ∀ x ∈ sightingsFrom scope condition base index selections,
      x.StandsIn base (sightingsFrom scope condition base index selections)
  | [] => nofun
  | s :: rest => by
      rw [sightingsFrom, List.forall_mem_append]
      exact ⟨fun x member => (s.sightings_stand scope condition base index x member).mono (List.subset_append_left _ _),
        fun x member =>
          (sightingsFrom_stand scope condition base (index + 1) rest x member).mono (List.subset_append_right _ _)⟩

end

end QueryPlanner
