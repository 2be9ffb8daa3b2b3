import QueryPlanner.Proofs.Operation.Inlining

namespace QueryPlanner

open Run

variable {κ : Type} {key : Placed Fragment → κ}

structure Inlining.Same (st : Inlining) (key : Placed Fragment → κ) (st' : Inlining) : Prop where
  used : st.used.map key = st'.used.map key
  inlined : st.inlined = st'.inlined

theorem Inlining.Same.eq {st st' : Inlining} (same : st.Same id st') : st = st' := by
  obtain ⟨used, inlined⟩ := same
  rw [List.map_id, List.map_id] at used
  cases st
  congr

def RunAlike (key : Placed Fragment → κ) {α : Type} (p q : Inliner α) : Prop :=
  ∀ st st', st.Same key st' → Alike (Inlining.Same · key) (p.run st) (q.run st')

namespace RunAlike

variable {α β : Type}

theorem pure (a : α) : RunAlike key (Pure.pure a) (Pure.pure a) := fun _ _ same => ⟨rfl, same⟩

theorem bind {p q : Inliner α} {f g : α → Inliner β} (first : RunAlike key p q)
    (next : ∀ a, RunAlike key (f a) (g a)) : RunAlike key (p >>= f) (q >>= g) :=
  fun st st' same => (first st st' same).bind fun a => next a

theorem recordInlined (name : Text) (set : SelectionSet) :
    RunAlike key (Inliner.recordInlined name set) (Inliner.recordInlined name set) :=
  fun _ _ same => ⟨rfl, same.used, congrArg ((name, set) :: ·) same.inlined⟩

theorem map {p q : Inliner α} {f : α → β} (first : RunAlike key p q) :
    RunAlike key (do return f (← p)) (do return f (← q)) :=
  first.bind fun a => pure (f a)

end RunAlike

section Traversal

variable {spread spread' : FragmentSpread → Inliner InlineFragment}

mutual

theorem SelectionSet.inlineWith_alike : (set : SelectionSet) →
    (∀ s ∈ set.spreads, RunAlike key (spread s) (spread' s)) →
    RunAlike key (set.inlineWith spread) (set.inlineWith spread')
  | ⟨selections, _⟩ => fun each => by
      unfold SelectionSet.inlineWith
      exact (inlineSelections_alike selections each).map

theorem Selection.inlineWith_alike : (selection : Selection) →
    (∀ s ∈ selection.spreads, RunAlike key (spread s) (spread' s)) →
    RunAlike key (selection.inlineWith spread) (selection.inlineWith spread')
  | .field ⟨_, _, _, _, _, none, _⟩ => fun _ => .pure none
  | .field ⟨_, _, _, _, _, some set, _⟩ => fun each => by
      unfold Selection.inlineWith
      exact (set.inlineWith_alike each).map
  | .inline ⟨_, _, set, _⟩ => fun each => by
      unfold Selection.inlineWith
      exact (set.inlineWith_alike each).map
  | .spread s => fun each => by
      unfold Selection.inlineWith
      exact (each s (List.mem_singleton_self s)).map

theorem inlineSelections_alike : (selections : List Selection) →
    (∀ s ∈ spreadsIn selections, RunAlike key (spread s) (spread' s)) →
    RunAlike key (inlineSelections spread selections) (inlineSelections spread' selections)
  | [] => fun _ => .pure none
  | s :: rest => fun each => by
      obtain ⟨eachFirst, eachOther⟩ := List.forall_mem_append.1 each
      have others := inlineSelections_alike rest eachOther
      unfold inlineSelections
      exact (s.inlineWith_alike eachFirst).bind fun _ => others.map

end

end Traversal

theorem inlineFragment_alike {replace replace' : FragmentSpread → Inliner InlineFragment} {f g : Placed Fragment}
    (same : key f = key g) (define : f.definition = g.definition)
    (inside : RunAlike key (f.definition.selectionSet.inlineWith replace)
      (f.definition.selectionSet.inlineWith replace')) :
    RunAlike key (Inliner.inlineFragment replace f) (Inliner.inlineFragment replace' g) := by
  intro st st' ⟨used, inlined⟩
  cases known : st.inlined.lookup f.definition.name.text with
  | some set =>
      rw [inlineFragment_remembered known, inlineFragment_remembered (by rwa [← define, ← inlined])]
      exact ⟨rfl, used, inlined⟩
  | none =>
      rw [inlineFragment_new known, inlineFragment_new (by rwa [← define, ← inlined]), ← define]
      refine (inside.bind fun r => (RunAlike.recordInlined _ _).map) _ _ ⟨?_, inlined⟩
      rw [List.map_append, List.map_append, used, List.map_singleton, List.map_singleton, same]

structure Agree (key : Placed Fragment → κ) (own : SelectionSet) (fragments fragments' : List (Placed Fragment)) :
    Prop where
  reads : ∀ f g, key f = key g → f.definition = g.definition
  keys : ∀ name, Reaches (definition? fragments) own name →
    (Inliner.findFragment? fragments name).map key = (Inliner.findFragment? fragments' name).map key

section

variable {fragments fragments' : List (Placed Fragment)} {own : SelectionSet} {name : Text}

theorem Agree.found (agree : Agree key own fragments fragments') (reaches : Reaches (definition? fragments) own name)
    {f : Placed Fragment} (found : Inliner.findFragment? fragments name = some f) :
    ∃ g, Inliner.findFragment? fragments' name = some g ∧ key f = key g ∧ f.definition = g.definition := by
  have keys := agree.keys name reaches
  rw [found] at keys
  obtain ⟨g, found', same⟩ := Option.map_eq_some_iff.1 keys.symm
  exact ⟨g, found', same.symm, agree.reads f g same.symm⟩

theorem Agree.definition? (agree : Agree key own fragments fragments')
    (reaches : Reaches (definition? fragments) own name) : definition? fragments name = definition? fragments' name := by
  unfold QueryPlanner.definition?
  cases found : Inliner.findFragment? fragments name with
  | none =>
      have keys := agree.keys name reaches
      rw [found] at keys
      rw [Option.map_eq_none_iff.1 keys.symm]
  | some f =>
      obtain ⟨g, found', -, same⟩ := agree.found reaches found
      rw [found', Option.map_some, Option.map_some, same]

theorem inlineSpread_alike (agree : Agree key own fragments fragments') (fuel fuel' : Nat) {path : List Text}
    {set : SelectionSet} (trail : Trail (definition? fragments) own path set)
    (enough : fragments.length < fuel + path.length) (enough' : fragments'.length < fuel' + path.length) :
    ∀ s ∈ set.spreads,
      RunAlike key (Inliner.inlineSpread fragments fuel path s) (Inliner.inlineSpread fragments' fuel' path s) := by
  -- The names on the trail are defined in both lists, so neither side runs out of steps.
  induction fuel generalizing fuel' path set with
  | zero =>
      have bounded := length_le_of_defined trail.distinct trail.defined
      omega
  | succ fuel ih =>
    cases fuel' with
    | zero =>
        have bounded := length_le_of_defined trail.distinct fun name member =>
          agree.definition? (trail.reached name member) ▸ trail.defined name member
        omega
    | succ fuel' =>
      intro s member
      have reaches := trail.reaches member
      have same : refusal? (definition? fragments) path s = refusal? (definition? fragments') path s := by
        rw [refusal?, agree.definition? reaches, refusal?]
      cases refused : refusal? (definition? fragments) path s with
      | some d =>
          intro st st' _
          rw [inlineSpread_refused refused, inlineSpread_refused (same ▸ refused)]
          rfl
      | none =>
          obtain ⟨offPath, defined⟩ := refusal?_eq_none_iff.1 refused
          obtain ⟨f, found⟩ := exists_of_definition? defined
          obtain ⟨g, found', keys, define⟩ := agree.found reaches found
          have inner := trail.enter member offPath (definition?_eq_some found).1
          have longer : (path ++ [s.name.text]).length = path.length + 1 := List.length_append
          rw [inlineSpread_of_found offPath found, inlineSpread_of_found offPath found', ← define]
          refine (inlineFragment_alike keys define ?_).map
          exact f.definition.selectionSet.inlineWith_alike (ih fuel' inner (by omega) (by omega))

theorem inlineAll_alike (agree : Agree key own fragments fragments') {fuel : Nat} (enough : fragments'.length < fuel) :
    Alike (Inlining.Same · key) (Inliner.inlineAll fragments own)
      (StateT.run (own.inlineWith (Inliner.inlineSpread fragments' fuel [])) {}) :=
  own.inlineWith_alike (inlineSpread_alike agree _ fuel .start (Nat.lt_succ_self _) enough) {} {} ⟨rfl, rfl⟩

theorem inlineAll_of_fuel {fuel : Nat} (enough : fragments.length < fuel) :
    StateT.run (own.inlineWith (Inliner.inlineSpread fragments fuel [])) {} = Inliner.inlineAll fragments own := by
  have agree : Agree id own fragments fragments := ⟨fun _ _ => congrArg Placed.definition, fun _ _ => rfl⟩
  exact ((inlineAll_alike agree enough).eq fun _ _ same => same.eq).symm

end

end QueryPlanner
