import QueryPlanner.Operation.Prepared
import Mathlib.Logic.Relation

namespace QueryPlanner

mutual

def SelectionSet.spreads : SelectionSet → List FragmentSpread
  | ⟨selections, _⟩ => spreadsIn selections

def Selection.spreads : Selection → List FragmentSpread
  | .field ⟨_, _, _, _, _, none, _⟩ => []
  | .field ⟨_, _, _, _, _, some set, _⟩ => set.spreads
  | .spread s => [s]
  | .inline ⟨_, _, set, _⟩ => set.spreads

def spreadsIn : List Selection → List FragmentSpread
  | [] => []
  | s :: rest => s.spreads ++ spreadsIn rest

end

variable {fragment? : Text → Option Fragment}

mutual

/-- The second set is the first with an inline fragment for each spread, expanded like the set itself. -/
inductive SelectionSet.Expands (fragment? : Text → Option Fragment) : SelectionSet → SelectionSet → Prop
  | intro {selections expanded : List Selection} {loc : Option Location} :
      ExpandsAll fragment? selections expanded → SelectionSet.Expands fragment? ⟨selections, loc⟩ ⟨expanded, loc⟩

inductive Selection.Expands (fragment? : Text → Option Fragment) : Selection → Selection → Prop
  | leaf {responseName : Option Name} {name : Name} {arguments : List Argument} {modifier : Option Modifier}
      {directives : List Directive} {loc : Option Location} :
      Selection.Expands fragment? (.field ⟨responseName, name, arguments, modifier, directives, none, loc⟩)
        (.field ⟨responseName, name, arguments, modifier, directives, none, loc⟩)
  | field {responseName : Option Name} {name : Name} {arguments : List Argument} {modifier : Option Modifier}
      {directives : List Directive} {set expanded : SelectionSet} {loc : Option Location} :
      SelectionSet.Expands fragment? set expanded →
      Selection.Expands fragment? (.field ⟨responseName, name, arguments, modifier, directives, some set, loc⟩)
        (.field ⟨responseName, name, arguments, modifier, directives, some expanded, loc⟩)
  | inline {typeCondition : Option NamedType} {directives : List Directive} {set expanded : SelectionSet}
      {loc : Option Location} : SelectionSet.Expands fragment? set expanded →
      Selection.Expands fragment? (.inline ⟨typeCondition, directives, set, loc⟩)
        (.inline ⟨typeCondition, directives, expanded, loc⟩)
  | spread {s : FragmentSpread} {f : Fragment} {expanded : SelectionSet} : fragment? s.name.text = some f →
      SelectionSet.Expands fragment? f.selectionSet expanded →
      Selection.Expands fragment? (.spread s) (.inline ⟨some f.typeCondition, s.directives, expanded, s.loc⟩)

inductive ExpandsAll (fragment? : Text → Option Fragment) : List Selection → List Selection → Prop
  | nil : ExpandsAll fragment? [] []
  | cons {s expanded : Selection} {rest expandedRest : List Selection} : Selection.Expands fragment? s expanded →
      ExpandsAll fragment? rest expandedRest → ExpandsAll fragment? (s :: rest) (expanded :: expandedRest)

end

mutual

theorem SelectionSet.Expands.unique {set a b : SelectionSet} :
    set.Expands fragment? a → set.Expands fragment? b → a = b
  | .intro all, .intro all' => by rw [all.unique all']

theorem Selection.Expands.unique {s a b : Selection} : s.Expands fragment? a → s.Expands fragment? b → a = b
  | .leaf, .leaf => rfl
  | .field inner, .field inner' => by rw [inner.unique inner']
  | .inline inner, .inline inner' => by rw [inner.unique inner']
  | .spread found inner, .spread found' inner' => by
      obtain rfl := Option.some.inj (found.symm.trans found')
      rw [inner.unique inner']

theorem ExpandsAll.unique {selections a b : List Selection} :
    ExpandsAll fragment? selections a → ExpandsAll fragment? selections b → a = b
  | .nil, .nil => rfl
  | .cons first rest, .cons first' rest' => by rw [first.unique first', rest.unique rest']

end

mutual

theorem SelectionSet.Expands.spreads_eq_nil {set expanded : SelectionSet} :
    set.Expands fragment? expanded → expanded.spreads = []
  | .intro all => all.spreads_eq_nil

theorem Selection.Expands.spreads_eq_nil {s expanded : Selection} : s.Expands fragment? expanded → expanded.spreads = []
  | .leaf => rfl
  | .field inner => inner.spreads_eq_nil
  | .inline inner => inner.spreads_eq_nil
  | .spread _ inner => inner.spreads_eq_nil

theorem ExpandsAll.spreads_eq_nil {selections expanded : List Selection} :
    ExpandsAll fragment? selections expanded → spreadsIn expanded = []
  | .nil => rfl
  | .cons first rest => by rw [spreadsIn, first.spreads_eq_nil, rest.spreads_eq_nil, List.append_nil]

end

mutual

theorem SelectionSet.expands_self (fragment? : Text → Option Fragment) :
    (set : SelectionSet) → set.spreads = [] → set.Expands fragment? set
  | ⟨selections, _⟩ => fun none => .intro (expandsAll_self fragment? selections none)

theorem Selection.expands_self (fragment? : Text → Option Fragment) :
    (s : Selection) → s.spreads = [] → s.Expands fragment? s
  | .field ⟨_, _, _, _, _, none, _⟩ => fun _ => .leaf
  | .field ⟨_, _, _, _, _, some set, _⟩ => fun none => .field (set.expands_self fragment? none)
  | .spread _ => nofun
  | .inline ⟨_, _, set, _⟩ => fun none => .inline (set.expands_self fragment? none)

theorem expandsAll_self (fragment? : Text → Option Fragment) :
    (selections : List Selection) → spreadsIn selections = [] → ExpandsAll fragment? selections selections
  | [] => fun _ => .nil
  | s :: rest => fun none =>
      .cons (s.expands_self fragment? (List.append_eq_nil_iff.1 none).1)
        (expandsAll_self fragment? rest (List.append_eq_nil_iff.1 none).2)

end

theorem SelectionSet.Expands.eq_self_iff {set expanded : SelectionSet} (expands : set.Expands fragment? expanded) :
    expanded = set ↔ set.spreads = [] := by
  constructor
  · rintro rfl
    exact expands.spreads_eq_nil
  · intro none
    exact expands.unique (set.expands_self fragment? none)

section Lookup

variable {fragments : List (Placed Fragment)} {name : Text}

def definition? (fragments : List (Placed Fragment)) (name : Text) : Option Fragment :=
  (Inliner.findFragment? fragments name).map (·.definition)

theorem findFragment?_isSome :
    (Inliner.findFragment? fragments name).isSome ↔ name ∈ fragments.map (·.definition.name.text) := by
  rw [Inliner.findFragment?, List.find?_isSome, List.mem_map]
  simp only [decide_eq_true_eq]

theorem definition?_isSome :
    (definition? fragments name).isSome ↔ name ∈ fragments.map (·.definition.name.text) := by
  rw [definition?, Option.isSome_map, findFragment?_isSome]

theorem exists_of_definition? (defined : (definition? fragments name).isSome) :
    ∃ f, Inliner.findFragment? fragments name = some f := by
  rw [definition?, Option.isSome_map] at defined
  exact Option.isSome_iff_exists.1 defined

theorem definition?_eq_some {f : Placed Fragment} (found : Inliner.findFragment? fragments name = some f) :
    definition? fragments name = some f.definition ∧ f.definition.name.text = name := by
  rw [definition?, found]
  exact ⟨rfl, by simpa using List.find?_some found⟩

end Lookup

def Spreads (fragment? : Text → Option Fragment) (outer inner : Text) : Prop :=
  ∃ f, fragment? outer = some f ∧ ∃ s ∈ f.selectionSet.spreads, s.name.text = inner

/-- The names that are spread in the set or in a fragment reached from it. -/
inductive Reaches (fragment? : Text → Option Fragment) (set : SelectionSet) : Text → Prop
  | direct {s : FragmentSpread} : s ∈ set.spreads → Reaches fragment? set s.name.text
  | step {outer inner : Text} : Reaches fragment? set outer → Spreads fragment? outer inner →
      Reaches fragment? set inner

def HasExpansion (fragment? : Text → Option Fragment) (name : Text) : Prop :=
  ∃ f expanded, fragment? name = some f ∧ f.selectionSet.Expands fragment? expanded

def IsGrounded (fragment? : Text → Option Fragment) (name : Text) : Prop :=
  Acc (fun inner outer => Spreads fragment? outer inner) name

mutual

theorem SelectionSet.Expands.grounded {set expanded : SelectionSet} : set.Expands fragment? expanded →
    ∀ s ∈ set.spreads, HasExpansion fragment? s.name.text ∧ IsGrounded fragment? s.name.text
  | .intro all => all.grounded

theorem Selection.Expands.grounded {selection expanded : Selection} : selection.Expands fragment? expanded →
    ∀ s ∈ selection.spreads, HasExpansion fragment? s.name.text ∧ IsGrounded fragment? s.name.text
  | .leaf => nofun
  | .field inner => inner.grounded
  | .inline inner => inner.grounded
  | @Selection.Expands.spread _ s f expanded found inner => by
      intro s' member
      obtain rfl := List.mem_singleton.1 member
      refine ⟨⟨f, expanded, found, inner⟩, .intro _ ?_⟩
      rintro _ ⟨f', found', t, inside, rfl⟩
      obtain rfl := Option.some.inj (found.symm.trans found')
      exact (inner.grounded t inside).2

theorem ExpandsAll.grounded {selections expanded : List Selection} : ExpandsAll fragment? selections expanded →
    ∀ s ∈ spreadsIn selections, HasExpansion fragment? s.name.text ∧ IsGrounded fragment? s.name.text
  | .nil => nofun
  | .cons first rest => List.forall_mem_append.2 ⟨first.grounded, rest.grounded⟩

end

theorem SelectionSet.Expands.reached {set expanded : SelectionSet} (expands : set.Expands fragment? expanded)
    {name : Text} (reaches : Reaches fragment? set name) :
    HasExpansion fragment? name ∧ IsGrounded fragment? name := by
  induction reaches with
  | direct member => exact expands.grounded _ member
  | step _ spreads ih =>
      obtain ⟨⟨f, expanded, found, inner⟩, grounded⟩ := ih
      obtain ⟨f', found', s, member, rfl⟩ := spreads
      obtain rfl := Option.some.inj (found.symm.trans found')
      exact inner.grounded s member

theorem IsGrounded.not_cyclic {name : Text} (grounded : IsGrounded fragment? name) :
    ¬ Relation.TransGen (Spreads fragment?) name name := by
  intro cycle
  have accessible := grounded.transGen
  replace cycle := Relation.transGen_swap.2 cycle
  clear grounded
  induction accessible with
  | intro name _ ih => exact ih name cycle cycle

end QueryPlanner
