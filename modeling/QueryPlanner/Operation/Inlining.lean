import QueryPlanner.Diagnostic
import QueryPlanner.Document.Definition

/-!
Replacing fragment spreads by inline fragments. A fragment is worked on once and then reused. Where a selection set
holds no spread there is nothing to replace, and `none` says so.
-/

namespace QueryPlanner

structure Placed (α : Type) where
  index : Nat
  definition : α

/-- The fragments spread so far, in the order of their first spread, and those whose spreads are all replaced. -/
structure Inlining where
  used : List (Placed Fragment) := []
  inlined : List (Text × SelectionSet) := []

abbrev Inliner := StateT Inlining (Except Diagnostic)

mutual

def SelectionSet.inlineWith (spread : FragmentSpread → Inliner InlineFragment) :
    SelectionSet → Inliner (Option SelectionSet)
  | ⟨selections, loc⟩ => do return (← inlineSelections spread selections).map (⟨·, loc⟩)

def Selection.inlineWith (spread : FragmentSpread → Inliner InlineFragment) : Selection → Inliner (Option Selection)
  | .field ⟨_, _, _, _, _, none, _⟩ => return none
  | .field ⟨responseName, name, arguments, modifier, directives, some set, loc⟩ => do
    return (← set.inlineWith spread).map fun set =>
      .field ⟨responseName, name, arguments, modifier, directives, some set, loc⟩
  | .inline ⟨typeCondition, directives, set, loc⟩ => do
    return (← set.inlineWith spread).map fun set => .inline ⟨typeCondition, directives, set, loc⟩
  | .spread s => do return some (.inline (← spread s))

def inlineSelections (spread : FragmentSpread → Inliner InlineFragment) :
    List Selection → Inliner (Option (List Selection))
  | [] => return none
  | s :: rest => do
    let first ← s.inlineWith spread
    let others ← inlineSelections spread rest
    return match first, others with
      | none, none => none
      | _, _ => some (first.getD s :: others.getD rest)

end

namespace Inliner

def findFragment? (fragments : List (Placed Fragment)) (name : Text) : Option (Placed Fragment) :=
  fragments.find? (·.definition.name.text = name)

def recordUse (fragment : Placed Fragment) : Inliner Unit :=
  modify fun s => { s with used := s.used ++ [fragment] }

def recordInlined (name : Text) (set : SelectionSet) : Inliner Unit :=
  modify fun s => { s with inlined := (name, set) :: s.inlined }

def cycleOf (path : List Text) (name : Text) : List Text := path.dropWhile (· ≠ name) ++ [name]

/-- The fragment's selection set with its spreads replaced, made at the first spread of the fragment. -/
def inlineFragment (replace : FragmentSpread → Inliner InlineFragment) (fragment : Placed Fragment) :
    Inliner SelectionSet := do
  let name := fragment.definition.name.text
  match (← get).inlined.lookup name with
  | some set => return set
  | none => do
    recordUse fragment
    let own := fragment.definition.selectionSet
    let set := (← own.inlineWith replace).getD own
    recordInlined name set
    return set

/--
The inline fragment that stands for a spread inside the fragments on the path. These are distinct fragments of the
document, so one step more than there are fragments is enough, and the last one is never taken.
-/
def inlineSpread (fragments : List (Placed Fragment)) : Nat → List Text → FragmentSpread → Inliner InlineFragment
  | 0, path, spread => throw ⟨.cyclicFragment (cycleOf path spread.name.text), .ofLocation? spread.loc⟩
  | fuel + 1, path, spread => do
    let name := spread.name.text
    if name ∈ path then throw ⟨.cyclicFragment (cycleOf path name), .ofLocation? spread.loc⟩
    else match findFragment? fragments name with
    | none => throw ⟨.fragmentNotFound name, .ofLocation? spread.loc⟩
    | some fragment =>
      let set ← inlineFragment (inlineSpread fragments fuel (path ++ [name])) fragment
      return ⟨some fragment.definition.typeCondition, spread.directives, set, spread.loc⟩

def inlineAll (fragments : List (Placed Fragment)) (set : SelectionSet) :
    Except Diagnostic (Option SelectionSet × Inlining) :=
  StateT.run (set.inlineWith (inlineSpread fragments (fragments.length + 1) [])) {}

end Inliner

end QueryPlanner
