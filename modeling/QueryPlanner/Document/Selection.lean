import QueryPlanner.Document.TypeRef

namespace QueryPlanner

structure FragmentSpread where
  name : Name
  directives : List Directive
  loc : Option Location := none

mutual

structure Field where
  responseName : Option Name
  name : Name
  arguments : List Argument
  modifier : Option Modifier
  directives : List Directive
  selectionSet : Option SelectionSet
  loc : Option Location

structure InlineFragment where
  typeCondition : Option NamedType
  directives : List Directive
  selectionSet : SelectionSet
  loc : Option Location

inductive Selection where
  | field (field : Field)
  | spread (spread : FragmentSpread)
  | inline (fragment : InlineFragment)

structure SelectionSet where
  selections : List Selection
  loc : Option Location

end

def Field.responseKey (f : Field) : Text := (f.responseName.getD f.name).text

def Selection.loc : Selection → Option Location
  | field f => f.loc
  | spread s => s.loc
  | inline f => f.loc

def Selection.directives : Selection → List Directive
  | field f => f.directives
  | spread s => s.directives
  | inline f => f.directives

mutual

def SelectionSet.height : SelectionSet → Nat
  | ⟨selections, _⟩ => selectionsHeight selections + 1

def Selection.height : Selection → Nat
  | .field ⟨_, _, _, _, _, none, _⟩ => 0
  | .field ⟨_, _, _, _, _, some set, _⟩ => set.height
  | .spread _ => 0
  | .inline ⟨_, _, set, _⟩ => set.height

def selectionsHeight : List Selection → Nat
  | [] => 0
  | s :: rest => max s.height (selectionsHeight rest)

end

end QueryPlanner
