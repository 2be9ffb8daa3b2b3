import QueryPlanner.Proofs.Document.Modifier
import QueryPlanner.Proofs.Syntax.Grammar
import QueryPlanner.Proofs.Token.BlockValue
import QueryPlanner.Proofs.Token.Reading

namespace QueryPlanner

def Name.IsWellFormed (n : Name) : Prop := IsNameText n.text

instance : DecidablePred Name.IsWellFormed := fun n => inferInstanceAs (Decidable (IsNameText n.text))

mutual

def Value.IsWellFormed (isConst : Bool) : Value → Prop
  | .var v => isConst = false ∧ v.name.IsWellFormed
  | .int text _ => Number.IsNumber .int text
  | .float text _ => Number.IsNumber .float text
  | .string text block _ => text.WellFormed ∧ (block = true → text = [] ∨ BlockString.IsTidy text)
  | .boolean .. | .null _ => True
  | .enum text _ => IsNameText text ∧ text ∉ Grammar.reservedValues
  | .list values _ => areWellFormedValues isConst values
  | .object fields _ => areWellFormedObjectFields isConst fields

def ObjectField.IsWellFormed (isConst : Bool) : ObjectField → Prop
  | ⟨name, value, _⟩ => name.IsWellFormed ∧ value.IsWellFormed isConst

def areWellFormedValues (isConst : Bool) : List Value → Prop
  | [] => True
  | v :: rest => v.IsWellFormed isConst ∧ areWellFormedValues isConst rest

def areWellFormedObjectFields (isConst : Bool) : List ObjectField → Prop
  | [] => True
  | f :: rest => f.IsWellFormed isConst ∧ areWellFormedObjectFields isConst rest

end

structure Argument.IsWellFormed (isConst : Bool) (a : Argument) : Prop where
  name : a.name.IsWellFormed
  value : a.value.IsWellFormed isConst

structure Directive.IsWellFormed (isConst : Bool) (d : Directive) : Prop where
  name : d.name.IsWellFormed
  arguments : ∀ a ∈ d.arguments, a.IsWellFormed isConst

def TypeRef.IsWellFormed (type : TypeRef) : Prop := IsNameText type.namedType ∧ type.IsProper

def Modifier.isList : Modifier → Bool
  | list .. => true
  | _ => false

mutual

def Modifier.IsWellFormed : Modifier → Prop
  | .list element _ => isWellFormedElement element
  | .required element _ | .optional element _ => (∀ m ∈ element, m.isList = true) ∧ isWellFormedElement element

def isWellFormedElement : Option Modifier → Prop
  | none => True
  | some m => m.IsWellFormed

end

structure FragmentSpread.IsWellFormed (s : FragmentSpread) : Prop where
  name : s.name.IsWellFormed
  notOn : s.name.text ≠ "on"
  directives : ∀ d ∈ s.directives, d.IsWellFormed false

mutual

def Field.IsWellFormed : Field → Prop
  | ⟨responseName, name, arguments, modifier, directives, selectionSet, _⟩ =>
    (∀ n ∈ responseName, n.IsWellFormed) ∧ name.IsWellFormed ∧ (∀ a ∈ arguments, a.IsWellFormed false) ∧
      isWellFormedElement modifier ∧ (∀ d ∈ directives, d.IsWellFormed false) ∧
      match selectionSet with
      | none => True
      | some set => set.IsWellFormed

def InlineFragment.IsWellFormed : InlineFragment → Prop
  | ⟨typeCondition, directives, selectionSet, _⟩ =>
    (∀ type ∈ typeCondition, type.name.IsWellFormed) ∧ (∀ d ∈ directives, d.IsWellFormed false) ∧ selectionSet.IsWellFormed

def Selection.IsWellFormed : Selection → Prop
  | .field f => f.IsWellFormed
  | .spread s => s.IsWellFormed
  | .inline f => f.IsWellFormed

def SelectionSet.IsWellFormed : SelectionSet → Prop
  | ⟨selections, _⟩ => selections ≠ [] ∧ areWellFormedSelections selections

def areWellFormedSelections : List Selection → Prop
  | [] => True
  | s :: rest => s.IsWellFormed ∧ areWellFormedSelections rest

end

theorem Field.isWellFormed_mk (responseName : Option Name) (name : Name) (arguments : List Argument)
    (modifier : Option Modifier) (directives : List Directive) (set : Option SelectionSet) (loc : Option Location) :
    Field.IsWellFormed ⟨responseName, name, arguments, modifier, directives, set, loc⟩ ↔
      ((∀ n ∈ responseName, n.IsWellFormed) ∧ name.IsWellFormed) ∧ (∀ a ∈ arguments, a.IsWellFormed false) ∧
        isWellFormedElement modifier ∧ (∀ d ∈ directives, d.IsWellFormed false) ∧ ∀ s ∈ set, s.IsWellFormed := by
  cases set <;> simp [Field.IsWellFormed, and_assoc]

structure VariableDefinition.IsWellFormed (d : VariableDefinition) : Prop where
  name : d.var.name.IsWellFormed
  type : d.type.IsWellFormed
  defaultValue : ∀ value ∈ d.defaultValue, value.IsWellFormed true
  directives : ∀ directive ∈ d.directives, directive.IsWellFormed true

structure Operation.IsWellFormed (o : Operation) : Prop where
  name : ∀ n ∈ o.name, n.IsWellFormed
  variableDefinitions : ∀ d ∈ o.variableDefinitions, d.IsWellFormed
  directives : ∀ d ∈ o.directives, d.IsWellFormed false
  selectionSet : o.selectionSet.IsWellFormed

structure Fragment.IsWellFormed (f : Fragment) : Prop where
  name : f.name.IsWellFormed
  notOn : f.name.text ≠ "on"
  variableDefinitions : ∀ definitions ∈ f.variableDefinitions, ∀ d ∈ definitions, d.IsWellFormed
  typeCondition : f.typeCondition.name.IsWellFormed
  directives : ∀ d ∈ f.directives, d.IsWellFormed false
  selectionSet : f.selectionSet.IsWellFormed

namespace Definition

def IsWellFormed : Definition → Prop
  | operation o => o.IsWellFormed
  | fragment f => f.IsWellFormed

/-- If the definition is a fragment, whether it carries variable definitions, be they none. -/
def Carries (definitions : Bool) : Definition → Prop
  | operation _ => True
  | fragment f => f.variableDefinitions.isSome = definitions

end Definition

structure Document.IsWellFormed (d : Document) : Prop where
  some : d.definitions ≠ []
  definitions : ∀ definition ∈ d.definitions, definition.IsWellFormed
  alike : ∃ carried, ∀ definition ∈ d.definitions, definition.Carries carried

end QueryPlanner
