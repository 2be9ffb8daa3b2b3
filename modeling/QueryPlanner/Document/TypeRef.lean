import QueryPlanner.Document.Value

namespace QueryPlanner

structure NamedType where
  name : Name
  loc : Option Location := none

inductive TypeRef where
  | named (type : NamedType)
  | list (item : TypeRef) (loc : Option Location)
  | nonNull (type : TypeRef) (loc : Option Location)

/--
Brackets step into one list level of a type; a mark of requirement or optionality speaks of the level that it
stands at, after the element has spoken of the levels inside.
-/
inductive Modifier where
  | list (element : Option Modifier) (loc : Option Location)
  | required (element : Option Modifier) (loc : Option Location)
  | optional (element : Option Modifier) (loc : Option Location)

namespace TypeRef

def ofName (name : Text) : TypeRef := named { name := { text := name } }

def loc : TypeRef → Option Location
  | named type => type.loc
  | list _ loc | nonNull _ loc => loc

def namedType : TypeRef → Text
  | named type => type.name.text
  | list item _ => item.namedType
  | nonNull type _ => type.namedType

def nullable : TypeRef → TypeRef
  | nonNull type _ => type
  | type => type

def isNonNull : TypeRef → Bool
  | nonNull .. => true
  | _ => false

def isList (type : TypeRef) : Bool :=
  match type.nullable with
  | list .. => true
  | _ => false

end TypeRef

namespace Modifier

def loc : Modifier → Option Location
  | list _ loc | required _ loc | optional _ loc => loc

mutual

/-- The type with the modifier applied, or nothing if the modifier has more brackets than the type has lists. -/
def apply : Modifier → TypeRef → Option TypeRef
  | list element _, type =>
    match type.nullable with
    | .list item _ => do
      let modified := TypeRef.list (← applyElement element item) none
      return if type.isNonNull then .nonNull modified none else modified
    | _ => none
  | required element _, type => do
    return .nonNull (← applyElement element type.nullable).nullable none
  | optional element _, type => return (← applyElement element type).nullable

def applyElement : Option Modifier → TypeRef → Option TypeRef
  | none, type => some type
  | some modifier, type => modifier.apply type

end

end Modifier

def TypeRef.modifiedBy (type : TypeRef) (modifier : Option Modifier) : Option TypeRef :=
  Modifier.applyElement modifier type

end QueryPlanner
