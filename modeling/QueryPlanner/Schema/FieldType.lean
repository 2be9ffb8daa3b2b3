import QueryPlanner.Document.TypeRef

namespace QueryPlanner

mutual

inductive NullableType where
  | named (name : Text)
  | list (item : FieldType)

/-- A declared type; a non-null mark never stands on another one. -/
inductive FieldType where
  | nullable (type : NullableType)
  | nonNull (type : NullableType)

end

namespace NullableType

def isList : NullableType → Bool
  | list _ => true
  | _ => false

end NullableType

namespace FieldType

def nullableType : FieldType → NullableType
  | nullable type | nonNull type => type

/-- The type that a reference names; of several marks on each other, one is kept. -/
def ofTypeRef : TypeRef → FieldType
  | .named type => nullable (.named type.name.text)
  | .list item _ => nullable (.list (ofTypeRef item))
  | .nonNull type _ => nonNull (ofTypeRef type).nullableType

end FieldType

instance : Coe TypeRef FieldType := ⟨FieldType.ofTypeRef⟩

mutual

def NullableType.namedType : NullableType → Text
  | .named name => name
  | .list item => item.namedType

def FieldType.namedType : FieldType → Text
  | .nullable type | .nonNull type => type.namedType

end

mutual

def NullableType.toTypeRef : NullableType → TypeRef
  | .named name => .ofName name
  | .list item => .list item.toTypeRef none

def FieldType.toTypeRef : FieldType → TypeRef
  | .nullable type => type.toTypeRef
  | .nonNull type => .nonNull type.toTypeRef none

end

end QueryPlanner
