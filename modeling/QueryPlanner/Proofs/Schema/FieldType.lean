import QueryPlanner.Proofs.Document.Modifier
import QueryPlanner.Schema.FieldType

namespace QueryPlanner

inductive Wrapper where
  | list | nonNull
  deriving DecidableEq

def TypeRef.wrappers : TypeRef → List Wrapper
  | named _ => []
  | list item _ => .list :: item.wrappers
  | nonNull type _ => .nonNull :: type.wrappers

mutual

def NullableType.wrappers : NullableType → List Wrapper
  | .named _ => []
  | .list item => .list :: item.wrappers

def FieldType.wrappers : FieldType → List Wrapper
  | .nullable type => type.wrappers
  | .nonNull type => .nonNull :: type.wrappers

end

theorem NullableType.isNonNull_toTypeRef (type : NullableType) : type.toTypeRef.isNonNull = false := by
  cases type <;> rfl

mutual

theorem NullableType.isProper_toTypeRef : (type : NullableType) → type.toTypeRef.IsProper
  | .named _ => trivial
  | .list item => item.isProper_toTypeRef

theorem FieldType.isProper_toTypeRef : (type : FieldType) → type.toTypeRef.IsProper
  | .nullable type => type.isProper_toTypeRef
  | .nonNull type => ⟨type.isNonNull_toTypeRef, type.isProper_toTypeRef⟩

end

mutual

theorem NullableType.namedType_toTypeRef : (type : NullableType) → type.toTypeRef.namedType = type.namedType
  | .named _ => rfl
  | .list item => item.namedType_toTypeRef

theorem FieldType.namedType_toTypeRef : (type : FieldType) → type.toTypeRef.namedType = type.namedType
  | .nullable type => type.namedType_toTypeRef
  | .nonNull type => type.namedType_toTypeRef

end

mutual

theorem NullableType.wrappers_toTypeRef : (type : NullableType) → type.toTypeRef.wrappers = type.wrappers
  | .named _ => rfl
  | .list item => congrArg (Wrapper.list :: ·) item.wrappers_toTypeRef

theorem FieldType.wrappers_toTypeRef : (type : FieldType) → type.toTypeRef.wrappers = type.wrappers
  | .nullable type => type.wrappers_toTypeRef
  | .nonNull type => congrArg (Wrapper.nonNull :: ·) type.wrappers_toTypeRef

end

theorem FieldType.isList_toTypeRef (type : FieldType) : type.toTypeRef.isList = type.nullableType.isList := by
  cases type with
  | nullable type => cases type <;> rfl
  | nonNull type => cases type <;> rfl

end QueryPlanner
