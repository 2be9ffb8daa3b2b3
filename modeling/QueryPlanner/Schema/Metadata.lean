import QueryPlanner.Document.Definition

namespace QueryPlanner

structure FieldMetadata where
  resultType : TypeRef
  isSerial : Bool
  isDeferrable : Bool
  isStreamable : Bool
  /-- The field depends on nothing but its parent, so that it need not wait for the fields beside it. -/
  isPure : Bool

namespace FieldMetadata

def typenameField : Text := "__typename"

def typename : FieldMetadata where
  resultType := .nonNull (.ofName "String") none
  isSerial := false
  isDeferrable := true
  isStreamable := false
  isPure := true

end FieldMetadata

structure MetadataProvider where
  field? : Text → Text → Option FieldMetadata
  rootType? : OperationType → Option Text

namespace MetadataProvider

def key (parentType field : Text) : Text := parentType ++ "." ++ field

def ofTables (roots : List (OperationType × Text)) (fields : List (Text × FieldMetadata)) : MetadataProvider where
  field? parentType field := fields.lookup (key parentType field)
  rootType? type := roots.lookup type

end MetadataProvider

end QueryPlanner
