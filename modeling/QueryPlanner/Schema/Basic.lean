import QueryPlanner.Schema.FieldType
import QueryPlanner.Schema.Metadata
import QueryPlanner.Tree

namespace QueryPlanner

inductive TypeKind where
  | object | interface | input | union | enum | scalar
  deriving DecidableEq, Repr

structure FieldDefinition where
  name : Text
  type : FieldType
  arguments : List FieldType := []
  extensions : List (Text × Tree) := []
  hasResolver : Bool := false

structure TypeDefinition where
  kind : TypeKind
  name : Text
  fields : List FieldDefinition := []

structure Schema where
  query : Option Text := none
  mutation : Option Text := none
  subscription : Option Text := none
  types : List TypeDefinition
  directiveArguments : List FieldType := []

namespace Introspection

def named (name : String) : NullableType := .named name

def required (type : NullableType) : FieldType := .nonNull type

def listOf (item : FieldType) : NullableType := .list item

instance : Coe NullableType FieldType := ⟨.nullable⟩

def resolved (name : String) (type : FieldType) : FieldDefinition := { name, type, hasResolver := true }

def text : NullableType := named "String"

def boolean : NullableType := named "Boolean"

def type : NullableType := named "__Type"

def inputValues : FieldType := required (listOf (required (named "__InputValue")))

def deprecation : List FieldDefinition :=
  [resolved "isDeprecated" (required boolean), resolved "deprecationReason" text]

def object (name : String) (fields : List FieldDefinition) : TypeDefinition := { kind := .object, name, fields }

def types : List TypeDefinition := [
  object "__Schema" [
    resolved "description" text,
    resolved "types" (required (listOf (required type))),
    resolved "queryType" (required type),
    resolved "mutationType" type,
    resolved "subscriptionType" type,
    resolved "directives" (required (listOf (required (named "__Directive"))))],
  object "__Directive" ([
    resolved "name" (required text),
    resolved "description" text,
    resolved "isRepeatable" (required boolean),
    resolved "locations" (required (listOf (required (named "__DirectiveLocation")))),
    resolved "args" inputValues] ++ deprecation),
  object "__Type" [
    resolved "kind" (required (named "__TypeKind")),
    resolved "name" text,
    resolved "description" text,
    resolved "specifiedByURL" text,
    resolved "fields" (listOf (required (named "__Field"))),
    resolved "interfaces" (listOf (required type)),
    resolved "possibleTypes" (listOf (required type)),
    resolved "enumValues" (listOf (required (named "__EnumValue"))),
    resolved "inputFields" (listOf (required (named "__InputValue"))),
    resolved "ofType" type,
    resolved "isOneOf" boolean],
  object "__Field" ([
    resolved "name" (required text),
    resolved "description" text,
    resolved "args" inputValues,
    resolved "type" (required type)] ++ deprecation),
  object "__InputValue" ([
    resolved "name" (required text),
    resolved "description" text,
    resolved "type" (required type),
    resolved "defaultValue" text] ++ deprecation),
  object "__EnumValue" ([
    resolved "name" (required text),
    resolved "description" text] ++ deprecation),
  { kind := .enum, name := "__TypeKind" },
  { kind := .enum, name := "__DirectiveLocation" }]

def rootFields : List FieldDefinition := [resolved "__schema" (required (named "__Schema")), resolved "__type" type]

end Introspection

namespace Schema

/-- Scalars that describing schemas and the directives in every schema takes. -/
def standardScalars : List Text := ["String", "Boolean"]

/-- Scalars that a schema has only if a field, or an argument of a field or directive, is of them. -/
def optionalScalars : List Text := ["Int", "Float", "ID"]

def allTypes (s : Schema) : List TypeDefinition := s.types ++ Introspection.types

def type? (s : Schema) (name : Text) : Option TypeDefinition := s.allTypes.find? (·.name = name)

def referenced (s : Schema) : List FieldType :=
  (s.types.flatMap (·.fields)).flatMap (fun field => field.type :: field.arguments) ++ s.directiveArguments

def mentions (s : Schema) (name : Text) : Bool := s.referenced.any (·.namedType = name)

def typeName? (s : Schema) (name : Text) : Option Text :=
  if (s.type? name).isSome || standardScalars.contains name || (optionalScalars.contains name && s.mentions name) then
    some name
  else none

def hasFields (type : TypeDefinition) : Bool := type.kind = .object || type.kind = .interface

def ownField? (s : Schema) (typeName field : Text) : Option FieldDefinition := do
  let type ← s.type? typeName
  if hasFields type then type.fields.find? (·.name = field) else none

/--
The description of the schema is asked for on the root of all queries. A schema without that root has it on every
type that it does not know.
-/
def field? (s : Schema) (typeName field : Text) : Option FieldDefinition :=
  let described := if s.typeName? typeName = s.query then Introspection.rootFields.find? (·.name = field) else none
  described <|> s.ownField? typeName field

def note? (field : FieldDefinition) (key : Text) : Option Tree := field.extensions.lookup key

/-- The fields of the mutation root are serial, and those said to be so. -/
def isSerial (s : Schema) (typeName : Text) (field : FieldDefinition) : Bool :=
  (s.mutation.isSome && s.typeName? typeName = s.mutation) ||
    (note? field "serial").any fun note => note matches .boolean true

def isDeferrable (field : FieldDefinition) : Bool :=
  !(note? field "deferrable").any fun note => note matches .boolean false

def metadata (s : Schema) (typeName : Text) (field : FieldDefinition) : FieldMetadata where
  resultType := field.type.toTypeRef
  isSerial := s.isSerial typeName field
  isDeferrable := isDeferrable field
  isStreamable := field.type.nullableType.isList
  isPure := !s.isSerial typeName field && !field.hasResolver

def rootType? (s : Schema) : OperationType → Option Text
  | .query => s.query
  | .mutation => s.mutation
  | .subscription => s.subscription

def provider (s : Schema) : MetadataProvider where
  field? typeName field := (s.field? typeName field).map (s.metadata typeName)
  rootType? := s.rootType?

end Schema

end QueryPlanner
