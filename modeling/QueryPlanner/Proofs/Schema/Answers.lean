import QueryPlanner.Proofs.Plan.FirstFault
import QueryPlanner.Proofs.Schema.Cache
import QueryPlanner.Proofs.Schema.FieldType
import QueryPlanner.Proofs.Schema.Fields

namespace QueryPlanner

namespace Schema
open MetadataProvider (firstAsked)

def answerAfter (s : Schema) (asked : List (Text × Text)) (typeName field : Text) : Option FieldMetadata :=
  (MetadataCache.ask s.provider typeName field (MetadataCache.askAll s.provider [] asked).2).1

/-- A type has the field, or it is one by which the schema is described on the root of all queries. -/
def IsReal (s : Schema) (typeName field : Text) : Prop :=
  s.HasField typeName field ∨ (s.query = some typeName ∧ Introspection.IsRootField field)

variable {s : Schema} {typeName field : Text}

theorem answerAfter_eq (s : Schema) (asked : List (Text × Text)) (typeName field : Text) :
    s.answerAfter asked typeName field =
      s.provider.field? (firstAsked asked typeName field).1 (firstAsked asked typeName field).2 :=
  (MetadataCache.remembers_nil.askAll asked).answer

theorem isNameText_of_isRootField (isRootField : Introspection.IsRootField field) : IsNameText field := by
  obtain rfl | rfl := isRootField <;> decide

theorem IsWellFormed.isNameText_root (wf : s.IsWellFormed) {kind : OperationType} {root : Text}
    (isRoot : s.rootType? kind = some root) : IsNameText root := by
  obtain ⟨type, member, rfl, -⟩ := wf.roots kind root isRoot
  exact (wf.named_all type member).1

theorem IsWellFormed.names_of_isReal (wf : s.IsWellFormed) (real : s.IsReal typeName field) :
    IsNameText typeName ∧ IsNameText field := by
  obtain ⟨type, member, rfl, -, f, inside, rfl⟩ | ⟨root, isRootField⟩ := real
  · exact ⟨(wf.named_all type member).1, (wf.named_all type member).2 f inside⟩
  · have isRoot : s.rootType? .query = some typeName := root
    exact ⟨wf.isNameText_root isRoot, isNameText_of_isRootField isRootField⟩

theorem IsWellFormed.isReal_firstAsked_iff (wf : s.IsWellFormed) (asked : List (Text × Text)) :
    s.IsReal (firstAsked asked typeName field).1 (firstAsked asked typeName field).2 ↔ s.IsReal typeName field := by
  have same := MetadataProvider.key_firstAsked asked typeName field
  constructor
  · intro real
    obtain ⟨typeNamed, named⟩ := wf.names_of_isReal real
    obtain ⟨types, fields⟩ := MetadataProvider.key_inj typeNamed.dot_not_mem named.dot_not_mem same
    rwa [types, fields] at real
  · intro real
    obtain ⟨typeNamed, named⟩ := wf.names_of_isReal real
    rwa [MetadataProvider.firstAsked_of_names asked typeNamed named]

theorem IsWellFormed.isSome_answer_iff (wf : s.IsWellFormed) : (s.provider.field? typeName field).isSome = true ↔
    s.IsReal typeName field ∨
      (s.query = none ∧ s.typeName? typeName = none ∧ Introspection.IsRootField field) := by
  change ((s.field? typeName field).map _).isSome = true ↔ _
  rw [Option.isSome_map, wf.isSome_field?_iff, IsDescribedOn, IsReal]
  tauto

/--
Metadata is answered for real fields. Where no type is the root of all queries, it is also answered if the first
question under the text was one for the description of the schema on a type that the schema does not know.
-/
theorem metadata_iff_real (s : Schema) (wf : s.IsWellFormed) (asked : List (Text × Text)) (typeName field : Text) :
    (s.answerAfter asked typeName field).isSome = true ↔
      s.IsReal typeName field ∨ (s.query = none ∧ s.typeName? (firstAsked asked typeName field).1 = none ∧
        Introspection.IsRootField (firstAsked asked typeName field).2) := by
  rw [answerAfter_eq, wf.isSome_answer_iff, wf.isReal_firstAsked_iff]

namespace MutationsOnly

def schema : Schema where
  mutation := some "Changes"
  types := [{ kind := .object, name := "Changes", fields := [{ name := "go", type := TypeRef.ofName "Int" }] }]

theorem isWellFormed : schema.IsWellFormed where
  distinct := by decide +kernel
  distinct_fields := by decide +kernel
  named := by decide +kernel
  roots := by
    rintro (_ | _ | _) root isRoot
    · contradiction
    · obtain rfl : "Changes" = root := Option.some.inj isRoot
      decide +kernel
    · contradiction

theorem metadata_unless_real : schema.IsWellFormed ∧ ((schema.answerAfter [("Changes", "go")] "Nope" "__schema").isSome = true ↔
    schema.IsReal "Nope" "__schema" ∨ (schema.query = none ∧ schema.typeName? "Nope" = none ∧
      Introspection.IsRootField "__schema")) :=
  ⟨isWellFormed, metadata_iff_real schema isWellFormed [("Changes", "go")] "Nope" "__schema"⟩

theorem answered_unreal : ¬ ∀ s : Schema, s.IsWellFormed → ∀ typeName field,
    (s.answerAfter [] typeName field).isSome = true ↔ s.IsReal typeName field := by
  intro claim
  have real := (claim schema isWellFormed "Nope" "__schema").1 (by decide +kernel)
  obtain ⟨type, member, named, -⟩ | ⟨root, -⟩ := real
  · have unknown : ∀ type ∈ schema.allTypes, type.name ≠ "Nope" := by decide +kernel
    exact unknown type member named
  · contradiction

end MutationsOnly

structure Fits (s : Schema) (typeName field : Text) (m : FieldMetadata) : Prop where
  not_pure_and_serial : ¬ (m.isPure = true ∧ m.isSerial = true)
  serial : s.mutation = some typeName → m.isSerial = true
  declared : ∃ f, s.Declares typeName f ∧ f.name = field ∧ m.resultType.namedType = f.type.namedType ∧
    m.resultType.wrappers = f.type.wrappers
  proper : m.resultType.IsProper
  streamable : m.isStreamable = true ↔ m.resultType.isList = true

theorem provider_isProper (s : Schema) : s.provider.IsProper := by
  intro typeName field m found
  obtain ⟨f, -, rfl⟩ := Option.map_eq_some_iff.1 found
  exact f.type.isProper_toTypeRef

theorem not_pure_and_serial (s : Schema) (typeName : Text) (f : FieldDefinition) :
    ¬ ((s.metadata typeName f).isPure = true ∧ (s.metadata typeName f).isSerial = true) := by
  rintro ⟨pure, serial⟩
  have parallel : (!s.isSerial typeName f) = true := (Bool.and_eq_true_iff.1 pure).1
  have serial : s.isSerial typeName f = true := serial
  rw [serial] at parallel
  contradiction

theorem IsWellFormed.isSerial_of_mutation (wf : s.IsWellFormed) (root : s.mutation = some typeName)
    (f : FieldDefinition) : s.isSerial typeName f = true := by
  have isRoot : s.rootType? .mutation = some typeName := root
  rw [isSerial, wf.typeName?_root isRoot, root]
  simp

theorem IsWellFormed.fits (wf : s.IsWellFormed) {m : FieldMetadata} (found : s.provider.field? typeName field = some m) :
    s.Fits typeName field m := by
  have proper := s.provider_isProper typeName field m found
  obtain ⟨f, known, rfl⟩ := Option.map_eq_some_iff.1 found
  obtain ⟨declares, named⟩ := wf.field?_eq_some_iff.1 known
  exact {
    not_pure_and_serial := s.not_pure_and_serial typeName f
    serial := fun root => wf.isSerial_of_mutation root f
    declared := ⟨f, declares, named, f.type.namedType_toTypeRef, f.type.wrappers_toTypeRef⟩
    proper := proper
    streamable := by
      change f.type.nullableType.isList = true ↔ f.type.toTypeRef.isList = true
      rw [f.type.isList_toTypeRef] }

/-- Each of several questions in names is answered as if it were the only one, and each answer fits the schema. -/
theorem answers_alone_and_fitting (s : Schema) (wf : s.IsWellFormed) (questions : List (Text × Text))
    (named : ∀ q ∈ questions, IsNameText q.1 ∧ IsNameText q.2) :
    (MetadataCache.askAll s.provider [] questions).1 = questions.map (fun q => s.answerAfter [] q.1 q.2) ∧
      ∀ q ∈ questions, ∀ m, s.answerAfter [] q.1 q.2 = some m → s.Fits q.1 q.2 m := by
  refine ⟨?_, fun q _ m answered => ?_⟩
  · rw [MetadataCache.remembers_nil.answers_of_names named]
    exact List.map_congr_left fun q _ => (answerAfter_eq s [] q.1 q.2).symm
  · rw [answerAfter_eq] at answered
    exact wf.fits answered

namespace Heroes

def schema : Schema where
  query := some "Query"
  mutation := some "Mutation"
  types := [
    { kind := .interface, name := "Hero", fields := [{ name := "name", type := TypeRef.ofName "String" }] },
    { kind := .object, name := "Query", fields :=
      [{ name := "heroes", type := .nonNull (.list (.nonNull (.named "Hero"))), hasResolver := true }] },
    { kind := .object, name := "Mutation", fields := [{ name := "save", type := TypeRef.ofName "String" }] }]

theorem isWellFormed : schema.IsWellFormed where
  distinct := by decide +kernel
  distinct_fields := by decide +kernel
  named := by decide +kernel
  roots := by
    rintro (_ | _ | _) root isRoot
    · obtain rfl : "Query" = root := Option.some.inj isRoot
      decide +kernel
    · obtain rfl : "Mutation" = root := Option.some.inj isRoot
      decide +kernel
    · contradiction

def questions : List (Text × Text) :=
  [("Query", "heroes"), ("Nope", "name"), ("Mutation", "save"), ("Query", "heroes"), ("Nope", "name")]

theorem named : ∀ q ∈ questions, IsNameText q.1 ∧ IsNameText q.2 := by decide +kernel

theorem answered_alone_and_fitting : schema.IsWellFormed ∧ (∀ q ∈ questions, IsNameText q.1 ∧ IsNameText q.2) ∧
    ((MetadataCache.askAll schema.provider [] questions).1.map Option.isSome = [true, false, true, true, false]) ∧
      (MetadataCache.askAll schema.provider [] questions).1 = questions.map (fun q => schema.answerAfter [] q.1 q.2) ∧
        ∀ m, schema.answerAfter [] "Mutation" "save" = some m → m.isSerial = true := by
  obtain ⟨alone, fitting⟩ := answers_alone_and_fitting schema isWellFormed questions named
  refine ⟨isWellFormed, named, by decide +kernel, alone, fun m answered => ?_⟩
  exact (fitting ("Mutation", "save") (by decide +kernel) m answered).serial rfl

end Heroes

end Schema

end QueryPlanner
