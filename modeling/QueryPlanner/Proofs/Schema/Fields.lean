import QueryPlanner.Proofs.Lookup
import QueryPlanner.Proofs.Token.Reading
import QueryPlanner.Schema.Basic

namespace QueryPlanner

namespace Introspection

def IsRootField (field : Text) : Prop := field = "__schema" ∨ field = "__type"

instance : DecidablePred IsRootField := fun field => inferInstanceAs (Decidable (field = _ ∨ field = _))

theorem isRootField_iff {field : Text} : IsRootField field ↔ ∃ f ∈ rootFields, f.name = field := by
  simp [IsRootField, rootFields, resolved, eq_comm]

theorem distinct_rootFields : (rootFields.map (·.name)).Nodup := by decide

theorem distinct_fields : ∀ type ∈ types, (type.fields.map (·.name)).Nodup := by decide +kernel

theorem named_types : ∀ type ∈ types, IsNameText type.name ∧ ∀ field ∈ type.fields, IsNameText field.name := by
  decide +kernel

end Introspection

namespace Schema

/-- What holds of every schema that can be built. -/
structure IsWellFormed (s : Schema) : Prop where
  distinct : (s.allTypes.map (·.name)).Nodup
  distinct_fields : ∀ type ∈ s.types, (type.fields.map (·.name)).Nodup
  named : ∀ type ∈ s.types, IsNameText type.name ∧ ∀ field ∈ type.fields, IsNameText field.name
  roots : ∀ kind root, s.rootType? kind = some root → ∃ type ∈ s.allTypes, type.name = root ∧ type.kind = .object

def HasField (s : Schema) (typeName field : Text) : Prop :=
  ∃ type ∈ s.allTypes, type.name = typeName ∧ (type.kind = .object ∨ type.kind = .interface) ∧
    ∃ f ∈ type.fields, f.name = field

/-- The schema is described on the type: on the root of all queries, or without one on all types that are unknown. -/
def IsDescribedOn (s : Schema) (typeName : Text) : Prop :=
  s.query = some typeName ∨ (s.query = none ∧ s.typeName? typeName = none)

inductive Declares (s : Schema) (typeName : Text) (field : FieldDefinition) : Prop
  | described : s.IsDescribedOn typeName → field ∈ Introspection.rootFields → s.Declares typeName field
  | own {type : TypeDefinition} : type ∈ s.allTypes → type.name = typeName → type.kind = .object ∨ type.kind = .interface →
      field ∈ type.fields → (s.IsDescribedOn typeName → ¬ Introspection.IsRootField field.name) →
      s.Declares typeName field

variable {s : Schema} {typeName field : Text}

theorem IsWellFormed.named_all (wf : s.IsWellFormed) :
    ∀ type ∈ s.allTypes, IsNameText type.name ∧ ∀ field ∈ type.fields, IsNameText field.name :=
  List.forall_mem_append.2 ⟨wf.named, Introspection.named_types⟩

theorem IsWellFormed.distinct_fields_all (wf : s.IsWellFormed) :
    ∀ type ∈ s.allTypes, (type.fields.map (·.name)).Nodup :=
  List.forall_mem_append.2 ⟨wf.distinct_fields, Introspection.distinct_fields⟩

theorem hasFields_iff {type : TypeDefinition} : hasFields type = true ↔ type.kind = .object ∨ type.kind = .interface := by
  simp [hasFields]

theorem IsWellFormed.ownField?_eq_some_iff (wf : s.IsWellFormed) {f : FieldDefinition} :
    s.ownField? typeName field = some f ↔ ∃ type ∈ s.allTypes, type.name = typeName ∧
      (type.kind = .object ∨ type.kind = .interface) ∧ f ∈ type.fields ∧ f.name = field := by
  refine Option.bind_eq_some_iff.trans ?_
  constructor
  · rintro ⟨type, known, found⟩
    obtain ⟨member, named⟩ := (find?_eq_some_iff_of_nodup wf.distinct).1 known
    split_ifs at found with fields
    obtain ⟨inside, own⟩ := (find?_eq_some_iff_of_nodup (wf.distinct_fields_all type member)).1 found
    exact ⟨type, member, named, hasFields_iff.1 fields, inside, own⟩
  · rintro ⟨type, member, named, fields, inside, own⟩
    refine ⟨type, (find?_eq_some_iff_of_nodup wf.distinct).2 ⟨member, named⟩, ?_⟩
    rw [if_pos (hasFields_iff.2 fields)]
    exact (find?_eq_some_iff_of_nodup (wf.distinct_fields_all type member)).2 ⟨inside, own⟩

theorem typeName?_eq_some {name : Text} (known : s.typeName? typeName = some name) : name = typeName := by
  unfold typeName? at known
  split_ifs at known
  exact (Option.some.inj known).symm

theorem IsWellFormed.typeName?_root (wf : s.IsWellFormed) {kind : OperationType} {root : Text}
    (isRoot : s.rootType? kind = some root) : s.typeName? root = some root := by
  obtain ⟨type, member, named, -⟩ := wf.roots kind root isRoot
  have known : s.type? root = some type := (find?_eq_some_iff_of_nodup wf.distinct).2 ⟨member, named⟩
  rw [typeName?, known]
  rfl

theorem IsWellFormed.isDescribedOn_iff (wf : s.IsWellFormed) : s.IsDescribedOn typeName ↔ s.typeName? typeName = s.query := by
  constructor
  · rintro (root | ⟨absent, unknown⟩)
    · have isRoot : s.rootType? .query = some typeName := root
      rw [root, wf.typeName?_root isRoot]
    · rw [absent, unknown]
  · intro same
    cases root : s.query with
    | none => exact .inr ⟨root, same.trans root⟩
    | some query =>
        refine .inl (root.trans ?_)
        rw [typeName?_eq_some (same.trans root)]

theorem IsWellFormed.field?_eq_some_iff (wf : s.IsWellFormed) {f : FieldDefinition} :
    s.field? typeName field = some f ↔ s.Declares typeName f ∧ f.name = field := by
  unfold field?
  rw [Option.orElse_eq_orElse, Option.orElse_eq_or, Option.or_eq_some_iff, wf.ownField?_eq_some_iff]
  by_cases described : s.IsDescribedOn typeName
  · rw [if_pos (wf.isDescribedOn_iff.1 described), find?_eq_some_iff_of_nodup Introspection.distinct_rootFields]
    constructor
    · rintro (⟨member, named⟩ | ⟨absent, type, member, typeNamed, fields, inside, named⟩)
      · exact ⟨.described described member, named⟩
      · refine ⟨.own member typeNamed fields inside fun _ isRootField => ?_, named⟩
        obtain ⟨g, known, same⟩ := Introspection.isRootField_iff.1 isRootField
        simpa [same, named] using List.find?_eq_none.1 absent g known
    · rintro ⟨⟨_, member⟩ | ⟨member, typeNamed, fields, inside, apart⟩, named⟩
      · exact .inl ⟨member, named⟩
      · refine .inr ⟨List.find?_eq_none.2 fun g known same => ?_, _, member, typeNamed, fields, inside, named⟩
        have same : g.name = field := by simpa using same
        exact apart described (Introspection.isRootField_iff.2 ⟨g, known, same.trans named.symm⟩)
  · rw [if_neg (mt wf.isDescribedOn_iff.2 described)]
    constructor
    · rintro (nothing | ⟨-, type, member, typeNamed, fields, inside, named⟩)
      · contradiction
      · exact ⟨.own member typeNamed fields inside fun described' => absurd described' described, named⟩
    · rintro ⟨⟨described', _⟩ | ⟨member, typeNamed, fields, inside, _⟩, named⟩
      · contradiction
      · exact .inr ⟨rfl, _, member, typeNamed, fields, inside, named⟩

theorem IsWellFormed.isSome_field?_iff (wf : s.IsWellFormed) : (s.field? typeName field).isSome = true ↔
    s.HasField typeName field ∨ (s.IsDescribedOn typeName ∧ Introspection.IsRootField field) := by
  rw [Option.isSome_iff_exists]
  constructor
  · rintro ⟨f, found⟩
    obtain ⟨⟨described, member⟩ | ⟨member, typeNamed, fields, inside, _⟩, named⟩ := wf.field?_eq_some_iff.1 found
    · exact .inr ⟨described, Introspection.isRootField_iff.2 ⟨f, member, named⟩⟩
    · exact .inl ⟨_, member, typeNamed, fields, f, inside, named⟩
  · intro known
    by_cases described : s.IsDescribedOn typeName ∧ Introspection.IsRootField field
    · obtain ⟨f, member, named⟩ := Introspection.isRootField_iff.1 described.2
      exact ⟨f, wf.field?_eq_some_iff.2 ⟨.described described.1 member, named⟩⟩
    · obtain ⟨type, member, typeNamed, fields, f, inside, named⟩ := known.resolve_right described
      refine ⟨f, wf.field?_eq_some_iff.2 ⟨.own member typeNamed fields inside fun on isRootField => ?_, named⟩⟩
      exact described ⟨on, named ▸ isRootField⟩

end Schema

end QueryPlanner
