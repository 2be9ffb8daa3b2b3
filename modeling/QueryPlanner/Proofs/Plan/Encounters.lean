import QueryPlanner.Proofs.Document.Modifier
import QueryPlanner.Proofs.Plan.Coherence

/-!
# Walking an operation

The fields that one meets on the way through an operation if one knows of its fields what a provider knows: those of a
selection set in the order in which they are first selected, each followed by what is selected on it, and fragments set
aside behind the part that they were found in. Nothing is met below a field that cannot be planned. `Encounters` says
that these are the fields met; there is one such walk through every operation.
-/

namespace QueryPlanner

namespace FieldGroup

def sets (g : FieldGroup) : List SelectionSet := g.fieldNodes.filterMap (·.selectionSet)

/-- The group holds the fields of its condition and key among the selection sets, and is named after the first. -/
structure IsMerged (scope : Scope) (sets : List SelectionSet) (g : FieldGroup) : Prop where
  fieldNodes : g.fieldNodes = ((scope.planned sets).filter (·.key scope.parentType = g.key)).map (·.field)
  named : g.fieldName = g.first.name.text
  onType : g.parentType = g.typeCondition.getD scope.parentType

def CanBePlanned (provider : MetadataProvider) (g : FieldGroup) : Prop :=
  ∃ metadata, g.metadata? provider = some metadata ∧ elementDepth g.first.modifier ≤ metadata.resultType.depth

end FieldGroup

def Scope.entered (scope : Scope) (g : FieldGroup) (metadata : FieldMetadata) : Scope :=
  ⟨scope.path ++ [g.responseKey], metadata.isDeferrable, metadata.resultType.namedType⟩

/-- A field that is met, and its path in the response. -/
structure Encounter where
  path : ResponsePath
  group : FieldGroup

def Scope.encounter (scope : Scope) (g : FieldGroup) : Encounter := ⟨scope.path ++ [g.responseKey], g⟩

mutual

inductive MeetsSets (provider : MetadataProvider) :
    Scope → List SelectionSet → List Encounter → List DeferredFragment → Prop
  | intro {scope : Scope} {sets : List SelectionSet} {groups : List FieldGroup} {order : List Encounter}
      {aside : List DeferredFragment} : groups.map FieldGroup.key = scope.keys sets →
      (∀ g ∈ groups, g.IsMerged scope sets) → MeetsFields provider scope groups order aside →
      MeetsSets provider scope sets order (scope.setAside sets ++ aside)

inductive MeetsFields (provider : MetadataProvider) :
    Scope → List FieldGroup → List Encounter → List DeferredFragment → Prop
  | nil {scope : Scope} : MeetsFields provider scope [] [] []
  | closed {scope : Scope} {g : FieldGroup} {groups : List FieldGroup} {order : List Encounter}
      {aside : List DeferredFragment} : ¬ g.CanBePlanned provider ∨ g.sets = [] →
      MeetsFields provider scope groups order aside →
      MeetsFields provider scope (g :: groups) (scope.encounter g :: order) aside
  | entered {scope : Scope} {g : FieldGroup} {groups : List FieldGroup} {metadata : FieldMetadata}
      {inner order : List Encounter} {below aside : List DeferredFragment} : g.CanBePlanned provider →
      g.metadata? provider = some metadata → g.sets ≠ [] →
      MeetsSets provider (scope.entered g metadata) g.sets inner below →
      MeetsFields provider scope groups order aside →
      MeetsFields provider scope (g :: groups) (scope.encounter g :: inner ++ order) (below ++ aside)

end

inductive MeetsFragments (provider : MetadataProvider) : List DeferredFragment → List Encounter → Prop
  | nil : MeetsFragments provider [] []
  | cons {f : DeferredFragment} {rest aside : List DeferredFragment} {here nested order : List Encounter} :
      MeetsSets provider f.scope [f.selectionSet] here aside → MeetsFragments provider aside nested →
      MeetsFragments provider rest order → MeetsFragments provider (f :: rest) (here ++ nested ++ order)

def Encounters (provider : MetadataProvider) (operation : PreparedOperation) (rootType : Text)
    (order : List Encounter) : Prop :=
  ∃ aside main later, MeetsSets provider (.root rootType) [operation.selectionSet] main aside ∧
    MeetsFragments provider aside later ∧ order = main ++ later

/-! ## Groups are those that flattening makes -/

namespace FieldGroup

theorem eq_of_isMerged {scope : Scope} {sets : List SelectionSet} {g g' : FieldGroup} (merged : g.IsMerged scope sets)
    (merged' : g'.IsMerged scope sets) (same : g.key = g'.key) : g = g' := by
  have nodes : g.fieldNodes = g'.fieldNodes := by rw [merged.fieldNodes, merged'.fieldNodes, same]
  have named := merged.named
  have onType := merged.onType
  obtain ⟨responseKey, fieldName, parentType, typeCondition, first, others⟩ := g
  obtain ⟨responseKey', fieldName', parentType', typeCondition', first', others'⟩ := g'
  obtain ⟨rfl, rfl⟩ := Prod.mk.inj same
  obtain ⟨rfl, rfl⟩ := List.cons.inj nodes
  obtain rfl : fieldName = fieldName' := named.trans merged'.named.symm
  obtain rfl : parentType = parentType' := onType.trans merged'.onType.symm
  rfl

theorem eq_of_keys {groups groups' : List FieldGroup} (same : groups.map key = groups'.map key)
    (equal : ∀ g ∈ groups, ∀ g' ∈ groups', g.key = g'.key → g = g') : groups = groups' := by
  induction groups generalizing groups' with
  | nil => exact (List.map_eq_nil_iff.1 same.symm).symm
  | cons g rest ih =>
      cases groups' with
      | nil => contradiction
      | cons g' rest' =>
          obtain ⟨first, others⟩ := List.cons.inj same
          rw [equal g List.mem_cons_self g' List.mem_cons_self first,
            ih others fun a member b member' => equal a (List.mem_cons_of_mem _ member) b (List.mem_cons_of_mem _ member')]

end FieldGroup

namespace Scope

variable {scope : Scope} {sets : List SelectionSet}

theorem isMerged_of_mem {g : FieldGroup} (member : g ∈ scope.groups sets) : g.IsMerged scope sets where
  fieldNodes := by
    rw [FieldGroup.ofFields_fieldNodes member, scope.found_fields, List.filter_map, List.map_map]
    rfl
  named := FieldGroup.ofFields_named member
  onType := FieldGroup.ofFields_parentType member

theorem groups_eq_iff {groups : List FieldGroup} :
    (groups.map FieldGroup.key = scope.keys sets ∧ ∀ g ∈ groups, g.IsMerged scope sets) ↔ groups = scope.groups sets := by
  constructor
  · rintro ⟨keys, merged⟩
    exact FieldGroup.eq_of_keys (keys.trans (scope.keys_eq sets).symm) fun g member g' member' same =>
      FieldGroup.eq_of_isMerged (merged g member) (isMerged_of_mem member') same
  · rintro rfl
    exact ⟨scope.keys_eq sets, fun _ => isMerged_of_mem⟩

end Scope

/-! ## There is one walk -/

section
variable {provider : MetadataProvider}

mutual

theorem MeetsSets.unique {scope : Scope} {sets : List SelectionSet} {order order' : List Encounter}
    {aside aside' : List DeferredFragment} : MeetsSets provider scope sets order aside →
      MeetsSets provider scope sets order' aside' → order = order' ∧ aside = aside'
  | .intro keys merged fields => fun
    | .intro keys' merged' fields' => by
        have same := (Scope.groups_eq_iff.1 ⟨keys', merged'⟩).trans (Scope.groups_eq_iff.1 ⟨keys, merged⟩).symm
        rw [same] at fields'
        obtain ⟨rfl, rfl⟩ := fields.unique fields'
        exact ⟨rfl, rfl⟩

theorem MeetsFields.unique {scope : Scope} {groups : List FieldGroup} {order order' : List Encounter}
    {aside aside' : List DeferredFragment} : MeetsFields provider scope groups order aside →
      MeetsFields provider scope groups order' aside' → order = order' ∧ aside = aside'
  | .nil => fun
    | .nil => ⟨rfl, rfl⟩
  | .closed ends rest => fun
    | .closed _ rest' => by
        obtain ⟨rfl, rfl⟩ := rest.unique rest'
        exact ⟨rfl, rfl⟩
    | .entered planned _ selects _ _ => (ends.elim (· planned) selects).elim
  | .entered planned known selects below rest => fun
    | .closed ends _ => (ends.elim (· planned) selects).elim
    | .entered _ known' _ below' rest' => by
        rw [Option.some.inj (known'.symm.trans known)] at below'
        obtain ⟨rfl, rfl⟩ := below.unique below'
        obtain ⟨rfl, rfl⟩ := rest.unique rest'
        exact ⟨rfl, rfl⟩

end

theorem MeetsFragments.unique {fragments : List DeferredFragment} {order order' : List Encounter}
    (h : MeetsFragments provider fragments order) (h' : MeetsFragments provider fragments order') : order = order' := by
  induction h generalizing order' with
  | nil =>
      cases h'
      rfl
  | cons sets _ _ nested rest =>
      obtain ⟨⟩ | ⟨sets', nested', rest'⟩ := h'
      obtain ⟨rfl, rfl⟩ := sets.unique sets'
      rw [nested nested', rest rest']

theorem Encounters.unique {operation : PreparedOperation} {rootType : Text} {order order' : List Encounter}
    (h : Encounters provider operation rootType order) (h' : Encounters provider operation rootType order') :
    order = order' := by
  obtain ⟨aside, main, later, sets, fragments, rfl⟩ := h
  obtain ⟨aside', main', later', sets', fragments', rfl⟩ := h'
  obtain ⟨rfl, rfl⟩ := sets.unique sets'
  rw [fragments.unique fragments']

/-! ## Every operation can be walked -/

def WalksWithin (provider : MetadataProvider) (height : Nat) : Prop :=
  ∀ (scope : Scope) (sets : List SelectionSet), (∀ set ∈ sets, set.height ≤ height) →
    ∃ order aside, MeetsSets provider scope sets order aside ∧ ∀ f ∈ aside, f.selectionSet.height < height

theorem exists_meetsFields {height : Nat} (walks : WalksWithin provider height) (scope : Scope)
    {groups : List FieldGroup} (low : ∀ g ∈ groups, ∀ set ∈ g.sets, set.height ≤ height) :
    ∃ order aside, MeetsFields provider scope groups order aside ∧ ∀ f ∈ aside, f.selectionSet.height < height := by
  induction groups with
  | nil => exact ⟨[], [], .nil, List.forall_mem_nil _⟩
  | cons g groups ih =>
      obtain ⟨here, others⟩ := List.forall_mem_cons.1 low
      obtain ⟨order, aside, rest, lower⟩ := ih others
      by_cases planned : g.CanBePlanned provider
      · by_cases leaf : g.sets = []
        · exact ⟨_, aside, .closed (.inr leaf) rest, lower⟩
        · obtain ⟨metadata, known, fits⟩ := planned
          obtain ⟨inner, below, meets, lowerBelow⟩ := walks (scope.entered g metadata) g.sets here
          exact ⟨_, _, .entered ⟨metadata, known, fits⟩ known leaf meets rest,
            List.forall_mem_append.2 ⟨lowerBelow, lower⟩⟩
      · exact ⟨_, aside, .closed (.inl planned) rest, lower⟩

theorem walksWithin (provider : MetadataProvider) (height : Nat) : WalksWithin provider height := by
  induction height with
  | zero =>
      intro scope sets low
      have empty : sets = [] := List.eq_nil_iff_forall_not_mem.2 fun set member => by
        have := low set member
        have := set.height_pos
        omega
      subst empty
      have nothing : MeetsFields provider scope [] [] [] := .nil
      exact ⟨[], [], .intro rfl (List.forall_mem_nil _) nothing, List.forall_mem_nil _⟩
  | succ height ih =>
      intro scope sets low
      have below : ∀ g ∈ scope.groups sets, ∀ set ∈ g.sets, set.height ≤ height := fun g => Scope.groups_height low
      obtain ⟨order, aside, meets, lower⟩ := exists_meetsFields ih scope below
      refine ⟨order, _, .intro (scope.keys_eq sets) (fun g => Scope.isMerged_of_mem) meets,
        List.forall_mem_append.2 ⟨fun f member => ?_, fun f member => Nat.lt_succ_of_lt (lower f member)⟩⟩
      exact Nat.lt_succ_of_le (Scope.setAside_height low f member)

theorem exists_meetsFragments (provider : MetadataProvider) {depth : Nat} {fragments : List DeferredFragment}
    (low : ∀ f ∈ fragments, f.selectionSet.height ≤ depth) : ∃ order, MeetsFragments provider fragments order := by
  induction depth generalizing fragments with
  | zero =>
      cases fragments with
      | nil => exact ⟨[], .nil⟩
      | cons f rest =>
          have := low f List.mem_cons_self
          have := f.selectionSet.height_pos
          omega
  | succ depth ih =>
      induction fragments with
      | nil => exact ⟨[], .nil⟩
      | cons f rest ihRest =>
          obtain ⟨here, others⟩ := List.forall_mem_cons.1 low
          obtain ⟨order, rest⟩ := ihRest others
          obtain ⟨main, aside, sets, lower⟩ := walksWithin provider f.selectionSet.height f.scope [f.selectionSet] (by simp)
          obtain ⟨nested, inside⟩ := ih fun g member => Nat.le_of_lt_succ ((lower g member).trans_le here)
          exact ⟨_, .cons sets inside rest⟩

theorem exists_encounters (provider : MetadataProvider) (operation : PreparedOperation) (rootType : Text) :
    ∃ order, Encounters provider operation rootType order := by
  obtain ⟨main, aside, sets, lower⟩ :=
    walksWithin provider operation.selectionSet.height (.root rootType) [operation.selectionSet] (by simp)
  obtain ⟨later, fragments⟩ := exists_meetsFragments provider fun f member => (lower f member).le
  exact ⟨_, aside, main, later, sets, fragments, rfl⟩

end

end QueryPlanner
