import QueryPlanner.Proofs.Plan.NestedFields
import QueryPlanner.Proofs.Plan.Occurrence
import Mathlib.Data.List.DropRight
import Mathlib.Data.List.Nodup

namespace QueryPlanner

/-- A step from a selection set to the field or fragment that is the selection of the given index in it. -/
structure Turn where
  index : Nat
  enclosure : Enclosure

/-- The turns to a selection, outermost first. Without turns it is the address of the operation. -/
abbrev Address := List Turn

namespace Enclosure

def field? : Enclosure → Option Field
  | field f => some f
  | fragment _ => none

def fragment? : Enclosure → Option InlineFragment
  | field _ => none
  | fragment f => some f

def selectionSet? : Enclosure → Option SelectionSet
  | field f => f.selectionSet
  | fragment f => some f.selectionSet

end Enclosure

namespace Address

def field? (t : Address) : Option Field := t.getLast?.bind (·.enclosure.field?)

def fragment? (t : Address) : Option InlineFragment := t.getLast?.bind (·.enclosure.fragment?)

def selectionSet? (whole : SelectionSet) (t : Address) : Option SelectionSet :=
  t.getLast?.elim (some whole) (·.enclosure.selectionSet?)

def isIncluded (t : Address) : Bool := t.all fun turn => !isExcluded turn.enclosure.directives

def responsePath (t : Address) : ResponsePath := t.filterMap (·.enclosure.responseKey?)

/-- The address without the fragments at its end: that of a field, or of the operation. -/
def withoutFragments (t : Address) : Address := t.rdropWhile (·.enclosure.fragment?.isSome)

def enclosingField (t : Address) : Address := withoutFragments t.dropLast

def Encloses (outer t : Address) : Prop := outer <+: t ∧ outer ≠ t

end Address

mutual

def Selection.addresses (base : Address) (index : Nat) : Selection → List Address
  | .field ⟨responseName, name, arguments, modifier, directives, none, loc⟩ =>
    [base ++ [⟨index, .field ⟨responseName, name, arguments, modifier, directives, none, loc⟩⟩]]
  | .field ⟨responseName, name, arguments, modifier, directives, some set, loc⟩ =>
    let here := base ++ [⟨index, .field ⟨responseName, name, arguments, modifier, directives, some set, loc⟩⟩]
    here :: set.addresses here
  | .spread _ => []
  | .inline ⟨typeCondition, directives, set, loc⟩ =>
    let here := base ++ [⟨index, .fragment ⟨typeCondition, directives, set, loc⟩⟩]
    here :: set.addresses here

def SelectionSet.addresses (base : Address) : SelectionSet → List Address
  | ⟨selections, _⟩ => addressesFrom base 0 selections

def addressesFrom (base : Address) (index : Nat) : List Selection → List Address
  | [] => []
  | s :: rest => s.addresses base index ++ addressesFrom base (index + 1) rest

end

def SelectionSet.included (base : Address) (set : SelectionSet) : List Address :=
  (set.addresses base).filter (·.isIncluded)

def Address.inside (whole : SelectionSet) (t : Address) : List Address :=
  (t.selectionSet? whole).elim [] (·.included t)

theorem Selection.addresses_field (base : Address) (index : Nat) (f : Field) :
    (Selection.field f).addresses base index = (base ++ [⟨index, .field f⟩]) ::
      f.selectionSet.elim [] (·.addresses (base ++ [⟨index, .field f⟩])) := by
  obtain ⟨_, _, _, _, _, _ | set, _⟩ := f <;> rfl

namespace Address

variable (whole : SelectionSet) (base t : Address) (turn : Turn)

@[simp] theorem field?_concat : field? (base ++ [turn]) = turn.enclosure.field? := by
  simp [field?]

@[simp] theorem fragment?_concat : fragment? (base ++ [turn]) = turn.enclosure.fragment? := by
  simp [fragment?]

@[simp] theorem selectionSet?_concat : selectionSet? whole (base ++ [turn]) = turn.enclosure.selectionSet? := by
  simp [selectionSet?]

@[simp] theorem isIncluded_concat :
    isIncluded (base ++ [turn]) = (isIncluded base && !isExcluded turn.enclosure.directives) := by
  simp [isIncluded]

@[simp] theorem responsePath_concat :
    responsePath (base ++ [turn]) = responsePath base ++ turn.enclosure.responseKey?.toList := by
  cases key : turn.enclosure.responseKey? <;> simp [responsePath, key]

@[simp] theorem enclosingField_concat : enclosingField (base ++ [turn]) = withoutFragments base := by
  simp [enclosingField]

theorem withoutFragments_fragment (index : Nat) (f : InlineFragment) :
    withoutFragments (base ++ [⟨index, .fragment f⟩]) = withoutFragments base :=
  List.rdropWhile_concat_pos _ _ _ rfl

theorem withoutFragments_field (index : Nat) (f : Field) :
    withoutFragments (base ++ [⟨index, .field f⟩]) = base ++ [⟨index, .field f⟩] :=
  List.rdropWhile_concat_neg _ _ _ nofun

theorem responsePath_withoutFragments : responsePath (withoutFragments t) = responsePath t := by
  induction t using List.reverseRecOn with
  | nil => rfl
  | append_singleton base turn ih =>
      obtain ⟨index, enclosure⟩ := turn
      cases enclosure with
      | field f => rw [withoutFragments_field]
      | fragment f =>
          rw [withoutFragments_fragment, ih, responsePath_concat]
          exact (List.append_nil _).symm

theorem exists_concat_of_field? {t : Address} {f : Field} (field : field? t = some f) :
    ∃ base index, t = base ++ [⟨index, .field f⟩] := by
  cases t using List.reverseRecOn with
  | nil => contradiction
  | append_singleton base turn =>
      obtain ⟨index, enclosure⟩ := turn
      rw [field?_concat] at field
      cases enclosure with
      | field g => exact ⟨base, index, by rw [Option.some.inj field]⟩
      | fragment g => contradiction

theorem exists_concat_of_fragment? {t : Address} {f : InlineFragment} (fragment : fragment? t = some f) :
    ∃ base index, t = base ++ [⟨index, .fragment f⟩] := by
  cases t using List.reverseRecOn with
  | nil => contradiction
  | append_singleton base turn =>
      obtain ⟨index, enclosure⟩ := turn
      rw [fragment?_concat] at fragment
      cases enclosure with
      | field g => contradiction
      | fragment g => exact ⟨base, index, by rw [Option.some.inj fragment]⟩

theorem Encloses.ne_nil {outer t : Address} (encloses : outer.Encloses t) : t ≠ [] := by
  rintro rfl
  exact encloses.2 (List.prefix_nil.1 encloses.1)

theorem Encloses.prefix_dropLast {outer t : Address} (encloses : outer.Encloses t) : outer <+: t.dropLast := by
  obtain ⟨rest, rfl⟩ := encloses.1
  have some : rest ≠ [] := fun none => encloses.2 (by rw [none, List.append_nil])
  rw [List.dropLast_append_of_ne_nil some]
  exact List.prefix_append _ _

end Address

theorem Address.inside_concat (whole : SelectionSet) (base : Address) (turn : Turn) :
    inside whole (base ++ [turn]) = turn.enclosure.selectionSet?.elim [] (·.included (base ++ [turn])) := by
  rw [inside, selectionSet?_concat]

mutual

theorem Selection.addresses_within (base : Address) (index : Nat) : (s : Selection) →
    ∀ t ∈ s.addresses base index, ∃ enclosure, base ++ [⟨index, enclosure⟩] <+: t
  | .field ⟨_, _, _, _, _, none, _⟩ => fun t member => by
      rw [List.mem_singleton.1 member]
      exact ⟨_, List.prefix_rfl⟩
  | .field ⟨_, _, _, _, _, some set, _⟩ => fun t member => by
      rcases List.mem_cons.1 member with rfl | member
      · exact ⟨_, List.prefix_rfl⟩
      · obtain ⟨i, enclosure, within⟩ := set.addresses_within _ t member
        exact ⟨_, (List.prefix_append _ _).trans within⟩
  | .spread _ => nofun
  | .inline ⟨_, _, set, _⟩ => fun t member => by
      rcases List.mem_cons.1 member with rfl | member
      · exact ⟨_, List.prefix_rfl⟩
      · obtain ⟨i, enclosure, within⟩ := set.addresses_within _ t member
        exact ⟨_, (List.prefix_append _ _).trans within⟩

theorem SelectionSet.addresses_within (base : Address) : (set : SelectionSet) →
    ∀ t ∈ set.addresses base, ∃ index enclosure, base ++ [⟨index, enclosure⟩] <+: t
  | ⟨selections, _⟩ => fun t member => by
      obtain ⟨index, enclosure, -, within⟩ := addressesFrom_within base 0 selections t member
      exact ⟨index, enclosure, within⟩

theorem addressesFrom_within (base : Address) (first : Nat) : (selections : List Selection) →
    ∀ t ∈ addressesFrom base first selections, ∃ index enclosure, first ≤ index ∧ base ++ [⟨index, enclosure⟩] <+: t
  | [] => nofun
  | s :: rest => fun t member => by
      rcases List.mem_append.1 member with member | member
      · obtain ⟨enclosure, within⟩ := s.addresses_within base first t member
        exact ⟨first, enclosure, Nat.le_refl _, within⟩
      · obtain ⟨index, enclosure, later, within⟩ := addressesFrom_within base (first + 1) rest t member
        exact ⟨index, enclosure, Nat.le_of_succ_le later, within⟩

end

theorem SelectionSet.encloses_addresses (base : Address) (set : SelectionSet) :
    ∀ t ∈ set.addresses base, base.Encloses t := by
  intro t member
  obtain ⟨index, enclosure, within⟩ := set.addresses_within base t member
  refine ⟨(List.prefix_append _ _).trans within, fun same => ?_⟩
  have longer := within.length_le
  rw [← same, List.length_append, List.length_singleton] at longer
  omega

theorem SelectionSet.not_mem_addresses (base : Address) (set : SelectionSet) : base ∉ set.addresses base :=
  fun member => (set.encloses_addresses base base member).2 rfl

theorem Address.encloses_inside (whole : SelectionSet) {outer t : Address} (below : t ∈ outer.inside whole) :
    outer.Encloses t := by
  unfold inside at below
  cases selects : outer.selectionSet? whole with
  | none =>
      rw [selects] at below
      contradiction
  | some set =>
      rw [selects] at below
      exact set.encloses_addresses outer t (List.mem_filter.1 below).1

mutual

theorem Selection.addresses_nodup (base : Address) (index : Nat) : (s : Selection) → (s.addresses base index).Nodup
  | .field ⟨_, _, _, _, _, none, _⟩ => List.nodup_singleton _
  | .field ⟨_, _, _, _, _, some set, _⟩ => List.nodup_cons.2 ⟨set.not_mem_addresses _, set.addresses_nodup _⟩
  | .spread _ => List.nodup_nil
  | .inline ⟨_, _, set, _⟩ => List.nodup_cons.2 ⟨set.not_mem_addresses _, set.addresses_nodup _⟩

theorem SelectionSet.addresses_nodup (base : Address) : (set : SelectionSet) → (set.addresses base).Nodup
  | ⟨selections, _⟩ => addressesFrom_nodup base 0 selections

theorem addressesFrom_nodup (base : Address) (index : Nat) : (selections : List Selection) →
    (addressesFrom base index selections).Nodup
  | [] => List.nodup_nil
  | s :: rest => by
      refine List.nodup_append.2 ⟨s.addresses_nodup base index, addressesFrom_nodup base (index + 1) rest, ?_⟩
      rintro t first _ second rfl
      obtain ⟨enclosure, here⟩ := s.addresses_within base index t first
      obtain ⟨index', enclosure', later, there⟩ := addressesFrom_within base (index + 1) rest t second
      have same := (List.prefix_of_prefix_length_le here there (by simp)).eq_of_length (by simp)
      have turns := List.singleton_inj.1 (List.append_cancel_left same)
      exact absurd (congrArg Turn.index turns) (Nat.ne_of_lt later)

end

theorem SelectionSet.included_nodup (base : Address) (set : SelectionSet) : (set.included base).Nodup :=
  (set.addresses_nodup base).filter _

theorem SelectionSet.included_of_excluded {base : Address} (excluded : base.isIncluded = false) (set : SelectionSet) :
    set.included base = [] := by
  refine List.filter_eq_nil_iff.2 fun t member => ?_
  obtain ⟨index, enclosure, rest, rfl⟩ := set.addresses_within base t member
  unfold Address.isIncluded at excluded ⊢
  simp [List.all_append, excluded]

end QueryPlanner
