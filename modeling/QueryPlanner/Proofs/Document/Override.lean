import QueryPlanner.Proofs.Document.Modifier

namespace QueryPlanner

namespace TypeRef

def flags : TypeRef → List Bool
  | named _ => [false]
  | list item _ => false :: item.flags
  | nonNull type _ => true :: type.flags.tail

theorem flags_eq_cons (type : TypeRef) : type.flags = type.isNonNull :: type.flags.tail := by
  cases type <;> rfl

theorem length_flags (type : TypeRef) : type.flags.length = type.depth + 1 := by
  induction type with
  | named _ => rfl
  | list item _ ih => rw [flags, List.length_cons, ih, depth]
  | nonNull type _ ih => rw [flags, List.length_cons, List.length_tail, ih, depth, Nat.add_sub_cancel]

theorem tail_flags_nullable (type : TypeRef) : type.nullable.flags.tail = type.flags.tail := by
  cases type <;> rfl

theorem IsProper.flags_nullable {type : TypeRef} (proper : type.IsProper) :
    type.nullable.flags = false :: type.flags.tail := by
  rw [flags_eq_cons, proper.isNonNull_nullable, tail_flags_nullable]

theorem IsProper.nullable_nullable {type : TypeRef} (proper : type.IsProper) :
    type.nullable.nullable = type.nullable := by
  cases type with
  | nonNull type _ =>
      cases type with
      | nonNull _ _ => cases proper.1
      | _ => rfl
  | _ => rfl

theorem IsProper.nonNull_nullable {type : TypeRef} (proper : type.IsProper) (loc : Option Location) :
    (nonNull type.nullable loc).IsProper :=
  ⟨proper.isNonNull_nullable, proper.nullable⟩

end TypeRef

namespace Modifier

inductive Setting where
  | required | optional | keep
  deriving DecidableEq

def Setting.override : Setting → Bool → Bool
  | required, _ => true
  | optional, _ => false
  | keep, flag => flag

mutual

/--
The settings of the levels that the modifier reaches, from the outermost one inwards. Of several marks at one level the
outermost one counts.
-/
def settings : Modifier → List Setting
  | list element _ => .keep :: elementSettings element
  | required element _ => .required :: (elementSettings element).tail
  | optional element _ => .optional :: (elementSettings element).tail

def elementSettings : Option Modifier → List Setting
  | none => []
  | some modifier => modifier.settings

end

def Overrides (settings : List Setting) (flags flags' : List Bool) : Prop :=
  ∀ level, flags'[level]? = flags[level]?.map (settings.getD level .keep).override

theorem Overrides.refl (flags : List Bool) : Overrides [] flags flags := by
  intro level
  cases flags[level]? <;> rfl

theorem Overrides.cons {settings : List Setting} {flags flags' : List Bool} (inner : Overrides settings flags flags')
    (setting : Setting) (flag : Bool) : Overrides (setting :: settings) (flag :: flags) (setting.override flag :: flags') := by
  intro level
  cases level with
  | zero => rfl
  | succ level => exact inner level

theorem Overrides.tail {settings : List Setting} {flags flags' : List Bool} (inner : Overrides settings flags flags') :
    Overrides settings.tail flags.tail flags'.tail := by
  intro level
  rw [List.getElem?_tail, List.getElem?_tail, inner (level + 1)]
  cases settings <;> rfl

theorem Overrides.length_eq {settings : List Setting} {flags flags' : List Bool}
    (overrides : Overrides settings flags flags') : flags'.length = flags.length := by
  refine Nat.le_antisymm ?_ ?_ <;> rw [← List.getElem?_eq_none_iff]
  · rw [overrides, List.getElem?_eq_none (Nat.le_refl _), Option.map_none]
  · have outside := overrides flags'.length
    rw [List.getElem?_eq_none (Nat.le_refl _)] at outside
    exact Option.map_eq_none_iff.1 outside.symm

end Modifier

def TypeRef.markedAs (type other : TypeRef) : TypeRef := if other.isNonNull then .nonNull type none else type

inductive Modifies : Option Modifier → TypeRef → TypeRef → Prop
  | absent {type : TypeRef} : Modifies none type type
  | list {element : Option Modifier} {loc loc' : Option Location} {type item item' : TypeRef} :
      type.nullable = .list item loc' → Modifies element item item' →
      Modifies (some (.list element loc)) type ((TypeRef.list item' none).markedAs type)
  | required {element : Option Modifier} {loc : Option Location} {type inner : TypeRef} :
      Modifies element type.nullable inner → Modifies (some (.required element loc)) type (.nonNull inner.nullable none)
  | optional {element : Option Modifier} {loc : Option Location} {type inner : TypeRef} :
      Modifies element type inner → Modifies (some (.optional element loc)) type inner.nullable

mutual

theorem Modifier.modifies_of_apply {type modified : TypeRef} : (modifier : Modifier) →
    modifier.apply type = some modified → Modifies (some modifier) type modified
  | .list element _ => fun applied => by
      rw [Modifier.apply] at applied
      split at applied
      · rename_i nullable
        obtain ⟨item', inner, made⟩ := Option.bind_eq_some_iff.1 applied
        exact Option.some.inj made ▸ .list nullable (Modifier.modifies_of_applyElement element inner)
      · contradiction
  | .required element _ => fun applied => by
      obtain ⟨inner, elementary, made⟩ := Option.bind_eq_some_iff.1 applied
      exact Option.some.inj made ▸ .required (Modifier.modifies_of_applyElement element elementary)
  | .optional element _ => fun applied => by
      obtain ⟨inner, elementary, made⟩ := Option.bind_eq_some_iff.1 applied
      exact Option.some.inj made ▸ .optional (Modifier.modifies_of_applyElement element elementary)

theorem Modifier.modifies_of_applyElement {type modified : TypeRef} : (element : Option Modifier) →
    Modifier.applyElement element type = some modified → Modifies element type modified
  | none => fun applied => Option.some.inj applied ▸ .absent
  | some modifier => fun applied => modifier.modifies_of_apply applied

end

theorem Modifies.modifiedBy {modifier : Option Modifier} {type modified : TypeRef}
    (modifies : Modifies modifier type modified) : type.modifiedBy modifier = some modified := by
  unfold TypeRef.modifiedBy
  induction modifies with
  | absent => rfl
  | list nullable _ ih =>
      rw [Modifier.applyElement, Modifier.apply, nullable]
      simp only [ih]
      rfl
  | required _ ih | optional _ ih =>
      rw [Modifier.applyElement, Modifier.apply, ih]
      rfl

theorem TypeRef.modifiedBy_eq_some_iff {modifier : Option Modifier} {type modified : TypeRef} :
    type.modifiedBy modifier = some modified ↔ Modifies modifier type modified :=
  ⟨Modifier.modifies_of_applyElement modifier, Modifies.modifiedBy⟩

namespace TypeRef

theorem namedType_nullable (type : TypeRef) : type.nullable.namedType = type.namedType := by
  cases type <;> rfl

@[simp] theorem nullable_markedAs_list (item : TypeRef) (loc : Option Location) (other : TypeRef) :
    ((list item loc).markedAs other).nullable = list item loc := by
  unfold markedAs
  cases other.isNonNull <;> rfl

@[simp] theorem isNonNull_markedAs_list (item : TypeRef) (loc : Option Location) (other : TypeRef) :
    ((list item loc).markedAs other).isNonNull = other.isNonNull := by
  unfold markedAs
  cases other.isNonNull <;> rfl

theorem markedAs_markedAs_list (type item : TypeRef) (loc : Option Location) (other : TypeRef) :
    type.markedAs ((list item loc).markedAs other) = type.markedAs other := by
  rw [markedAs, isNonNull_markedAs_list, markedAs]

theorem IsProper.item {type item : TypeRef} {loc : Option Location} (proper : type.IsProper)
    (nullable : type.nullable = .list item loc) : item.IsProper := by
  have inside := proper.nullable
  rwa [nullable] at inside

theorem isProper_markedAs_list {item : TypeRef} (proper : item.IsProper) (loc : Option Location) (other : TypeRef) :
    ((list item loc).markedAs other).IsProper := by
  unfold markedAs
  split
  · exact ⟨rfl, proper⟩
  · exact proper

theorem flags_of_nullable_list {type item : TypeRef} {loc : Option Location} (nullable : type.nullable = list item loc) :
    type.flags = type.isNonNull :: item.flags := by
  rw [flags_eq_cons, ← tail_flags_nullable, nullable]
  rfl

end TypeRef

section

variable {modifier : Option Modifier} {type modified : TypeRef}

theorem Modifies.namedType_eq (modifies : Modifies modifier type modified) : modified.namedType = type.namedType := by
  induction modifies with
  | absent => rfl
  | @list _ _ _ type _ _ nullable _ ih =>
      rw [← type.namedType_nullable, nullable, ← TypeRef.namedType_nullable, TypeRef.nullable_markedAs_list]
      exact ih
  | @required _ _ type inner _ ih =>
      rw [← type.namedType_nullable, ← ih]
      exact inner.namedType_nullable
  | @optional _ _ _ inner _ ih => rw [inner.namedType_nullable, ih]

theorem Modifies.isProper (modifies : Modifies modifier type modified) (proper : type.IsProper) : modified.IsProper := by
  induction modifies with
  | absent => exact proper
  | list nullable _ ih => exact TypeRef.isProper_markedAs_list (ih (proper.item nullable)) none _
  | required _ ih => exact (ih proper.nullable).nonNull_nullable none
  | optional _ ih => exact (ih proper).nullable

theorem Modifies.overrides (modifies : Modifies modifier type modified) (proper : type.IsProper) :
    Modifier.Overrides (Modifier.elementSettings modifier) type.flags modified.flags := by
  induction modifies with
  | absent => exact .refl _
  | @list _ _ _ type _ item' nullable _ ih =>
      have marked := TypeRef.flags_of_nullable_list (TypeRef.nullable_markedAs_list item' none type)
      rw [TypeRef.isNonNull_markedAs_list] at marked
      rw [TypeRef.flags_of_nullable_list nullable, marked]
      exact (ih (proper.item nullable)).cons .keep type.isNonNull
  | @required _ _ type inner _ ih =>
      have levels := (ih proper.nullable).tail
      rw [TypeRef.tail_flags_nullable, ← inner.tail_flags_nullable] at levels
      rw [type.flags_eq_cons]
      exact levels.cons .required type.isNonNull
  | @optional _ _ type inner modifies ih =>
      rw [type.flags_eq_cons, (modifies.isProper proper).flags_nullable]
      exact (ih proper).tail.cons .optional type.isNonNull

theorem Modifies.of_nullable (modifies : Modifies modifier type modified) (proper : type.IsProper) :
    ∃ modified', Modifies modifier type.nullable modified' ∧ modified'.nullable = modified.nullable := by
  induction modifies with
  | @absent type => exact ⟨type.nullable, .absent, proper.nullable_nullable⟩
  | list nullable inner _ =>
      rw [← proper.nullable_nullable] at nullable
      exact ⟨_, .list nullable inner, by rw [TypeRef.nullable_markedAs_list, TypeRef.nullable_markedAs_list]⟩
  | required inner _ =>
      rw [← proper.nullable_nullable] at inner
      exact ⟨_, .required inner, rfl⟩
  | optional _ ih =>
      obtain ⟨inner', again, same⟩ := ih proper
      exact ⟨_, .optional again, by rw [same]⟩

theorem Modifies.again (modifies : Modifies modifier type modified) (proper : type.IsProper) :
    Modifies modifier modified modified := by
  induction modifies with
  | absent => exact .absent
  | @list element loc _ type _ item' nullable _ ih =>
      have marked := TypeRef.nullable_markedAs_list item' none type
      have step : Modifies (some (.list element loc)) _ _ := .list marked (ih (proper.item nullable))
      rwa [TypeRef.markedAs_markedAs_list] at step
  | @required element loc type inner modifies ih =>
      have inside := modifies.isProper proper.nullable
      obtain ⟨inner', again, same⟩ := (ih proper.nullable).of_nullable inside
      rw [← same]
      exact .required (same ▸ again)
  | @optional element loc type inner modifies ih =>
      obtain ⟨inner', again, same⟩ := (ih proper).of_nullable (modifies.isProper proper)
      have step : Modifies (some (.optional element loc)) _ _ := .optional again
      rwa [same] at step

end

/--
A modifier with more brackets inside each other than the type has lists fits nowhere. Any other sets the marks of the
levels that it speaks of, once and for all.
-/
theorem modifiedBy_overrides (type : TypeRef) (proper : type.IsProper) (modifier : Option Modifier) :
    (type.modifiedBy modifier = none ↔ type.depth < elementDepth modifier) ∧
      ∀ modified, type.modifiedBy modifier = some modified →
        modified.namedType = type.namedType ∧ modified.depth = type.depth ∧ modified.IsProper ∧
          (∀ level, modified.flags[level]? =
            type.flags[level]?.map ((Modifier.elementSettings modifier).getD level .keep).override) ∧
          modified.modifiedBy modifier = some modified := by
  refine ⟨?_, fun modified applied => ?_⟩
  · rw [← Option.not_isSome_iff_eq_none, TypeRef.isSome_modifiedBy proper, Nat.not_le]
  · have modifies := TypeRef.modifiedBy_eq_some_iff.1 applied
    have overrides := modifies.overrides proper
    have levels := overrides.length_eq
    rw [TypeRef.length_flags, TypeRef.length_flags, Nat.add_right_cancel_iff] at levels
    exact ⟨modifies.namedType_eq, levels, modifies.isProper proper, overrides, (modifies.again proper).modifiedBy⟩

namespace MarkedMatrix

def type : TypeRef := .nonNull (.list (.list (.nonNull (.ofName "Int") none) none) none) none

def modifier : Modifier := .list (some (.required (some (.list (some (.optional none none)) none)) none)) none

theorem isProper : type.IsProper := ⟨rfl, rfl, trivial⟩

theorem levels_overridden : type.IsProper ∧ type.flags = [true, false, true] ∧
    modifier.settings = [.keep, .required, .optional] ∧
      ∃ modified, type.modifiedBy (some modifier) = some modified ∧ modified.namedType = "Int" ∧
        modified.flags = [true, true, false] ∧ modified.IsProper ∧ modified.modifiedBy (some modifier) = some modified := by
  obtain ⟨-, applies⟩ := modifiedBy_overrides type isProper (some modifier)
  obtain ⟨named, -, proper, -, again⟩ := applies _ rfl
  exact ⟨isProper, rfl, rfl, _, rfl, named, rfl, proper, again⟩

end MarkedMatrix

end QueryPlanner
