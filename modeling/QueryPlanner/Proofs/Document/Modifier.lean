import QueryPlanner.Proofs.Syntax.Tree

namespace QueryPlanner

namespace TypeRef

def IsProper : TypeRef → Prop
  | named _ => True
  | list item _ => item.IsProper
  | nonNull type _ => type.isNonNull = false ∧ type.IsProper

@[simp] theorem depth_nullable (type : TypeRef) : type.nullable.depth = type.depth := by
  cases type <;> rfl

theorem IsProper.nullable {type : TypeRef} (proper : type.IsProper) : type.nullable.IsProper := by
  cases type with
  | nonNull type _ => exact proper.2
  | _ => exact proper

theorem IsProper.isNonNull_nullable {type : TypeRef} (proper : type.IsProper) : type.nullable.isNonNull = false := by
  cases type with
  | nonNull type _ => exact proper.1
  | _ => rfl

end TypeRef

mutual

theorem Modifier.isSome_apply {type : TypeRef} (proper : type.IsProper) : (modifier : Modifier) →
    ((modifier.apply type).isSome ↔ modifier.depth ≤ type.depth)
  | .list element _ => by
      rw [Modifier.apply, Modifier.depth, ← type.depth_nullable]
      have single := proper.isNonNull_nullable
      have inside := proper.nullable
      cases nullable : type.nullable with
      | named _ => simp [TypeRef.depth]
      | list item _ =>
          have item_proper : item.IsProper := by rwa [nullable] at inside
          have fits := Modifier.isSome_applyElement item_proper element
          cases applied : Modifier.applyElement element item <;> simpa [applied, TypeRef.depth] using fits
      | nonNull _ _ =>
          rw [nullable] at single
          contradiction
  | .required element _ => by
      have fits := Modifier.isSome_applyElement proper.nullable element
      rw [type.depth_nullable] at fits
      rw [Modifier.apply, Modifier.depth]
      cases applied : Modifier.applyElement element type.nullable <;> simpa [applied] using fits
  | .optional element _ => by
      have fits := Modifier.isSome_applyElement proper element
      rw [Modifier.apply, Modifier.depth]
      cases applied : Modifier.applyElement element type <;> simpa [applied] using fits

theorem Modifier.isSome_applyElement {type : TypeRef} (proper : type.IsProper) : (element : Option Modifier) →
    ((Modifier.applyElement element type).isSome ↔ elementDepth element ≤ type.depth)
  | none => iff_of_true rfl (Nat.zero_le _)
  | some modifier => modifier.isSome_apply proper

end

theorem TypeRef.isSome_modifiedBy {type : TypeRef} (proper : type.IsProper) (modifier : Option Modifier) :
    (type.modifiedBy modifier).isSome ↔ elementDepth modifier ≤ type.depth :=
  Modifier.isSome_applyElement proper modifier

end QueryPlanner
