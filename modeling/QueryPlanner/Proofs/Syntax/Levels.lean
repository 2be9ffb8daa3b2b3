import QueryPlanner.Proofs.Syntax.Grammar

namespace QueryPlanner.Grammar
open Lexeme (mark word)

variable {α : Type} {depth : α → Nat} {G : List Lexeme → α → Prop} {k : Nat}

def Shallow (depth : α → Nat) (G : List Lexeme → α → Prop) (k : Nat) : Prop :=
  ∀ ⦃ls part⦄, ls.length ≤ k → G ls part → depth part ≤ ls.length

theorem Shallow.sequence (shallow : Shallow depth G k) : Shallow (deepest depth) (Sequence G) k := by
  intro ls parts short derives
  induction derives with
  | nil => exact Nat.le_refl 0
  | @cons ls₁ ls₂ part parts first others ih =>
      rw [List.length_append] at short ⊢
      have first := shallow (by omega) first
      have others := ih (by omega)
      exact Nat.max_le.2 ⟨by omega, by omega⟩

theorem Shallow.parenthesized (shallow : Shallow depth G k) : Shallow (deepest depth) (Parenthesized G) k := by
  intro ls parts short derives
  cases derives with
  | absent => exact Nat.le_refl 0
  | present derives some =>
      simp only [List.length_cons, List.length_append, List.length_nil] at short ⊢
      have := shallow.sequence (by omega) derives
      omega

theorem Shallow.maybe (shallow : Shallow depth G k) : Shallow (fun part => (part.map depth).getD 0) (Maybe G) k := by
  intro ls part short derives
  cases derives with
  | absent => exact Nat.le_refl 0
  | present derives => exact shallow short derives

theorem isObjectField_shallow {isConst : Bool} (values : Shallow Value.depth (IsValue isConst) k) :
    Shallow ObjectField.depth (IsObjectField isConst) k := by
  intro ls field short derives
  cases derives with
  | @intro ls value text derives =>
      simp only [List.length_cons] at short ⊢
      have := values (by omega) derives
      rw [ObjectField.depth]
      omega

theorem isValue_shallow (isConst : Bool) (k : Nat) : Shallow Value.depth (IsValue isConst) k := by
  -- Lists and objects have shorter parts, so the bound on the length carries the induction.
  induction k with
  | zero =>
      intro ls value short derives
      cases derives <;> simp at short
      case var derives => cases derives; simp at short
  | succ k ih =>
      intro ls value short derives
      cases derives with
      | list derives =>
          simp only [List.length_cons, List.length_append, List.length_nil] at short ⊢
          have := ih.sequence (by omega) derives
          rw [Value.depth, valuesDepth_eq]
          omega
      | object derives =>
          simp only [List.length_cons, List.length_append, List.length_nil] at short ⊢
          have := (isObjectField_shallow ih).sequence (by omega) derives
          rw [Value.depth, objectFieldsDepth_eq]
          omega
      | _ => exact Nat.zero_le _

theorem isArgument_shallow (isConst : Bool) (k : Nat) : Shallow Argument.depth (IsArgument isConst) k := by
  intro ls argument short derives
  cases derives with
  | @intro ls value text derives =>
      simp only [List.length_cons] at short ⊢
      have := isValue_shallow isConst k (by omega) derives
      simp only [Argument.depth]
      omega

theorem isDirective_shallow (isConst : Bool) (k : Nat) : Shallow Directive.depth (IsDirective isConst) k := by
  intro ls directive short derives
  cases derives with
  | intro text derives =>
      simp only [List.length_cons] at short ⊢
      have := (isArgument_shallow isConst k).parenthesized (by omega) derives
      simp only [Directive.depth]
      omega

theorem isTypeRef_depth_le {ls : List Lexeme} {type : TypeRef} (derives : IsTypeRef ls type) :
    type.depth ≤ ls.length := by
  induction derives with
  | named => exact Nat.zero_le _
  | list _ ih =>
      simp only [List.length_cons, List.length_append, List.length_nil, TypeRef.depth]
      omega
  | nonNull _ _ ih =>
      simp only [List.length_append, List.length_cons, List.length_nil, TypeRef.depth]
      omega

mutual

theorem isModifier_depth_le {ls : List Lexeme} {element : Option Modifier} :
    IsModifier ls element → elementDepth element ≤ ls.length
  | .unmarked derives => isBrackets_depth_le derives
  | .required derives => by
      have := isBrackets_depth_le derives
      simp only [List.length_append, elementDepth, Modifier.depth]
      omega
  | .optional derives => by
      have := isBrackets_depth_le derives
      simp only [List.length_append, elementDepth, Modifier.depth]
      omega

theorem isBrackets_depth_le {ls : List Lexeme} {element : Option Modifier} :
    IsBrackets ls element → elementDepth element ≤ ls.length
  | .absent => Nat.le_refl 0
  | .list derives => by
      have := isModifier_depth_le derives
      simp only [List.length_cons, List.length_append, List.length_nil, elementDepth, Modifier.depth]
      omega

end

theorem isFragmentSpread_shallow (k : Nat) : Shallow FragmentSpread.depth IsFragmentSpread k := by
  intro ls spread short derives
  cases derives with
  | intro proper derives =>
      simp only [List.length_cons] at short ⊢
      have := (isDirective_shallow false k).sequence (by omega) derives
      simp only [FragmentSpread.depth]
      omega

theorem isField_shallow (sets : Shallow SelectionSet.depth IsSelectionSet k) : Shallow Field.depth IsField k := by
  intro ls field short derives
  cases derives with
  | intro names arguments modifier directives set =>
      simp only [List.length_append] at short ⊢
      have arguments := (isArgument_shallow false k).parenthesized (by omega) arguments
      have modifier := isModifier_depth_le modifier
      have directives := (isDirective_shallow false k).sequence (by omega) directives
      have set := sets.maybe (by omega) set
      rw [Field.depth_mk]
      simp only [Nat.max_le]
      dsimp only at set
      omega

theorem isInlineFragment_shallow (sets : Shallow SelectionSet.depth IsSelectionSet k) :
    Shallow InlineFragment.depth IsInlineFragment k := by
  intro ls fragment short derives
  cases derives with
  | intro type directives set =>
      simp only [List.length_cons, List.length_append] at short ⊢
      have directives := (isDirective_shallow false k).sequence (by omega) directives
      have set := sets (by omega) set
      rw [InlineFragment.depth, Nat.max_le]
      omega

theorem isSelection_shallow (sets : Shallow SelectionSet.depth IsSelectionSet k) :
    Shallow Selection.depth IsSelection k := by
  intro ls selection short derives
  cases derives with
  | field derives => exact isField_shallow sets short derives
  | spread derives => exact isFragmentSpread_shallow k short derives
  | inline derives => exact isInlineFragment_shallow sets short derives

theorem isSelectionSet_shallow (k : Nat) : Shallow SelectionSet.depth IsSelectionSet k := by
  induction k with
  | zero =>
      intro ls set short derives
      cases derives
      simp at short
  | succ k ih =>
      intro ls set short derives
      cases derives with
      | intro derives some =>
          simp only [List.length_cons, List.length_append, List.length_nil] at short ⊢
          have := (isSelection_shallow ih).sequence (by omega) derives
          rw [SelectionSet.depth, selectionsDepth_eq]
          omega

theorem isVariableDefinition_shallow (k : Nat) : Shallow VariableDefinition.depth IsVariableDefinition k := by
  intro ls definition short derives
  cases derives with
  | @intro vs ts ls ds var type value directives _ typed valued directed =>
      simp only [List.length_cons, List.length_append] at short ⊢
      have typed := isTypeRef_depth_le typed
      have defaults : Shallow Value.depth IsDefault k := by
        rintro _ value short ⟨derives⟩
        exact Nat.le_succ_of_le (isValue_shallow true k (Nat.le_of_succ_le short) derives)
      have valued := defaults.maybe (by omega) valued
      have directed := (isDirective_shallow true k).sequence (by omega) directed
      rw [VariableDefinition.depth]
      simp only [Nat.max_le]
      dsimp only at valued
      omega

theorem isOperation_shallow (k : Nat) : Shallow Operation.depth IsOperation k := by
  intro ls operation short derives
  cases derives with
  | shorthand derives =>
      have := isSelectionSet_shallow k short derives
      simpa [Operation.depth, deepest] using this
  | intro type name definitions directives set =>
      simp only [List.length_cons, List.length_append] at short ⊢
      have definitions := (isVariableDefinition_shallow k).parenthesized (by omega) definitions
      have directives := (isDirective_shallow false k).sequence (by omega) directives
      have set := isSelectionSet_shallow k (by omega) set
      rw [Operation.depth]
      simp only [Nat.max_le]
      omega

theorem isFragment_shallow (allowVariables : Bool) (k : Nat) : Shallow Fragment.depth (IsFragment allowVariables) k := by
  intro ls fragment short derives
  cases derives with
  | @intro vs ts ds ls text definitions type directives set proper defined condition directed selected =>
      simp only [List.length_cons, List.length_append] at short ⊢
      have defined : deepest VariableDefinition.depth (definitions.getD []) ≤ vs.length := by
        cases defined with
        | excluded => exact Nat.le_refl 0
        | allowed derives => exact (isVariableDefinition_shallow k).parenthesized (by omega) derives
      have directed := (isDirective_shallow false k).sequence (by omega) directed
      have selected := isSelectionSet_shallow k (by omega) selected
      rw [Fragment.depth]
      simp only [Nat.max_le]
      omega

theorem isDefinition_shallow (allowVariables : Bool) (k : Nat) :
    Shallow Definition.depth (IsDefinition allowVariables) k := by
  intro ls definition short derives
  cases derives with
  | operation derives => exact isOperation_shallow k short derives
  | fragment derives => exact isFragment_shallow allowVariables k short derives

theorem isDocument_shallow (allowVariables : Bool) (k : Nat) : Shallow Document.depth (IsDocument allowVariables) k := by
  intro ls document short derives
  cases derives with
  | intro derives some => exact (isDefinition_shallow allowVariables k).sequence short derives

end QueryPlanner.Grammar
