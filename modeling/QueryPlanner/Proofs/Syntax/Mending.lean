import QueryPlanner.Proofs.Syntax.Viable
import QueryPlanner.Proofs.Token.Reading
import Mathlib.Data.List.Forall2

/-!
# Mending derivations

In a derivation, a token whose value lacks the form of its kind can be replaced by one that has it. So what can be read
and begins a derivation begins one of which all can be read.
-/

namespace QueryPlanner.Grammar
open Lexeme (mark word)

/-- The second token has the form of its kind, and is the first one if that has it too. -/
structure Mends (l l' : Lexeme) : Prop where
  proper : l'.Proper
  keeps : l.Proper → l' = l

def Mendable {α : Type} (G : List Lexeme → α → Prop) (ls : List Lexeme) (P : α → Prop := fun _ => True) : Prop :=
  ∃ ls' part, List.Forall₂ Mends ls ls' ∧ G ls' part ∧ P part

variable {α : Type} {G : List Lexeme → α → Prop} {isConst allowVariables : Bool} {ls : List Lexeme}

theorem Mends.of_proper {l : Lexeme} (proper : l.Proper) : Mends l l := ⟨proper, fun _ => rfl⟩

theorem exists_mends (kind : TokenKind) (text usual : Text) (proper : Lexeme.Proper ⟨kind, usual⟩) :
    ∃ text', Mends ⟨kind, text⟩ ⟨kind, text'⟩ ∧ (text' = text ∨ text' = usual) := by
  by_cases already : Lexeme.Proper ⟨kind, text⟩
  · exact ⟨text, .of_proper already, .inl rfl⟩
  · exact ⟨usual, ⟨proper, fun proper => absurd proper already⟩, .inr rfl⟩

theorem exists_mends_word (text : Text) : ∃ text', Mends (word text) (word text') ∧ (text' = text ∨ text' = "a") :=
  exists_mends .name text "a" (show IsNameText "a" by decide)

theorem Sequence.mend (item : ∀ ⦃ls part⦄, G ls part → Mendable G ls) {parts : List α} (derives : Sequence G ls parts) :
    Mendable (Sequence G) ls (fun parts' => parts'.length = parts.length) := by
  induction derives with
  | nil => exact ⟨[], [], .nil, .nil, rfl⟩
  | cons first _ rest =>
      obtain ⟨ls₁, part, mends₁, derives₁, -⟩ := item first
      obtain ⟨ls₂, parts, mends₂, derives₂, length⟩ := rest
      exact ⟨ls₁ ++ ls₂, part :: parts, List.rel_append mends₁ mends₂, .cons derives₁ derives₂, by simp [length]⟩

theorem Maybe.mend (item : ∀ ⦃ls part⦄, G ls part → Mendable G ls) {part : Option α} (derives : Maybe G ls part) :
    Mendable (Maybe G) ls := by
  cases derives with
  | absent => exact ⟨[], none, .nil, .absent, trivial⟩
  | present derives =>
      obtain ⟨ls', part', mends, derives', -⟩ := item derives
      exact ⟨ls', some part', mends, .present derives', trivial⟩

theorem mends_between {ls ls' : List Lexeme} {first last : TokenKind} (proper : (mark first).Proper)
    (mends : List.Forall₂ Mends ls ls') (proper' : (mark last).Proper) :
    List.Forall₂ Mends (mark first :: (ls ++ [mark last])) (mark first :: (ls' ++ [mark last])) :=
  .cons (.of_proper proper) (List.rel_append mends (.cons (.of_proper proper') .nil))

theorem Parenthesized.mend (item : ∀ ⦃ls part⦄, G ls part → Mendable G ls) {parts : List α}
    (derives : Parenthesized G ls parts) : Mendable (Parenthesized G) ls := by
  cases derives with
  | absent => exact ⟨[], [], .nil, .absent, trivial⟩
  | present derives some =>
      obtain ⟨ls', parts', mends, derives', length⟩ := derives.mend item
      refine ⟨_, parts', mends_between trivial mends trivial, .present derives' ?_, trivial⟩
      rwa [ne_eq, ← List.length_eq_zero_iff, length, List.length_eq_zero_iff]

theorem IsVariable.mend {v : Variable} (derives : IsVariable ls v) : Mendable IsVariable ls := by
  obtain ⟨text⟩ := derives
  obtain ⟨text', mends, -⟩ := exists_mends_word text
  exact ⟨_, _, .cons (.of_proper trivial) (.cons mends .nil), .intro text', trivial⟩

theorem areDigits_zero : Number.AreDigits "0" := ⟨nofun, List.forall_mem_singleton.2 rfl⟩

theorem proper_int : Lexeme.Proper ⟨.int, "0"⟩ :=
  @Number.IsNumber.intro [] "0" [] [] (.inl rfl) ⟨areDigits_zero, fun _ => rfl⟩ .absent .absent

theorem proper_float : Lexeme.Proper ⟨.float, "0.0"⟩ :=
  @Number.IsNumber.intro [] "0" ".0" [] (.inl rfl) ⟨areDigits_zero, fun _ => rfl⟩ (.digits areDigits_zero) .absent

theorem proper_blockString : Lexeme.Proper ⟨.blockString, []⟩ := ⟨[], rfl, ⟨nofun, nofun, nofun⟩, nofun⟩

mutual

theorem IsValue.mend {ls : List Lexeme} {value : Value} : IsValue isConst ls value → Mendable (IsValue isConst) ls
  | .var free derives => by
      obtain ⟨ls', v, mends, derives, -⟩ := derives.mend
      exact ⟨ls', _, mends, .var free derives, trivial⟩
  | .int text => by
      obtain ⟨text', mends, -⟩ := exists_mends .int text "0" proper_int
      exact ⟨_, _, .cons mends .nil, .int text', trivial⟩
  | .float text => by
      obtain ⟨text', mends, -⟩ := exists_mends .float text "0.0" proper_float
      exact ⟨_, _, .cons mends .nil, .float text', trivial⟩
  | .string text => by
      obtain ⟨text', mends, -⟩ := exists_mends .string text [] .nil
      exact ⟨_, _, .cons mends .nil, .string text', trivial⟩
  | .blockString text => by
      obtain ⟨text', mends, -⟩ := exists_mends .blockString text [] proper_blockString
      exact ⟨_, _, .cons mends .nil, .blockString text', trivial⟩
  | .boolean b => by
      have named : IsNameText (if b then "true" else "false") := by cases b <;> decide
      exact ⟨_, _, .cons (.of_proper named) .nil, .boolean b, trivial⟩
  | .null => ⟨_, _, .cons (.of_proper (show IsNameText "null" by decide)) .nil, .null, trivial⟩
  | @IsValue.enum _ text free => by
      obtain ⟨text', mends, same⟩ := exists_mends_word text
      refine ⟨_, _, .cons mends .nil, .enum ?_, trivial⟩
      obtain rfl | rfl := same
      · exact free
      · decide
  | .list derives => by
      obtain ⟨ls', values, mends, derives, -⟩ := areValues_mend derives
      exact ⟨_, _, mends_between trivial mends trivial, .list derives, trivial⟩
  | .object derives => by
      obtain ⟨ls', fields, mends, derives, -⟩ := areObjectFields_mend derives
      exact ⟨_, _, mends_between trivial mends trivial, .object derives, trivial⟩

theorem areValues_mend {ls : List Lexeme} {values : List Value} :
    Sequence (IsValue isConst) ls values → Mendable (Sequence (IsValue isConst)) ls
  | .nil => ⟨_, _, .nil, .nil, trivial⟩
  | .cons first rest => by
      obtain ⟨ls₁, value, mends₁, derives₁, -⟩ := first.mend
      obtain ⟨ls₂, values, mends₂, derives₂, -⟩ := areValues_mend rest
      exact ⟨_, _, List.rel_append mends₁ mends₂, .cons derives₁ derives₂, trivial⟩

theorem IsObjectField.mend {ls : List Lexeme} {field : ObjectField} :
    IsObjectField isConst ls field → Mendable (IsObjectField isConst) ls
  | .intro text derives => by
      obtain ⟨text', name, -⟩ := exists_mends_word text
      obtain ⟨ls', value, mends, derives, -⟩ := derives.mend
      exact ⟨_, _, .cons name (.cons (.of_proper trivial) mends), .intro text' derives, trivial⟩

theorem areObjectFields_mend {ls : List Lexeme} {fields : List ObjectField} :
    Sequence (IsObjectField isConst) ls fields → Mendable (Sequence (IsObjectField isConst)) ls
  | .nil => ⟨_, _, .nil, .nil, trivial⟩
  | .cons first rest => by
      obtain ⟨ls₁, field, mends₁, derives₁, -⟩ := first.mend
      obtain ⟨ls₂, fields, mends₂, derives₂, -⟩ := areObjectFields_mend rest
      exact ⟨_, _, List.rel_append mends₁ mends₂, .cons derives₁ derives₂, trivial⟩

end

theorem IsArgument.mend {argument : Argument} (derives : IsArgument isConst ls argument) : Mendable (IsArgument isConst) ls := by
  obtain ⟨text, derives⟩ := derives
  obtain ⟨text', name, -⟩ := exists_mends_word text
  obtain ⟨ls', value, mends, derives, -⟩ := derives.mend
  exact ⟨_, _, .cons name (.cons (.of_proper trivial) mends), .intro text' derives, trivial⟩

theorem IsDirective.mend {directive : Directive} (derives : IsDirective isConst ls directive) :
    Mendable (IsDirective isConst) ls := by
  obtain ⟨text, derives⟩ := derives
  obtain ⟨text', name, -⟩ := exists_mends_word text
  obtain ⟨ls', arguments, mends, derives, -⟩ := derives.mend fun _ _ => IsArgument.mend
  exact ⟨_, _, .cons (.of_proper trivial) (.cons name mends), .intro text' derives, trivial⟩

theorem AreDirectives.mend {directives : List Directive} (derives : AreDirectives isConst ls directives) :
    Mendable (AreDirectives isConst) ls := by
  obtain ⟨ls', directives, mends, derives, -⟩ := Sequence.mend (fun _ _ => IsDirective.mend) derives
  exact ⟨ls', directives, mends, derives, trivial⟩

theorem IsNamedType.mend {type : NamedType} (derives : IsNamedType ls type) : Mendable IsNamedType ls := by
  obtain ⟨text⟩ := derives
  obtain ⟨text', mends, -⟩ := exists_mends_word text
  exact ⟨_, _, .cons mends .nil, .intro text', trivial⟩

theorem IsTypeRef.mend {type : TypeRef} (derives : IsTypeRef ls type) :
    Mendable IsTypeRef ls (·.isNonNull = type.isNonNull) := by
  induction derives with
  | named derives =>
      obtain ⟨ls', type', mends, derives', -⟩ := derives.mend
      exact ⟨ls', _, mends, .named derives', rfl⟩
  | list _ ih =>
      obtain ⟨ls', item, mends, derives, -⟩ := ih
      exact ⟨_, _, mends_between trivial mends trivial, .list derives, rfl⟩
  | nonNull _ nullable ih =>
      obtain ⟨ls', type', mends, derives, same⟩ := ih
      exact ⟨_, _, List.rel_append mends (.cons (.of_proper trivial) .nil), .nonNull derives (same.trans nullable), rfl⟩

mutual

theorem IsModifier.mend {ls : List Lexeme} {element : Option Modifier} : IsModifier ls element → Mendable IsModifier ls
  | .unmarked derives => by
      obtain ⟨ls', element, mends, derives, -⟩ := derives.mend
      exact ⟨ls', element, mends, .unmarked derives, trivial⟩
  | .required derives => by
      obtain ⟨ls', element, mends, derives, -⟩ := derives.mend
      exact ⟨_, _, List.rel_append mends (.cons (.of_proper trivial) .nil), .required derives, trivial⟩
  | .optional derives => by
      obtain ⟨ls', element, mends, derives, -⟩ := derives.mend
      exact ⟨_, _, List.rel_append mends (.cons (.of_proper trivial) .nil), .optional derives, trivial⟩

theorem IsBrackets.mend {ls : List Lexeme} {element : Option Modifier} : IsBrackets ls element → Mendable IsBrackets ls
  | .absent => ⟨_, _, .nil, .absent, trivial⟩
  | .list derives => by
      obtain ⟨ls', element, mends, derives, -⟩ := derives.mend
      exact ⟨_, _, mends_between trivial mends trivial, .list derives, trivial⟩

end

theorem IsFieldName.mend {names : Option Name × Name} (derives : IsFieldName ls names) : Mendable IsFieldName ls := by
  cases derives with
  | plain text =>
      obtain ⟨text', mends, -⟩ := exists_mends_word text
      exact ⟨_, _, .cons mends .nil, .plain text', trivial⟩
  | renamed text text' =>
      obtain ⟨_, mends, -⟩ := exists_mends_word text
      obtain ⟨_, mends', -⟩ := exists_mends_word text'
      exact ⟨_, _, .cons mends (.cons (.of_proper trivial) (.cons mends' .nil)), .renamed _ _, trivial⟩

theorem exists_mends_fragmentName {text : Text} (proper : text ≠ "on") :
    ∃ text', Mends (word text) (word text') ∧ text' ≠ "on" := by
  obtain ⟨text', mends, rfl | rfl⟩ := exists_mends_word text
  · exact ⟨text', mends, proper⟩
  · exact ⟨"a", mends, by decide⟩

theorem IsFragmentSpread.mend {spread : FragmentSpread} (derives : IsFragmentSpread ls spread) :
    Mendable IsFragmentSpread ls := by
  obtain ⟨proper, derives⟩ := derives
  obtain ⟨text', name, proper'⟩ := exists_mends_fragmentName proper
  obtain ⟨ls', directives, mends, derives, -⟩ := AreDirectives.mend derives
  exact ⟨_, _, .cons (.of_proper trivial) (.cons name mends), .intro proper' derives, trivial⟩

theorem IsTypeCondition.mend {type : NamedType} (derives : IsTypeCondition ls type) : Mendable IsTypeCondition ls := by
  obtain ⟨text⟩ := derives
  obtain ⟨text', mends, -⟩ := exists_mends_word text
  have keyword : IsNameText "on" := by decide
  exact ⟨_, _, .cons (.of_proper keyword) (.cons mends .nil), .intro text', trivial⟩

mutual

theorem IsField.mend {ls : List Lexeme} {field : Field} : IsField ls field → Mendable IsField ls
  | .intro names arguments modifier directives set => by
      obtain ⟨_, ⟨_, _⟩, mends₁, names, -⟩ := names.mend
      obtain ⟨_, _, mends₂, arguments, -⟩ := arguments.mend fun _ _ => IsArgument.mend
      obtain ⟨_, _, mends₃, modifier, -⟩ := modifier.mend
      obtain ⟨_, _, mends₄, directives, -⟩ := AreDirectives.mend directives
      obtain ⟨_, _, mends₅, set, -⟩ := maybeSet_mend set
      exact ⟨_, _, List.rel_append mends₁ (List.rel_append mends₂ (List.rel_append mends₃ (List.rel_append mends₄ mends₅))),
        .intro names arguments modifier directives set, trivial⟩

theorem maybeSet_mend {ls : List Lexeme} {set : Option SelectionSet} :
    Maybe IsSelectionSet ls set → Mendable (Maybe IsSelectionSet) ls
  | .absent => ⟨_, _, .nil, .absent, trivial⟩
  | .present derives => by
      obtain ⟨_, set, mends, derives, -⟩ := derives.mend
      exact ⟨_, _, mends, .present derives, trivial⟩

theorem IsInlineFragment.mend {ls : List Lexeme} {f : InlineFragment} : IsInlineFragment ls f → Mendable IsInlineFragment ls
  | .intro condition directives set => by
      obtain ⟨_, _, mends₁, condition, -⟩ := condition.mend fun _ _ => IsTypeCondition.mend
      obtain ⟨_, _, mends₂, directives, -⟩ := AreDirectives.mend directives
      obtain ⟨_, _, mends₃, set, -⟩ := set.mend
      exact ⟨_, _, .cons (.of_proper trivial) (List.rel_append mends₁ (List.rel_append mends₂ mends₃)),
        .intro condition directives set, trivial⟩

theorem IsSelection.mend {ls : List Lexeme} {selection : Selection} : IsSelection ls selection → Mendable IsSelection ls
  | .field derives => by
      obtain ⟨_, _, mends, derives, -⟩ := derives.mend
      exact ⟨_, _, mends, .field derives, trivial⟩
  | .spread derives => by
      obtain ⟨_, _, mends, derives, -⟩ := derives.mend
      exact ⟨_, _, mends, .spread derives, trivial⟩
  | .inline derives => by
      obtain ⟨_, _, mends, derives, -⟩ := derives.mend
      exact ⟨_, _, mends, .inline derives, trivial⟩

theorem areSelections_mend {ls : List Lexeme} {selections : List Selection} :
    Sequence IsSelection ls selections → Mendable (Sequence IsSelection) ls (·.length = selections.length)
  | .nil => ⟨_, _, .nil, .nil, rfl⟩
  | .cons first rest => by
      obtain ⟨_, _, mends₁, derives₁, -⟩ := first.mend
      obtain ⟨_, _, mends₂, derives₂, length⟩ := areSelections_mend rest
      exact ⟨_, _, List.rel_append mends₁ mends₂, .cons derives₁ derives₂, by simp [length]⟩

theorem IsSelectionSet.mend {ls : List Lexeme} {set : SelectionSet} : IsSelectionSet ls set → Mendable IsSelectionSet ls
  | .intro derives filled => by
      obtain ⟨_, selections, mends, derives, length⟩ := areSelections_mend derives
      refine ⟨_, _, mends_between trivial mends trivial, .intro derives ?_, trivial⟩
      rwa [ne_eq, ← List.length_eq_zero_iff, length, List.length_eq_zero_iff]

end

theorem IsDefault.mend {value : Value} (derives : IsDefault ls value) : Mendable IsDefault ls := by
  obtain ⟨derives⟩ := derives
  obtain ⟨_, _, mends, derives, -⟩ := derives.mend
  exact ⟨_, _, .cons (.of_proper trivial) mends, .intro derives, trivial⟩

theorem IsVariableDefinition.mend {definition : VariableDefinition} (derives : IsVariableDefinition ls definition) :
    Mendable IsVariableDefinition ls := by
  obtain ⟨var, type, value, directives⟩ := derives
  obtain ⟨_, _, mends₁, var, -⟩ := var.mend
  obtain ⟨_, _, mends₂, type, -⟩ := type.mend
  obtain ⟨_, _, mends₃, value, -⟩ := value.mend fun _ _ => IsDefault.mend
  obtain ⟨_, _, mends₄, directives, -⟩ := AreDirectives.mend directives
  exact ⟨_, _, List.rel_append mends₁ (.cons (.of_proper trivial) (List.rel_append mends₂ (List.rel_append mends₃ mends₄))),
    .intro var type value directives, trivial⟩

theorem AreVariableDefinitions.mend {definitions : List VariableDefinition}
    (derives : AreVariableDefinitions ls definitions) : Mendable AreVariableDefinitions ls :=
  Parenthesized.mend (fun _ _ => IsVariableDefinition.mend) derives

theorem IsName.mend {name : Name} (derives : IsName ls name) : Mendable IsName ls := by
  obtain ⟨text⟩ := derives
  obtain ⟨text', mends, -⟩ := exists_mends_word text
  exact ⟨_, _, .cons mends .nil, .intro text', trivial⟩

theorem IsOperation.mend {operation : Operation} (derives : IsOperation ls operation) : Mendable IsOperation ls := by
  cases derives with
  | shorthand set =>
      obtain ⟨_, _, mends, set, -⟩ := set.mend
      exact ⟨_, _, mends, .shorthand set, trivial⟩
  | intro type name definitions directives set =>
      obtain ⟨_, _, mends₁, name, -⟩ := name.mend fun _ _ => IsName.mend
      obtain ⟨_, _, mends₂, definitions, -⟩ := definitions.mend
      obtain ⟨_, _, mends₃, directives, -⟩ := AreDirectives.mend directives
      obtain ⟨_, _, mends₄, set, -⟩ := set.mend
      have keyword : IsNameText type.text := by cases type <;> decide
      exact ⟨_, _, .cons (.of_proper keyword) (List.rel_append mends₁ (List.rel_append mends₂ (List.rel_append mends₃ mends₄))),
        .intro type name definitions directives set, trivial⟩

theorem AreFragmentVariables.mend {definitions : Option (List VariableDefinition)}
    (derives : AreFragmentVariables allowVariables ls definitions) : Mendable (AreFragmentVariables allowVariables) ls := by
  cases derives with
  | excluded => exact ⟨_, _, .nil, .excluded, trivial⟩
  | allowed derives =>
      obtain ⟨_, _, mends, derives, -⟩ := derives.mend
      exact ⟨_, _, mends, .allowed derives, trivial⟩

theorem IsFragment.mend {fragment : Fragment} (derives : IsFragment allowVariables ls fragment) :
    Mendable (IsFragment allowVariables) ls := by
  obtain ⟨proper, definitions, condition, directives, set⟩ := derives
  obtain ⟨_, name, proper'⟩ := exists_mends_fragmentName proper
  obtain ⟨_, _, mends₁, definitions, -⟩ := definitions.mend
  obtain ⟨_, _, mends₂, condition, -⟩ := condition.mend
  obtain ⟨_, _, mends₃, directives, -⟩ := AreDirectives.mend directives
  obtain ⟨_, _, mends₄, set, -⟩ := set.mend
  have keyword : IsNameText "fragment" := by decide
  exact ⟨_, _, .cons (.of_proper keyword) (.cons name
      (List.rel_append mends₁ (List.rel_append mends₂ (List.rel_append mends₃ mends₄)))),
    .intro proper' definitions condition directives set, trivial⟩

theorem IsDefinition.mend {definition : Definition} (derives : IsDefinition allowVariables ls definition) :
    Mendable (IsDefinition allowVariables) ls := by
  cases derives with
  | operation derives =>
      obtain ⟨_, _, mends, derives, -⟩ := derives.mend
      exact ⟨_, _, mends, .operation derives, trivial⟩
  | fragment derives =>
      obtain ⟨_, _, mends, derives, -⟩ := derives.mend
      exact ⟨_, _, mends, .fragment derives, trivial⟩

theorem IsDocument.mend {document : Document} (derives : IsDocument allowVariables ls document) :
    Mendable (IsDocument allowVariables) ls := by
  obtain ⟨derives, some⟩ := derives
  obtain ⟨_, definitions, mends, derives, length⟩ := derives.mend fun _ _ => IsDefinition.mend
  refine ⟨_, _, mends, .intro derives ?_, trivial⟩
  rwa [ne_eq, ← List.length_eq_zero_iff, length, List.length_eq_zero_iff]

theorem mends_keeps {rest ls' : List Lexeme} (mends : List.Forall₂ Mends (ls ++ rest) ls') (proper : ∀ l ∈ ls, l.Proper) :
    ls <+: ls' := by
  induction ls generalizing ls' with
  | nil => exact List.nil_prefix
  | cons l ls ih =>
      obtain ⟨first, others⟩ := List.forall_mem_cons.1 proper
      cases mends with
      | cons mend mends =>
          rw [mend.keeps first]
          exact (List.prefix_cons_inj l).2 (ih mends others)

theorem Viable.proper (mend : ∀ ⦃ls part⦄, G ls part → Mendable G ls) (viable : Viable G ls) (proper : ∀ l ∈ ls, l.Proper) :
    ∃ ls' part, (∀ l ∈ ls', l.Proper) ∧ G ls' part ∧ ls <+: ls' := by
  obtain ⟨rest, part, derives⟩ := viable
  obtain ⟨ls', part', mends, derives', -⟩ := mend derives
  refine ⟨ls', part', fun l member => ?_, derives', mends_keeps mends proper⟩
  obtain ⟨i, within, rfl⟩ := List.getElem_of_mem member
  exact (mends.get (mends.length_eq ▸ within) within).proper

end QueryPlanner.Grammar
