import QueryPlanner.Document.Printer
import QueryPlanner.Proofs.Document.Writing
import QueryPlanner.Proofs.Parser.Definitions

namespace QueryPlanner
open CodeUnit Grammar
open Lexeme (mark word)
open Text (joinFilled wrap)

def Writable (render : α → Text) (G : List Lexeme → α → Prop) (k : Nat) : Prop :=
  ∀ ⦃ls part⦄, ls.length ≤ k → (∀ l ∈ ls, l.Proper) → G ls part → Writes (render part) ls

/-- Parts with proper derivations are written by the tokens of derivations that are no longer. -/
def Written (render : α → Text) (G : List Lexeme → α → Prop) : Prop :=
  ∀ ⦃ls part⦄, (∀ l ∈ ls, l.Proper) → G ls part → ∃ ls', G ls' part ∧ Writes (render part) ls' ∧ ls'.length ≤ ls.length

theorem Writable.written {α : Type} {render : α → Text} {G : List Lexeme → α → Prop} (writable : ∀ k, Writable render G k) : Written render G :=
  fun _ _ proper derives => ⟨_, derives, writable _ (Nat.le_refl _) proper derives, Nat.le_refl _⟩

@[simp] theorem renderValues_eq_map (values : List Value) : renderValues values = values.map Value.render := by
  induction values with
  | nil => rfl
  | cons v rest ih => rw [renderValues, ih, List.map_cons]

@[simp] theorem renderObjectFields_eq_map (fields : List ObjectField) :
    renderObjectFields fields = fields.map ObjectField.render := by
  induction fields with
  | nil => rfl
  | cons f rest ih => rw [renderObjectFields, ih, List.map_cons]

@[simp] theorem renderSelections_eq_map (selections : List Selection) :
    renderSelections selections = selections.map Selection.render := by
  induction selections with
  | nil => rfl
  | cons s rest ih => rw [renderSelections, ih, List.map_cons]

namespace Writes

theorem isSeparator_space : IsSeparator (" " : String) := .of_all (by decide)

theorem isSeparator_comma : IsSeparator (", " : String) := .of_all (by decide)

theorem isSeparator_line : IsSeparator ("\n" : String) := .of_all (by decide)

theorem isSeparator_lines : IsSeparator ("\n\n" : String) := .of_all (by decide)

variable {name value text : Text} {ls : List Lexeme}

theorem labelled (isName : IsNameText name) (writes : Writes value ls) (some : ls ≠ []) :
    Writes (name ++ ": " ++ value) (Lexeme.word name :: mark .colon :: ls) := by
  have split : (((": " : String) : Text)) = TokenKind.colon.text ++ ((" " : String) : Text) := by decide
  rw [split, List.append_assoc, List.append_assoc]
  exact (Writes.word isName).append (mark_append .colon rfl (separator_append isSeparator_space writes some))
    (Boundary.mark .colon rfl (by decide) _)

theorem block (opening close : TokenKind) (opens : opening.isPunctuator = true) (closes : close.isPunctuator = true)
    (noDots : close ≠ .spread) (writes : Writes text ls) (some : ls ≠ []) :
    Writes (wrap (opening.text ++ ("\n" : String)) (Text.indent text) (("\n" : String) ++ close.text))
      (mark opening :: (ls ++ [mark close])) := by
  have indented := writes.indent
  rw [wrap_of_ne_nil (mt indented.eq_nil_iff.1 some), List.append_assoc, List.append_assoc]
  exact .enclosed _ opening close opens closes noDots isSeparator_line indented fun _ => some

end Writes

variable {α : Type} {render : α → Text} {G : List Lexeme → α → Prop} {kinds : List TokenKind} {sep : Text} {k : Nat}

theorem Writable.sequence (separates : Writes.IsSeparator sep) (more : sep ≠ []) (writable : Writable render G k) :
    Writable (fun parts => joinFilled sep (parts.map render)) (Sequence G) k := by
  intro ls parts short proper derives
  induction derives with
  | nil => exact .nil
  | cons first _ ih =>
      rw [List.length_append] at short
      rw [List.forall_mem_append] at proper
      exact .join separates more (writable (by omega) proper.1 first) (ih (by omega) proper.2)

theorem Writable.maybe (writable : Writable render G k) :
    Writable (fun part => (part.map render).getD []) (Maybe G) k := by
  intro ls part short proper derives
  cases derives with
  | absent => exact .nil
  | present derives => exact writable short proper derives

theorem sequence_ne_nil (begins : BeginsWith G kinds) {ls : List Lexeme} {parts : List α} (derives : Sequence G ls parts)
    (some : parts ≠ []) : ls ≠ [] := by
  rintro rfl
  exact some (List.eq_nil_of_length_eq_zero (Nat.le_zero.1 (derives.length_le begins)))

theorem Writable.parenthesized (begins : BeginsWith G kinds) (writable : Writable render G k) :
    Writable (fun parts => wrap "(" (joinFilled ", " (parts.map render)) ")") (Parenthesized G) k := by
  intro ls parts short proper derives
  cases derives with
  | absent => exact .nil
  | present derives some =>
      simp only [List.length_cons, List.length_append, List.length_nil, List.forall_mem_cons, List.forall_mem_append] at short proper
      have writes := writable.sequence Writes.isSeparator_comma (by decide) (by omega) proper.2.1 derives
      have present := mt writes.eq_nil_iff.1 (sequence_ne_nil begins derives some)
      dsimp only at writes present ⊢
      rw [Writes.wrap_of_ne_nil present, List.append_assoc]
      exact .enclosed [] .parenOpen .parenClose rfl rfl (by decide) nofun writes nofun

theorem word_writes {text : Text} (proper : (Lexeme.word text).Proper) : Writes text [word text] := .word proper

theorem isName_writable (k : Nat) : Writable Name.render IsName k := by
  rintro _ _ - proper ⟨text⟩
  exact word_writes (proper _ (List.mem_singleton_self _))

theorem isVariable_writable (k : Nat) : Writable Variable.render IsVariable k := by
  rintro _ _ - proper ⟨text⟩
  exact .mark_append .dollar rfl (word_writes (proper (word text) (by simp)))

theorem isObjectField_writable {isConst : Bool} (values : Writable Value.render (IsValue isConst) k) :
    Writable ObjectField.render (IsObjectField isConst) k := by
  intro ls field short proper derives
  cases derives with
  | intro text derives =>
      simp only [List.length_cons, List.forall_mem_cons] at short proper
      exact .labelled proper.1 (values (by omega) proper.2.2 derives) (List.ne_nil_of_length_pos
        ((IsValue.begins isConst).length_pos derives))

theorem isValue_writable (isConst : Bool) (k : Nat) : Writable Value.render (IsValue isConst) k := by
  -- The parts of a list or object are written by fewer tokens.
  induction k with
  | zero =>
      intro ls value short _ derives
      exact absurd ((IsValue.begins isConst).length_pos derives) (Nat.not_lt.2 short)
  | succ k ih =>
      intro ls value short proper derives
      cases derives with
      | var _ derives => exact isVariable_writable _ short proper derives
      | int text => exact .number (proper _ (List.mem_singleton_self _))
      | float text => exact .number (proper _ (List.mem_singleton_self _))
      | string text => exact .string (proper _ (List.mem_singleton_self _))
      | blockString text => exact .blockString (proper _ (List.mem_singleton_self _))
      | boolean b => cases b <;> exact word_writes (proper _ (List.mem_singleton_self _))
      | null => exact word_writes (proper _ (List.mem_singleton_self _))
      | enum => exact word_writes (proper _ (List.mem_singleton_self _))
      | list derives =>
          simp only [List.length_cons, List.length_append, List.length_nil, List.forall_mem_cons,
            List.forall_mem_append] at short proper
          have items := ih.sequence Writes.isSeparator_comma (by decide) (by omega) proper.2.1 derives
          rw [Value.render, renderValues_eq_map, List.append_assoc]
          exact .enclosed [] .bracketOpen .bracketClose rfl rfl (by decide) nofun items nofun
      | object derives =>
          simp only [List.length_cons, List.length_append, List.length_nil, List.forall_mem_cons,
            List.forall_mem_append] at short proper
          have fields := (isObjectField_writable ih).sequence Writes.isSeparator_comma (by decide) (by omega) proper.2.1
            derives
          rw [Value.render, renderObjectFields_eq_map, List.append_assoc]
          exact .enclosed [] .braceOpen .braceClose rfl rfl (by decide) nofun fields nofun

theorem isArgument_writable (isConst : Bool) (k : Nat) : Writable Argument.render (IsArgument isConst) k := by
  intro ls argument short proper derives
  cases derives with
  | intro text derives =>
      simp only [List.length_cons, List.forall_mem_cons] at short proper
      exact .labelled proper.1 (isValue_writable isConst k (by omega) proper.2.2 derives) (List.ne_nil_of_length_pos
        ((IsValue.begins isConst).length_pos derives))

theorem boundary_wrap_paren (text : Text) : Boundary (wrap "(" text ")") := by
  unfold wrap
  split_ifs
  · exact .nil
  · rw [List.append_assoc]
    exact Boundary.mark .parenOpen rfl (by decide) _

theorem isDirective_writable (isConst : Bool) (k : Nat) : Writable Directive.render (IsDirective isConst) k := by
  intro ls directive short proper derives
  cases derives with
  | intro text derives =>
      simp only [List.length_cons, List.forall_mem_cons] at short proper
      have arguments := (isArgument_writable isConst k).parenthesized (IsArgument.begins isConst) (by omega) proper.2.2
        derives
      rw [Directive.render, List.append_assoc]
      exact .mark_append .atSign rfl ((word_writes proper.2.1).append arguments (boundary_wrap_paren _))

theorem areDirectives_writable (isConst : Bool) (k : Nat) : Writable renderDirectives (AreDirectives isConst) k :=
  (isDirective_writable isConst k).sequence Writes.isSeparator_space (by decide)

theorem isNamedType_writable (k : Nat) : Writable NamedType.render IsNamedType k := by
  rintro _ _ - proper ⟨text⟩
  exact word_writes (proper _ (List.mem_singleton_self _))

theorem isTypeRef_writable (k : Nat) : Writable TypeRef.render IsTypeRef k := by
  intro ls type short proper derives
  induction derives with
  | named derives => exact isNamedType_writable k short proper derives
  | list derives ih =>
      simp only [List.length_cons, List.length_append, List.length_nil, List.forall_mem_cons,
        List.forall_mem_append] at short proper
      rw [TypeRef.render, List.append_assoc]
      exact .enclosed [] .bracketOpen .bracketClose rfl rfl (by decide) nofun (ih (by omega) proper.2.1) nofun
  | nonNull derives _ ih =>
      rw [List.length_append] at short
      rw [List.forall_mem_append] at proper
      exact (ih (by omega) proper.1).append_mark .bang rfl (by decide)

mutual

theorem isModifier_writes {ls : List Lexeme} {element : Option Modifier} :
    IsModifier ls element → Writes (renderElement element) ls
  | .unmarked derives => isBrackets_writes derives
  | .required derives => (isBrackets_writes derives).append_mark .bang rfl (by decide)
  | .optional derives => (isBrackets_writes derives).append_mark .questionMark rfl (by decide)

theorem isBrackets_writes {ls : List Lexeme} {element : Option Modifier} :
    IsBrackets ls element → Writes (renderElement element) ls
  | .absent => .nil
  | .list derives => by
      rw [renderElement, Modifier.render, List.append_assoc]
      exact .enclosed [] .bracketOpen .bracketClose rfl rfl (by decide) nofun (isModifier_writes derives) nofun

end

theorem boundary_mark (kind : TokenKind) (punctuator : kind.isPunctuator = true) (noDots : kind ≠ .spread) :
    Boundary kind.text := by
  have := Boundary.mark kind punctuator noDots []
  rwa [List.append_nil] at this

theorem boundary_brackets {ls : List Lexeme} {element : Option Modifier} (derives : IsBrackets ls element) :
    Boundary (renderElement element) := by
  cases derives with
  | absent => exact .nil
  | list _ =>
      rw [renderElement, Modifier.render, List.append_assoc]
      exact .mark .bracketOpen rfl (by decide) _

theorem boundary_modifier {ls : List Lexeme} {element : Option Modifier} (derives : IsModifier ls element) :
    Boundary (renderElement element) := by
  cases derives with
  | unmarked derives => exact boundary_brackets derives
  | required derives => exact (boundary_brackets derives).append (boundary_mark .bang rfl (by decide))
  | optional derives => exact (boundary_brackets derives).append (boundary_mark .questionMark rfl (by decide))

def renderCalled (names : Option Name × Name) : Text :=
  wrap [] ((names.1.map Name.render).getD []) ": " ++ names.2.render

theorem isFieldName_writable (k : Nat) : Writable renderCalled IsFieldName k := by
  intro ls names _ proper derives
  cases derives with
  | plain text => exact word_writes (proper _ (List.mem_singleton_self _))
  | renamed text text' =>
      simp only [List.forall_mem_cons] at proper
      have first : IsNameText text := proper.1
      have present : text ≠ [] := by
        obtain ⟨u, rest, rfl, -⟩ := first
        exact List.cons_ne_nil u rest
      have written : renderCalled (some { text }, { text := text' }) = text ++ ": " ++ text' := by
        change wrap [] text ": " ++ text' = _
        rw [Writes.wrap_of_ne_nil present, List.nil_append]
      rw [written]
      exact .labelled first (word_writes proper.2.2.1) (List.cons_ne_nil _ _)

theorem renderCall_writable {name : Text} {names as : List Lexeme} {arguments : List Argument} (named : Writes name names)
    (short : as.length ≤ k) (proper : ∀ l ∈ as, l.Proper) (derives : Parenthesized (IsArgument false) as arguments) :
    Writes (renderCall name (arguments.map Argument.render)) (names ++ as) := by
  unfold renderCall
  dsimp only
  split_ifs
  · have arguments : Writes (wrap "(\n" (Text.indent (joinFilled "\n" (arguments.map Argument.render))) "\n)") as ∧
        Boundary (wrap "(\n" (Text.indent (joinFilled "\n" (arguments.map Argument.render))) "\n)") := by
      cases derives with
      | absent => exact ⟨.nil, .nil⟩
      | present derives some =>
          simp only [List.length_cons, List.length_append, List.length_nil, List.forall_mem_cons,
            List.forall_mem_append] at short proper
          have items := (isArgument_writable false k).sequence Writes.isSeparator_line (by decide) (by omega) proper.2.1
            derives
          have present := sequence_ne_nil (IsArgument.begins false) derives some
          have opening : ((("(\n" : String) : Text)) = TokenKind.parenOpen.text ++ (("\n" : String) : Text) := by
            decide
          have closing : ((("\n)" : String) : Text)) = (("\n" : String) : Text) ++ TokenKind.parenClose.text := by
            decide
          rw [opening, closing]
          refine ⟨Writes.block .parenOpen .parenClose rfl rfl (by decide) items present, ?_⟩
          rw [Writes.wrap_of_ne_nil (mt items.indent.eq_nil_iff.1 present), List.append_assoc, List.append_assoc]
          exact .mark .parenOpen rfl (by decide) _
    exact named.append arguments.1 arguments.2
  · exact named.append ((isArgument_writable false k).parenthesized (IsArgument.begins false) short proper derives)
      (boundary_wrap_paren _)

theorem isFragmentSpread_writable (k : Nat) : Writable FragmentSpread.render IsFragmentSpread k := by
  intro ls spread short proper derives
  cases derives with
  | intro _ derives =>
      simp only [List.length_cons, List.forall_mem_cons] at short proper
      have directives := areDirectives_writable false k (by omega) proper.2.2 derives
      obtain ⟨directives, opens⟩ := Writes.separated Writes.isSeparator_space (by decide) directives
      rw [FragmentSpread.render, List.append_assoc]
      exact .mark_append .spread rfl ((word_writes proper.2.1).append directives opens)

theorem isTypeCondition_writable (k : Nat) :
    Writable (fun type => wrap "on " (NamedType.render type) []) IsTypeCondition k := by
  rintro _ _ - proper ⟨text⟩
  simp only [List.forall_mem_cons] at proper
  have type := word_writes proper.2.1
  have split : ((("on " : String) : Text)) = (("on" : String) : Text) ++ ((" " : String) : Text) := by decide
  have present : NamedType.render { name := { text } } ≠ [] := mt type.eq_nil_iff.1 (List.cons_ne_nil _ _)
  dsimp only
  rw [Writes.wrap_of_ne_nil present, split, List.append_nil, List.append_assoc]
  exact .append_separated Writes.isSeparator_space (by decide) (word_writes proper.1) type (List.cons_ne_nil _ _)

theorem Field.render_mk (responseName : Option Name) (name : Name) (arguments : List Argument) (modifier : Option Modifier)
    (directives : List Directive) (set : Option SelectionSet) (loc : Option Location) :
    Field.render ⟨responseName, name, arguments, modifier, directives, set, loc⟩ =
      joinFilled " " [renderCall (renderCalled (responseName, name)) (arguments.map Argument.render) ++
        renderElement modifier, renderDirectives directives, (set.map SelectionSet.render).getD []] := by
  cases set <;> rfl

theorem isField_writable (sets : Writable SelectionSet.render IsSelectionSet k) : Writable Field.render IsField k := by
  intro ls field short proper derives
  cases derives with
  | @intro names as ms ds ls responseName name arguments modifier directives set named called modified directed selected =>
      simp only [List.length_append, List.forall_mem_append] at short proper
      have named := isFieldName_writable k (by omega) proper.1 named
      have called := renderCall_writable named (k := k) (by omega) proper.2.1 called
      have directives := areDirectives_writable false k (by omega) proper.2.2.2.1 directed
      have set := sets.maybe (by omega) proper.2.2.2.2 selected
      have head := called.append (isModifier_writes modified) (boundary_modifier modified)
      have last : Writes (joinFilled " " []) [] := .nil
      have whole := head.join Writes.isSeparator_space (by decide) (directives.join Writes.isSeparator_space (by decide)
        (set.join Writes.isSeparator_space (by decide) last))
      rw [Field.render_mk]
      simpa only [List.append_assoc, List.append_nil] using whole

theorem isInlineFragment_writable (sets : Writable SelectionSet.render IsSelectionSet k) :
    Writable InlineFragment.render IsInlineFragment k := by
  intro ls fragment short proper derives
  cases derives with
  | @intro ts ds ls type directives set typed directed selected =>
      simp only [List.length_cons, List.length_append, List.forall_mem_cons, List.forall_mem_append] at short proper
      have typed := (isTypeCondition_writable k).maybe (by omega) proper.2.1 typed
      have condition : (type.map fun type => wrap "on " (NamedType.render type) []).getD [] =
          wrap "on " ((type.map NamedType.render).getD []) [] := by cases type <;> rfl
      have directives := areDirectives_writable false k (by omega) proper.2.2.1 directed
      have set := sets (by omega) proper.2.2.2 selected
      have dots : Writes "..." [mark .spread] := Writes.ofMark .spread rfl
      have last : Writes (joinFilled " " []) [] := .nil
      dsimp only at typed
      rw [condition] at typed
      have whole := dots.join Writes.isSeparator_space (by decide) (typed.join Writes.isSeparator_space (by decide)
        (directives.join Writes.isSeparator_space (by decide) (set.join Writes.isSeparator_space (by decide) last)))
      rw [InlineFragment.render]
      simpa only [List.append_nil, List.singleton_append] using whole

theorem isSelection_writable (sets : Writable SelectionSet.render IsSelectionSet k) :
    Writable Selection.render IsSelection k := by
  intro ls selection short proper derives
  cases derives with
  | field derives => exact isField_writable sets short proper derives
  | spread derives => exact isFragmentSpread_writable k short proper derives
  | inline derives => exact isInlineFragment_writable sets short proper derives

theorem isSelectionSet_writable (k : Nat) : Writable SelectionSet.render IsSelectionSet k := by
  induction k with
  | zero =>
      intro ls set short _ derives
      exact absurd (IsSelectionSet.begins.length_pos derives) (Nat.not_lt.2 short)
  | succ k ih =>
      intro ls set short proper derives
      cases derives with
      | @intro ls selections derives some =>
          simp only [List.length_cons, List.length_append, List.length_nil, List.forall_mem_cons,
            List.forall_mem_append] at short proper
          have items := (isSelection_writable ih).sequence Writes.isSeparator_line (by decide) (by omega) proper.2.1 derives
          have present := sequence_ne_nil IsSelection.begins derives some
          have opening : ((("\x7b\n" : String) : Text)) = TokenKind.braceOpen.text ++ (("\n" : String) : Text) := by
            decide
          have closing : ((("\n\x7d" : String) : Text)) = (("\n" : String) : Text) ++ TokenKind.braceClose.text := by
            decide
          rw [SelectionSet.render, renderSelections_eq_map, opening, closing]
          exact .block .braceOpen .braceClose rfl rfl (by decide) items present

theorem isDefault_writable (k : Nat) :
    Writable (fun value => wrap " = " (Value.render value) []) IsDefault k := by
  rintro _ value short proper ⟨derives⟩
  simp only [List.length_cons, List.forall_mem_cons] at short proper
  have writes := isValue_writable true k (by omega) proper.2 derives
  have some := List.ne_nil_of_length_pos ((IsValue.begins true).length_pos derives)
  have split : (((" = " : String) : Text)) = ((" " : String) : Text) ++ (TokenKind.equals.text ++ ((" " : String) : Text)) := by
    decide
  dsimp only
  rw [Writes.wrap_of_ne_nil (mt writes.eq_nil_iff.1 some), split, List.append_nil, List.append_assoc, List.append_assoc]
  exact .separator_append Writes.isSeparator_space
    (.mark_append .equals rfl (.separator_append Writes.isSeparator_space writes some)) (List.cons_ne_nil _ _)

theorem boundary_wrap_space {sep text : Text} (separates : Writes.IsSeparator sep) (more : sep ≠ []) (before : Text) :
    Boundary (wrap (sep ++ before) text []) := by
  unfold wrap
  split_ifs
  · exact .nil
  · rw [List.append_nil, List.append_assoc]
    exact Writes.boundary_separator separates more _

theorem isVariableDefinition_writable (k : Nat) : Writable VariableDefinition.render IsVariableDefinition k := by
  intro ls definition short proper derives
  cases derives with
  | @intro vs ts ls ds var type value directives named typed valued directed =>
      simp only [List.length_cons, List.length_append, List.forall_mem_cons, List.forall_mem_append] at short proper
      have named := isVariable_writable k (by omega) proper.1 named
      have some : ts ≠ [] := List.ne_nil_of_length_pos (IsTypeRef.begins.length_pos typed)
      have typed := isTypeRef_writable k (by omega) proper.2.2.1 typed
      have valued := (isDefault_writable k).maybe (by omega) proper.2.2.2.1 valued
      have default : (value.map fun value => wrap " = " (Value.render value) []).getD [] =
          wrap " = " ((value.map Value.render).getD []) [] := by cases value <;> rfl
      have directed := areDirectives_writable true k (by omega) proper.2.2.2.2 directed
      obtain ⟨directed, opens⟩ := Writes.separated Writes.isSeparator_space (by decide) directed
      have opens' : Boundary (wrap " = " ((value.map Value.render).getD []) []) := by
        have split : (((" = " : String) : Text)) = ((" " : String) : Text) ++ (("= " : String) : Text) := by decide
        rw [split]
        exact boundary_wrap_space Writes.isSeparator_space (by decide) _
      dsimp only at valued
      rw [default] at valued
      have colon : (((": " : String) : Text)) = TokenKind.colon.text ++ ((" " : String) : Text) := by decide
      rw [VariableDefinition.render, colon]
      have rest := typed.append (valued.append directed opens) (opens'.append opens)
      have whole := named.append (.mark_append .colon rfl (.separator_append Writes.isSeparator_space rest (by simp [some])))
        (Boundary.mark .colon rfl (by decide) _)
      simpa only [List.append_assoc] using whole

theorem variableDefinitions_writable (k : Nat) : Writable renderVariableDefinitions AreVariableDefinitions k :=
  (isVariableDefinition_writable k).parenthesized IsVariableDefinition.begins

theorem Operation.render_shorthand (set : SelectionSet) : Operation.render ⟨.query, none, [], [], set, none⟩ = set.render := by
  have head : joinFilled " " [OperationType.query.text, (Option.map Name.render none).getD [] ++ renderVariableDefinitions [],
      renderDirectives []] = OperationType.query.text := by decide
  rw [Operation.render, head, if_pos rfl, List.nil_append]

theorem head_eq_query {type : OperationType} {a b : Text}
    (bare : joinFilled " " [type.text, a, b] = OperationType.query.text) : type = .query ∧ a = [] ∧ b = [] := by
  have space : ∀ t : Text, type.text ++ (((" " : String) : Text) ++ t) ≠ OperationType.query.text := by
    intro t same
    have member : CodeUnit.space ∈ OperationType.query.text := by
      rw [← same, List.mem_append, List.mem_append]
      exact .inr (.inl (by decide))
    exact absurd member (by decide)
  have present : type.text ≠ [] := by cases type <;> decide
  rw [Writes.joinFilled_cons, if_neg present] at bare
  split_ifs at bare with last
  · refine ⟨by cases type <;> first | rfl | exact absurd bare (by decide), ?_⟩
    rw [Writes.joinFilled_cons, Writes.joinFilled_cons, Writes.joinFilled_nil] at last
    by_cases first : a = [] <;> by_cases second : b = [] <;> simp_all
  · exact absurd bare (space _)

theorem absent_of_nil {name : Option Name} {definitions : List VariableDefinition} {directives : List Directive}
    (named : Maybe IsName [] name) (defined : AreVariableDefinitions [] definitions)
    (directed : AreDirectives false [] directives) : name = none ∧ definitions = [] ∧ directives = [] := by
  refine ⟨?_, ?_, ?_⟩
  · cases named with
    | absent => rfl
    | present derives => cases derives
  · cases defined
    rfl
  · by_contra some
    exact sequence_ne_nil (IsDirective.begins false) directed some rfl

theorem isOperation_written : Written Operation.render IsOperation := by
  intro ls o proper derives
  cases derives with
  | shorthand derives =>
      refine ⟨ls, .shorthand derives, ?_, Nat.le_refl _⟩
      rw [Operation.render_shorthand]
      exact isSelectionSet_writable _ (Nat.le_refl _) proper derives
  | @intro ns vs ds ls name definitions directives set type named defined directed selected =>
      simp only [List.forall_mem_cons, List.forall_mem_append] at proper
      have sets := isSelectionSet_writable ls.length (Nat.le_refl _) proper.2.2.2.2 selected
      have named' := (isName_writable ns.length).maybe (Nat.le_refl _) proper.2.1 named
      have defined' := variableDefinitions_writable vs.length (Nat.le_refl _) proper.2.2.1 defined
      have directed' := areDirectives_writable false ds.length (Nat.le_refl _) proper.2.2.2.1 directed
      have called := named'.append defined' (boundary_wrap_paren _)
      -- The head that is left out is that of the shorthand, which derives the same operation.
      by_cases bare : joinFilled " " [type.text, (name.map Name.render).getD [] ++ renderVariableDefinitions definitions,
          renderDirectives directives] = OperationType.query.text
      · obtain ⟨rfl, noCall, noDirectives⟩ := head_eq_query bare
        obtain ⟨rfl, rfl⟩ := List.append_eq_nil_iff.1 (called.eq_nil_iff.1 noCall)
        obtain rfl := directed'.eq_nil_iff.1 noDirectives
        obtain ⟨rfl, rfl, rfl⟩ := absent_of_nil named defined directed
        refine ⟨ls, .shorthand selected, ?_, by simp⟩
        rw [Operation.render_shorthand]
        exact sets
      · have last : Writes (joinFilled " " []) [] := .nil
        have head := (word_writes proper.1).join Writes.isSeparator_space (by decide)
          (called.join Writes.isSeparator_space (by decide) (directed'.join Writes.isSeparator_space (by decide) last))
        have whole := head.append_separated Writes.isSeparator_space (by decide) sets
          (List.ne_nil_of_length_pos (IsSelectionSet.begins.length_pos selected))
        refine ⟨_, .intro type named defined directed selected, ?_, Nat.le_refl _⟩
        rw [Operation.render]
        dsimp only
        rw [if_neg bare]
        simpa only [List.append_assoc, List.append_nil, List.cons_append, List.nil_append] using whole

theorem areFragmentVariables_writable (allowVariables : Bool) (k : Nat) :
    Writable (fun definitions => renderVariableDefinitions (definitions.getD [])) (AreFragmentVariables allowVariables) k := by
  intro ls definitions short proper derives
  cases derives with
  | excluded => exact .nil
  | allowed derives => exact variableDefinitions_writable k short proper derives

theorem isFragment_writable (allowVariables : Bool) (k : Nat) : Writable Fragment.render (IsFragment allowVariables) k := by
  intro ls fragment short proper derives
  cases derives with
  | @intro vs ts ds ls text definitions type directives set _ defined typed directed selected =>
      simp only [List.length_cons, List.length_append, List.forall_mem_cons, List.forall_mem_append] at short proper
      obtain ⟨type⟩ := typed
      simp only [List.forall_mem_cons] at proper
      have defined := areFragmentVariables_writable allowVariables k (by omega) proper.2.2.1 defined
      have directed := areDirectives_writable false k (by omega) proper.2.2.2.2.1 directed
      have some : ls ≠ [] := List.ne_nil_of_length_pos (IsSelectionSet.begins.length_pos selected)
      have selected := isSelectionSet_writable k (by omega) proper.2.2.2.2.2 selected
      have body := Writes.leading Writes.isSeparator_space (by decide) directed selected some
      have typed := (word_writes proper.2.2.2.1.2.1).append_separated Writes.isSeparator_space (by decide) body (by simp [some])
      have condition := (word_writes proper.2.2.2.1.1).append_separated Writes.isSeparator_space (by decide) typed
        (List.cons_ne_nil _ _)
      have named := (word_writes proper.2.1).append defined (boundary_wrap_paren _)
      have headed := named.append_separated Writes.isSeparator_space (by decide) condition (List.cons_ne_nil _ _)
      have whole := (word_writes proper.1).append_separated Writes.isSeparator_space (by decide) headed (List.cons_ne_nil _ _)
      have keyword : (("fragment " : String) : Text) = (("fragment" : String) : Text) ++ ((" " : String) : Text) := by
        decide
      have between : ((" on " : String) : Text) =
          ((" " : String) : Text) ++ ((("on" : String) : Text) ++ ((" " : String) : Text)) := by decide
      rw [Fragment.render, keyword, between]
      simpa only [Name.render, NamedType.render, List.append_assoc, List.cons_append, List.nil_append] using whole

theorem isDefinition_written (allowVariables : Bool) : Written Definition.render (IsDefinition allowVariables) := by
  intro ls d proper derives
  cases derives with
  | operation derives =>
      obtain ⟨ls', derives', writes, fewer⟩ := isOperation_written proper derives
      exact ⟨ls', .operation derives', writes, fewer⟩
  | fragment derives =>
      obtain ⟨ls', derives', writes, fewer⟩ := Writable.written (isFragment_writable allowVariables) proper derives
      exact ⟨ls', .fragment derives', writes, fewer⟩

theorem definitions_written {allowVariables : Bool} {ls : List Lexeme} {definitions : List Definition}
    (proper : ∀ l ∈ ls, l.Proper) (derives : Sequence (IsDefinition allowVariables) ls definitions) :
    ∃ ls', Sequence (IsDefinition allowVariables) ls' definitions ∧
      Writes (joinFilled "\n\n" (definitions.map Definition.render)) ls' ∧ ls'.length ≤ ls.length ∧
      ∀ text ∈ definitions.map Definition.render, text ≠ [] := by
  induction derives with
  | nil => exact ⟨[], .nil, .nil, Nat.le_refl _, nofun⟩
  | cons first _ ih =>
      rw [List.forall_mem_append] at proper
      obtain ⟨ls₁, derives₁, writes₁, fewer₁⟩ := isDefinition_written allowVariables proper.1 first
      obtain ⟨ls₂, derives₂, writes₂, fewer₂, present⟩ := ih proper.2
      have some := List.ne_nil_of_length_pos ((IsDefinition.begins allowVariables).length_pos derives₁)
      refine ⟨ls₁ ++ ls₂, .cons derives₁ derives₂, writes₁.join Writes.isSeparator_lines (by decide) writes₂, ?_, ?_⟩
      · rw [List.length_append, List.length_append]
        omega
      · exact List.forall_mem_cons.2 ⟨mt writes₁.eq_nil_iff.1 some, present⟩

theorem isDocument_written (allowVariables : Bool) : Written Document.render (IsDocument allowVariables) := by
  intro ls d proper derives
  cases derives with
  | intro derives some =>
      obtain ⟨ls', derives', writes, fewer, present⟩ := definitions_written proper derives
      refine ⟨ls', .intro derives' some, ?_, fewer⟩
      rwa [joinFilled, List.filter_eq_self.2 (by simpa using present)] at writes

end QueryPlanner
