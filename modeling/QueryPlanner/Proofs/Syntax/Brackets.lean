import QueryPlanner.Proofs.Syntax.Grammar

namespace QueryPlanner
open Lexeme (mark word)

namespace TokenKind

def opens : TokenKind → Bool
  | bracketOpen | braceOpen => true
  | _ => false

def closes : TokenKind → Bool
  | bracketClose | braceClose => true
  | _ => false

/-- The opening less the closing brackets. -/
def balance (kinds : List TokenKind) : Int := kinds.countP opens - kinds.countP closes

@[simp] theorem balance_nil : balance [] = 0 := rfl

@[simp] theorem balance_append (kinds kinds' : List TokenKind) :
    balance (kinds ++ kinds') = balance kinds + balance kinds' := by
  simp only [balance, List.countP_append]
  omega

theorem balance_cons (kind : TokenKind) (kinds : List TokenKind) :
    balance (kind :: kinds) = balance [kind] + balance kinds :=
  balance_append [kind] kinds

end TokenKind

def Lexeme.isPlain (l : Lexeme) : Bool :=
  !l.kind.opens && !l.kind.closes && l.kind != .endOfFile && (!l.kind.isPunctuator || l.value.isEmpty)

theorem Lexeme.balance_plain {l : Lexeme} (plain : l.isPlain = true) : TokenKind.balance [l.kind] = 0 := by
  obtain ⟨kind, value⟩ := l
  cases kind <;> first | rfl | contradiction

inductive Bracketed : List Lexeme → Prop
  | nil : Bracketed []
  | append {ls ls' : List Lexeme} : Bracketed ls → Bracketed ls' → Bracketed (ls ++ ls')
  | plain (kind : TokenKind) (value : Text) : Lexeme.isPlain ⟨kind, value⟩ = true → Bracketed [⟨kind, value⟩]
  | braces {ls : List Lexeme} : Bracketed ls → Bracketed (mark .braceOpen :: (ls ++ [mark .braceClose]))
  | brackets {ls : List Lexeme} : Bracketed ls → Bracketed (mark .bracketOpen :: (ls ++ [mark .bracketClose]))

namespace Bracketed

variable {ls : List Lexeme}

theorem word (text : Text) : Bracketed [.word text] := .plain .name text rfl

theorem cons (kind : TokenKind) (value : Text) (plain : Lexeme.isPlain ⟨kind, value⟩ = true) (rest : Bracketed ls) :
    Bracketed (⟨kind, value⟩ :: ls) :=
  .append (.plain kind value plain) rest

theorem balance_eq_zero (matched : Bracketed ls) : TokenKind.balance (ls.map Lexeme.kind) = 0 := by
  induction matched with
  | nil => rfl
  | append _ _ left right => rw [List.map_append, TokenKind.balance_append, left, right, Int.add_zero]
  | plain kind value plain => exact Lexeme.balance_plain plain
  | braces _ ih | brackets _ ih =>
      rw [List.map_cons, List.map_append, TokenKind.balance_cons, TokenKind.balance_append, ih]
      rfl

theorem proper (matched : Bracketed ls) :
    ∀ l ∈ ls, l.kind ≠ .endOfFile ∧ (l.kind.isPunctuator = true → l.value = []) := by
  have marks {open' close : TokenKind} (first : open' ≠ .endOfFile) (last : close ≠ .endOfFile) {ls : List Lexeme}
      (inside : ∀ l ∈ ls, l.kind ≠ .endOfFile ∧ (l.kind.isPunctuator = true → l.value = [])) :
      ∀ l ∈ mark open' :: (ls ++ [mark close]), l.kind ≠ .endOfFile ∧ (l.kind.isPunctuator = true → l.value = []) := by
    refine List.forall_mem_cons.2 ⟨⟨first, fun _ => rfl⟩, fun l member => ?_⟩
    obtain member | member := List.mem_append.1 member
    · exact inside l member
    · obtain rfl := List.mem_singleton.1 member
      exact ⟨last, fun _ => rfl⟩
  induction matched with
  | nil => exact fun l member => absurd member List.not_mem_nil
  | append _ _ left right => exact fun l member => (List.mem_append.1 member).elim (left l) (right l)
  | plain kind value plain =>
      intro l member
      obtain rfl := List.mem_singleton.1 member
      simp only [Lexeme.isPlain, Bool.and_eq_true, Bool.or_eq_true, bne_iff_ne, List.isEmpty_iff] at plain
      exact ⟨plain.1.2, fun mark => plain.2.resolve_left (by simp [mark])⟩
  | braces _ ih => exact marks (by decide) (by decide) ih
  | brackets _ ih => exact marks (by decide) (by decide) ih

end Bracketed

namespace Grammar

variable {α : Type} {G : List Lexeme → α → Prop} {isConst : Bool} {ls : List Lexeme}

theorem Sequence.bracketed (item : ∀ ⦃ls part⦄, G ls part → Bracketed ls) {parts : List α} (derives : Sequence G ls parts) :
    Bracketed ls := by
  induction derives with
  | nil => exact .nil
  | cons first _ rest => exact .append (item first) rest

theorem Maybe.bracketed (item : ∀ ⦃ls part⦄, G ls part → Bracketed ls) {part : Option α} (derives : Maybe G ls part) :
    Bracketed ls := by
  cases derives with
  | absent => exact .nil
  | present derives => exact item derives

theorem Parenthesized.bracketed (item : ∀ ⦃ls part⦄, G ls part → Bracketed ls) {parts : List α}
    (derives : Parenthesized G ls parts) : Bracketed ls := by
  cases derives with
  | absent => exact .nil
  | present derives _ => exact .cons _ _ rfl (.append (derives.bracketed item) (.plain _ _ rfl))

theorem IsVariable.bracketed {v : Variable} (derives : IsVariable ls v) : Bracketed ls := by
  cases derives
  exact .cons _ _ rfl (.plain _ _ rfl)

mutual

theorem IsValue.bracketed {ls : List Lexeme} {value : Value} : IsValue isConst ls value → Bracketed ls
  | .var _ derives => derives.bracketed
  | .int _ | .float _ | .string _ | .blockString _ | .boolean _ | .null | .enum _ => .plain _ _ rfl
  | .list derives => .brackets (areValues_bracketed derives)
  | .object derives => .braces (areObjectFields_bracketed derives)

theorem areValues_bracketed {ls : List Lexeme} {values : List Value} :
    Sequence (IsValue isConst) ls values → Bracketed ls
  | .nil => .nil
  | .cons first rest => .append first.bracketed (areValues_bracketed rest)

theorem IsObjectField.bracketed {ls : List Lexeme} {field : ObjectField} :
    IsObjectField isConst ls field → Bracketed ls
  | .intro _ derives => .cons _ _ rfl (.cons _ _ rfl derives.bracketed)

theorem areObjectFields_bracketed {ls : List Lexeme} {fields : List ObjectField} :
    Sequence (IsObjectField isConst) ls fields → Bracketed ls
  | .nil => .nil
  | .cons first rest => .append first.bracketed (areObjectFields_bracketed rest)

end

theorem IsArgument.bracketed {argument : Argument} (derives : IsArgument isConst ls argument) : Bracketed ls := by
  cases derives with
  | intro _ derives => exact .cons _ _ rfl (.cons _ _ rfl derives.bracketed)

theorem IsDirective.bracketed {directive : Directive} (derives : IsDirective isConst ls directive) : Bracketed ls := by
  cases derives with
  | intro _ derives => exact .cons _ _ rfl (.cons _ _ rfl (derives.bracketed fun _ _ => IsArgument.bracketed))

theorem AreDirectives.bracketed {directives : List Directive} (derives : AreDirectives isConst ls directives) :
    Bracketed ls :=
  Sequence.bracketed (fun _ _ => IsDirective.bracketed) derives

theorem IsNamedType.bracketed {type : NamedType} (derives : IsNamedType ls type) : Bracketed ls := by
  cases derives
  exact .plain _ _ rfl

theorem IsTypeRef.bracketed {type : TypeRef} (derives : IsTypeRef ls type) : Bracketed ls := by
  induction derives with
  | named derives => exact derives.bracketed
  | list _ item => exact .brackets item
  | nonNull _ _ type => exact .append type (.plain _ _ rfl)

mutual

theorem IsModifier.bracketed {ls : List Lexeme} {element : Option Modifier} : IsModifier ls element → Bracketed ls
  | .unmarked derives => derives.bracketed
  | .required derives | .optional derives => .append derives.bracketed (.plain _ _ rfl)

theorem IsBrackets.bracketed {ls : List Lexeme} {element : Option Modifier} : IsBrackets ls element → Bracketed ls
  | .absent => .nil
  | .list derives => .brackets derives.bracketed

end

theorem IsFieldName.bracketed {names : Option Name × Name} (derives : IsFieldName ls names) : Bracketed ls := by
  cases derives with
  | plain => exact .plain _ _ rfl
  | renamed => exact .cons _ _ rfl (.cons _ _ rfl (.plain _ _ rfl))

theorem IsFragmentSpread.bracketed {spread : FragmentSpread} (derives : IsFragmentSpread ls spread) : Bracketed ls := by
  cases derives with
  | intro _ directives => exact .cons _ _ rfl (.cons _ _ rfl directives.bracketed)

theorem IsTypeCondition.bracketed {type : NamedType} (derives : IsTypeCondition ls type) : Bracketed ls := by
  cases derives
  exact .cons _ _ rfl (.plain _ _ rfl)

mutual

theorem IsField.bracketed {ls : List Lexeme} {field : Field} : IsField ls field → Bracketed ls
  | .intro names arguments modifier directives set =>
    .append names.bracketed (.append (arguments.bracketed fun _ _ => IsArgument.bracketed)
      (.append modifier.bracketed (.append directives.bracketed (maybeSet_bracketed set))))

theorem maybeSet_bracketed {ls : List Lexeme} {set : Option SelectionSet} : Maybe IsSelectionSet ls set → Bracketed ls
  | .absent => .nil
  | .present derives => derives.bracketed

theorem IsInlineFragment.bracketed {ls : List Lexeme} {f : InlineFragment} : IsInlineFragment ls f → Bracketed ls
  | .intro condition directives set =>
    .cons _ _ rfl (.append (condition.bracketed fun _ _ => IsTypeCondition.bracketed)
      (.append directives.bracketed set.bracketed))

theorem IsSelection.bracketed {ls : List Lexeme} {selection : Selection} : IsSelection ls selection → Bracketed ls
  | .field derives => derives.bracketed
  | .spread derives => derives.bracketed
  | .inline derives => derives.bracketed

theorem areSelections_bracketed {ls : List Lexeme} {selections : List Selection} :
    Sequence IsSelection ls selections → Bracketed ls
  | .nil => .nil
  | .cons first rest => .append first.bracketed (areSelections_bracketed rest)

theorem IsSelectionSet.bracketed {ls : List Lexeme} {set : SelectionSet} : IsSelectionSet ls set → Bracketed ls
  | .intro derives _ => .braces (areSelections_bracketed derives)

end

theorem IsDefault.bracketed {value : Value} (derives : IsDefault ls value) : Bracketed ls := by
  cases derives with
  | intro derives => exact .cons _ _ rfl derives.bracketed

theorem IsVariableDefinition.bracketed {definition : VariableDefinition} (derives : IsVariableDefinition ls definition) :
    Bracketed ls := by
  cases derives with
  | intro var type value directives =>
      exact .append var.bracketed (.cons _ _ rfl (.append type.bracketed
        (.append (value.bracketed fun _ _ => IsDefault.bracketed) directives.bracketed)))

theorem AreVariableDefinitions.bracketed {definitions : List VariableDefinition}
    (derives : AreVariableDefinitions ls definitions) : Bracketed ls :=
  Parenthesized.bracketed (fun _ _ => IsVariableDefinition.bracketed) derives

theorem IsOperation.bracketed {operation : Operation} (derives : IsOperation ls operation) : Bracketed ls := by
  cases derives with
  | shorthand derives => exact derives.bracketed
  | intro type name definitions directives set =>
      have name : Bracketed _ := name.bracketed fun _ _ derives => by cases derives; exact .plain _ _ rfl
      exact .cons _ _ rfl (.append name (.append definitions.bracketed (.append directives.bracketed set.bracketed)))

variable {allowVariables : Bool}

theorem AreFragmentVariables.bracketed {definitions : Option (List VariableDefinition)}
    (derives : AreFragmentVariables allowVariables ls definitions) : Bracketed ls := by
  cases derives with
  | excluded => exact .nil
  | allowed derives => exact derives.bracketed

theorem IsFragment.bracketed {fragment : Fragment} (derives : IsFragment allowVariables ls fragment) : Bracketed ls := by
  cases derives with
  | intro _ definitions condition directives set =>
      exact .cons _ _ rfl (.cons _ _ rfl (.append definitions.bracketed (.append condition.bracketed
        (.append directives.bracketed set.bracketed))))

theorem IsDefinition.bracketed {definition : Definition} (derives : IsDefinition allowVariables ls definition) :
    Bracketed ls := by
  cases derives with
  | operation derives => exact derives.bracketed
  | fragment derives => exact derives.bracketed

theorem IsDocument.bracketed {document : Document} (derives : IsDocument allowVariables ls document) : Bracketed ls := by
  cases derives with
  | intro derives _ => exact derives.bracketed fun _ _ => IsDefinition.bracketed

end Grammar

end QueryPlanner
