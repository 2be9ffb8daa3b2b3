import QueryPlanner.Proofs.Parser.Progress

namespace QueryPlanner.Parser
open Run ParserState

variable {isConst : Bool} {s : ParserState} {least : Nat} {α : Type}

theorem located_proceeds {make : Option Location → α} (start : Token) :
    Proceeds 0 (do return make (← locationFrom start)) :=
  (locationFrom_proceeds start).bind fun _ => .pure _

theorem unexpectedAt_throws (token : Token) : Proceeds least (do throw (← unexpectedAt token) : Parser α) :=
  (unexpectedAt_proceeds token).andThen fun d => .throw d

theorem unexpected_throws : Proceeds least (do throw (← unexpected) : Parser α) :=
  unexpected_proceeds.andThen fun d => .throw d

theorem levels_proceed {deeper : Parser α → Parser α} (levels : Nat → Parser α) (none : levels 0 = deeper tooDeep)
    (more : ∀ n, levels (n + 1) = deeper (levels n)) (step : ∀ {p}, Proceeds least p → Proceeds least (deeper p))
    (n : Nat) : Proceeds least (levels n) := by
  induction n with
  | zero => exact none ▸ step tooDeep_proceeds
  | succ n ih => exact more n ▸ step ih

theorem name_proceeds : Proceeds 1 name :=
  (expectToken_proceeds (by decide)).bind fun token => located_proceeds token

theorem var_proceeds : Proceeds 1 var :=
  (expectToken_proceeds (by decide)).bind fun start => name_proceeds.bind fun _ => located_proceeds start

theorem literal_moves {make : Option Location → α} (token : Token) (more : s.token.kind ≠ .endOfFile) :
    Moves 1 0 (do advance; return make (← locationFrom token)) s :=
  (advance_moves more).bind fun _ s' _ => located_proceeds token s'

theorem stringLiteral_moves : Moves 0 1 stringLiteral s :=
  .congr currentToken_bind (advance_moves_anywhere.finish fun _ _ => ⟨_, bind_of_ok (locationFrom_ok.2 ⟨rfl, rfl⟩)⟩)

theorem variableInConstant_proceeds (token : Token) : Proceeds 1 (variableInConstant token) := by
  refine (expectToken_proceeds (by decide)).bind (n := 0) fun _ => .get fun s => ?_
  split_ifs
  · exact .refuses rfl
  · exact unexpectedAt_throws token s

section
variable {inner : Parser Value} (value : Proceeds 1 inner)
include value

theorem labelled_proceeds {make : Name → Value → Option Location → α} : Proceeds 1 (labelled inner make) :=
  currentToken_proceeds.andThen fun start => name_proceeds.bind fun _ =>
    (expectToken_proceeds (by decide)).bind fun _ => value.bind fun _ => located_proceeds start

theorem objectFieldWith_proceeds : Proceeds 1 (objectFieldWith inner) := labelled_proceeds value

theorem listWith_proceeds : Proceeds 1 (listWith inner) :=
  currentToken_proceeds.andThen fun start =>
    (nested_proceeds (any_proceeds value (by decide) (by decide))).bind fun _ => located_proceeds start

theorem objectWith_proceeds : Proceeds 1 (objectWith inner) :=
  currentToken_proceeds.andThen fun start =>
    (nested_proceeds (any_proceeds (objectFieldWith_proceeds value) (by decide) (by decide))).bind
      fun _ => located_proceeds start

theorem valueWith_proceeds : Proceeds 1 (valueWith isConst inner) := by
  refine fun s => .congr currentToken_bind ?_
  have more {kind : TokenKind} (same : s.token.kind = kind) (other : kind ≠ .endOfFile) : s.token.kind ≠ .endOfFile :=
    same ▸ other
  cases kind : s.token.kind
  case bracketOpen => exact listWith_proceeds value s
  case braceOpen => exact objectWith_proceeds value s
  case int => exact literal_moves s.token (more kind (by decide))
  case float => exact literal_moves s.token (more kind (by decide))
  case string => exact .congr currentToken_bind (literal_moves s.token (more kind (by decide)))
  case blockString => exact .congr currentToken_bind (literal_moves s.token (more kind (by decide)))
  case name =>
    rw [nameValue_eq]
    exact literal_moves s.token (more kind (by decide))
  case dollar =>
    exact Proceeds.ite (variableInConstant_proceeds s.token) (var_proceeds.bind fun v => .pure (Value.var v)) s
  all_goals exact unexpected_throws s

end

theorem valueWithin_proceeds (isConst : Bool) (n : Nat) : Proceeds 1 (valueWithin isConst n) :=
  levels_proceed (valueWithin isConst) rfl (fun _ => rfl) (fun inner => valueWith_proceeds inner) n

theorem value_proceeds (isConst : Bool) : Proceeds 1 (value isConst) := .get fun s => valueWithin_proceeds isConst _ s

theorem argument_proceeds (isConst : Bool) : Proceeds 1 (argument isConst) := labelled_proceeds (value_proceeds isConst)

theorem arguments_proceeds (isConst : Bool) : Proceeds 0 (arguments isConst) :=
  optionalMany_proceeds (argument_proceeds isConst) (by decide) (by decide)

theorem directive_proceeds (isConst : Bool) : Proceeds 1 (directive isConst) :=
  (expectToken_proceeds (by decide)).bind fun start => name_proceeds.bind fun _ =>
    (arguments_proceeds isConst).bind fun _ => located_proceeds start

theorem directives_proceeds (isConst : Bool) : Proceeds 0 (directives isConst) :=
  .get fun s => itemsWhile_proceeds (directive_proceeds isConst) .atSign _ s

theorem namedType_proceeds : Proceeds 1 namedType :=
  currentToken_proceeds.andThen fun start => name_proceeds.bind fun _ => located_proceeds start

theorem typeRefWith_proceeds {inner : Parser TypeRef} (type : Proceeds 1 inner) : Proceeds 1 (typeRefWith inner) := by
  have list (start : Token) : Proceeds 1 (listTypeWith inner start) :=
    (nested_proceeds type).bind fun _ => (expectToken_proceeds (by decide)).bind fun _ => located_proceeds start
  have head (start : Token) : Proceeds 1 (typeHead inner start) :=
    (optionalToken_proceeds (by decide)).andThen fun _ => .ite (list start) namedType_proceeds.map
  have mark (start : Token) (type : TypeRef) : Proceeds 0 (typeMark start type) :=
    (optionalToken_proceeds (by decide)).bind fun _ => .ite (located_proceeds start) (.pure type)
  exact fun s => .congr typeRefWith_run ((head s.token).bind (mark s.token) s)

theorem typeRef_proceeds : Proceeds 1 typeRef :=
  .get fun s => levels_proceed typeRefWithin rfl (fun _ => rfl) (fun inner => typeRefWith_proceeds inner) _ s

theorem modifierWith_proceeds {inner : Parser (Option Modifier)} (modifier : Proceeds 0 inner) :
    Proceeds 0 (modifierWith inner) := by
  have list (start : Token) : Proceeds 0 (listModifierWith inner start) :=
    (nested_proceeds modifier).bind fun _ => (expectToken_proceeds (by decide)).bind fun _ => located_proceeds start
  have head (start : Token) : Proceeds 0 (modifierHead inner start) :=
    (optionalToken_proceeds (by decide)).bind fun _ => .ite (list start).map (.pure none)
  have mark (start : Token) (element : Option Modifier) : Proceeds 0 (modifierMark start element) :=
    (optionalToken_proceeds (by decide)).bind fun _ => .ite (located_proceeds start) <|
      (optionalToken_proceeds (by decide)).bind fun _ => .ite (located_proceeds start) (.pure element)
  exact fun s => .congr modifierWith_run ((head s.token).bind (mark s.token) s)

theorem modifier_proceeds : Proceeds 0 modifier :=
  .get fun s => levels_proceed modifierWithin rfl (fun _ => rfl) (fun inner => modifierWith_proceeds inner) _ s

theorem fragmentName_proceeds : Proceeds 1 fragmentName := by
  refine .get fun s => ?_
  split_ifs
  · exact unexpected_throws s
  · exact name_proceeds s

section
variable {inner : Parser SelectionSet} (set : Proceeds 1 inner)
include set

theorem fieldWith_proceeds : Proceeds 1 (fieldWith inner) := by
  have names : Proceeds 1 fieldNames := name_proceeds.bind fun _ => (optionalToken_proceeds (by decide)).bind fun _ =>
    .ite (name_proceeds.bind fun _ => .pure _).weaken (.pure _)
  have maybe : Proceeds 0 (maybeSet inner) := (peek_proceeds _).bind fun _ => .ite set.map.weaken (.pure none)
  refine fun s => .congr fieldWith_run ?_
  exact (names.bind fun _ => (arguments_proceeds false).bind fun _ => modifier_proceeds.bind fun _ =>
    (directives_proceeds false).bind fun _ => maybe.bind fun _ => located_proceeds s.token) s

theorem inlineFragmentWith_proceeds (start : Token) (hasTypeCondition : Bool) :
    Proceeds 1 (inlineFragmentWith inner start hasTypeCondition) := by
  have condition : Proceeds 0 (conditionTail hasTypeCondition) := .ite namedType_proceeds.map.weaken (.pure none)
  rw [inlineFragmentWith_eq]
  exact condition.andThen fun _ => (directives_proceeds false).andThen fun _ => set.bind fun _ => located_proceeds start

theorem fragmentSelectionWith_proceeds : Proceeds 1 (fragmentSelectionWith inner) := by
  have spread (start : Token) : Proceeds 1 (fragmentSpread start) :=
    fragmentName_proceeds.bind fun _ => (directives_proceeds false).bind fun _ => located_proceeds start
  refine (expectToken_proceeds (by decide)).bind (n := 1) fun start =>
    (optionalKeyword_proceeds "on").andThen fun hasCondition => ?_
  exact (peek_proceeds .name).andThen fun _ => .ite ((spread start).bind fun _ => .pure _)
    ((inlineFragmentWith_proceeds set start hasCondition).bind fun _ => .pure _)

theorem selectionWith_proceeds : Proceeds 1 (selectionWith inner) :=
  (peek_proceeds .spread).andThen fun _ =>
    .ite (fragmentSelectionWith_proceeds set) ((fieldWith_proceeds set).bind fun _ => .pure _)

theorem selectionSetWith_proceeds : Proceeds 1 (selectionSetWith inner) :=
  currentToken_proceeds.andThen fun start =>
    (nested_proceeds (many_proceeds (selectionWith_proceeds set) (by decide) (by decide))).bind
      fun _ => located_proceeds start

end

theorem selectionSetWithin_proceeds (n : Nat) : Proceeds 1 (selectionSetWithin n) :=
  levels_proceed selectionSetWithin rfl (fun _ => rfl) (fun inner => selectionSetWith_proceeds inner) n

theorem selectionSet_proceeds : Proceeds 1 selectionSet := .get fun s => selectionSetWithin_proceeds _ s

theorem variableDefinition_proceeds : Proceeds 1 variableDefinition := by
  have default : Proceeds 0 maybeDefault :=
    (optionalToken_proceeds (by decide)).bind fun _ => .ite (value_proceeds true).map.weaken (.pure none)
  refine fun s => .congr variableDefinition_run ?_
  exact (var_proceeds.bind fun _ => (expectToken_proceeds (by decide)).bind fun _ => typeRef_proceeds.bind fun _ =>
    default.bind fun _ => (directives_proceeds true).bind fun _ => located_proceeds s.token) s

theorem variableDefinitions_proceeds : Proceeds 0 variableDefinitions :=
  optionalMany_proceeds variableDefinition_proceeds (by decide) (by decide)

theorem operationType_proceeds : Proceeds 1 operationType := by
  refine (expectToken_proceeds (by decide)).bind (n := 0) fun token => ?_
  cases OperationType.ofText? token.value with
  | some type => exact .pure type
  | none => exact unexpectedAt_throws token

theorem operation_proceeds : Proceeds 1 operation := by
  have shorthand (start : Token) : Proceeds 1 (shorthand start) :=
    selectionSet_proceeds.bind fun _ => located_proceeds start
  have maybe : Proceeds 0 maybeName := (peek_proceeds _).bind fun _ => .ite name_proceeds.map.weaken (.pure none)
  have named (start : Token) : Proceeds 1 (namedOperation start) :=
    operationType_proceeds.bind fun _ => maybe.bind fun _ => variableDefinitions_proceeds.bind fun _ =>
      (directives_proceeds false).bind fun _ => selectionSet_proceeds.bind fun _ => located_proceeds start
  refine fun s => .congr operation_run ?_
  exact (peek_proceeds .braceOpen).andThen (fun _ => .ite (shorthand s.token) (named s.token)) s

theorem fragment_proceeds : Proceeds 1 fragment := by
  have defined : Proceeds 0 fragmentVariables := by
    refine .get fun s => ?_
    exact Proceeds.ite variableDefinitions_proceeds.map (.pure none) s
  refine fun s => .congr fragment_run ?_
  exact ((expectKeyword_proceeds "fragment").bind fun _ => fragmentName_proceeds.bind fun _ => defined.bind fun _ =>
    (expectKeyword_proceeds "on").bind fun _ => namedType_proceeds.bind fun _ => (directives_proceeds false).bind fun _ =>
    selectionSet_proceeds.bind fun _ => located_proceeds s.token) s

theorem definition_proceeds : Proceeds 1 definition := by
  have operation : Proceeds 1 (do return .operation (← operation) : Parser Definition) :=
    operation_proceeds.bind fun _ => .pure _
  have fragment : Proceeds 1 (do return .fragment (← fragment) : Parser Definition) :=
    fragment_proceeds.bind fun _ => .pure _
  refine fun s => .congr currentToken_bind ?_
  split_ifs
  · exact operation s
  · exact operation s
  · exact fragment s
  all_goals exact unexpectedAt_throws s.token s

theorem document_moves : Moves 1 1 document s := by
  refine .congr currentToken_bind ?_
  exact (many_moves definition_proceeds (by decide) fun _ => Nat.le_refl 1).finish fun _ _ =>
    ⟨_, bind_of_ok (locationFrom_ok.2 ⟨rfl, rfl⟩)⟩

theorem whole_moves {inner : Parser α} (proceeds : Proceeds least inner) : Moves 1 1 (whole inner) s := by
  have opened : Proceeds 1 (do let _ ← expectToken .startOfFile; inner) :=
    (expectToken_proceeds (by decide)).bind fun _ => proceeds
  have run : whole inner s =
      ((do let _ ← expectToken .startOfFile; inner) >>= fun result => do
        let _ ← expectToken .endOfFile
        return result : Parser α) s := by
    rw [whole, bind_assoc]
  exact .congr run ((opened s).bind fun _ _ _ => (expectToken_moves .endOfFile).map)

end QueryPlanner.Parser
