import QueryPlanner.Proofs.Parser.Covering
import QueryPlanner.Proofs.Parser.EntryAttempts

namespace QueryPlanner.Parser
open Run ParserState

variable {body : Source} {s s' : ParserState} {isConst : Bool}

theorem name_spans : Spans body name .name := by
  intro s made s' here h
  simp only [name, bind_ok, locationFrom_ok, pure_ok] at h
  obtain ⟨t, s₁, read, _, _, ⟨rfl, rfl⟩, rfl, rfl⟩ := h
  obtain ⟨rfl, passes⟩ := expectToken_passes here (by decide) read
  exact ⟨_, passes, passes.covers (List.cons_ne_nil _ _) rfl (.none _)⟩

theorem var_spans : Spans body var (.value ∘ .var) := by
  intro s made s' here h
  simp only [var, bind_ok, locationFrom_ok, pure_ok] at h
  obtain ⟨t, s₁, opened, name, s₂, named, _, _, ⟨rfl, rfl⟩, rfl, rfl⟩ := h
  obtain ⟨rfl, passes⟩ := expectToken_passes here (by decide) opened
  obtain ⟨ts, passes', covers⟩ := name_spans passes.toLocates named
  have whole := passes.trans passes'
  exact ⟨_, whole, whole.covers (List.cons_ne_nil _ _) rfl (.behind _ (.one covers))⟩

section
variable {inner : Parser Value} (spans : Spans body inner .value)
include spans

theorem labelled_spans {α : Type} {make : Name → Value → Option Location → α} {node : α → Node}
    (children : ∀ name value loc, (node (make name value loc)).children = [.name name, .value value])
    (loc : ∀ name value loc, (node (make name value loc)).loc = loc) : Spans body (labelled inner make) node := by
  intro s made s' here h
  simp only [labelled, currentToken_bind, bind_ok, locationFrom_ok, pure_ok] at h
  obtain ⟨name, s₁, named, t, s₂, marked, value, s₃, read, _, _, ⟨rfl, rfl⟩, rfl, rfl⟩ := h
  obtain ⟨ts₁, p₁, c₁⟩ := name_spans here named
  obtain ⟨-, p₂⟩ := expectToken_passes p₁.toLocates (by decide) marked
  obtain ⟨ts₃, p₃, c₃⟩ := spans p₂.toLocates read
  have whole := p₁.trans (p₂.trans p₃)
  exact ⟨_, whole, whole.covers (List.append_ne_nil_of_left_ne_nil c₁.ne_nil _) (loc _ _ _)
    (children _ _ _ ▸ .cons c₁ (.behind _ (.one c₃)))⟩

theorem objectFieldWith_spans : Spans body (objectFieldWith inner) .objectField :=
  labelled_spans spans (fun _ _ _ => rfl) fun _ _ _ => rfl

theorem listWith_spans : Spans body (listWith inner) .value := by
  intro s made s' here h
  simp only [listWith, currentToken_bind, bind_ok, locationFrom_ok, pure_ok] at h
  obtain ⟨values, s₁, read, _, _, ⟨rfl, rfl⟩, rfl, rfl⟩ := h
  obtain ⟨ts, passes, some, strewn⟩ := (any_fills (by decide) (by decide) spans).nested here read
  exact ⟨ts, passes, passes.covers some rfl strewn⟩

theorem objectWith_spans : Spans body (objectWith inner) .value := by
  intro s made s' here h
  simp only [objectWith, currentToken_bind, bind_ok, locationFrom_ok, pure_ok] at h
  obtain ⟨fields, s₁, read, _, _, ⟨rfl, rfl⟩, rfl, rfl⟩ := h
  obtain ⟨ts, passes, some, strewn⟩ :=
    (any_fills (by decide) (by decide) (objectFieldWith_spans spans)).nested here read
  exact ⟨ts, passes, passes.covers some rfl strewn⟩

end

theorem literal_spans {make : Option Location → Value} {made : Value} (here : s.Locates body)
    (more : s.token.kind ≠ .endOfFile) (leaf : ∀ loc, (make loc).loc = loc ∧ (Node.value (make loc)).children = [])
    (h : (do advance; return make (← locationFrom s.token)) s = .ok made s') :
    ∃ ts, Passes body ts s s' ∧ Covers body ts (.value made) := by
  simp only [bind_ok, locationFrom_ok, pure_ok] at h
  obtain ⟨_, s₁, moved, _, _, ⟨rfl, rfl⟩, rfl, rfl⟩ := h
  have passes := advance_passes here more moved
  exact ⟨_, passes, passes.covers (List.cons_ne_nil _ _) (leaf _).1 ((leaf _).2 ▸ .none _)⟩

theorem named_leaf (text : Text) (loc : Option Location) :
    (named text loc).loc = loc ∧ (Node.value (named text loc)).children = [] := by
  unfold named
  split_ifs <;> exact ⟨rfl, rfl⟩

theorem valueWith_spans {inner : Parser Value} (spans : Spans body inner .value) :
    Spans body (valueWith isConst inner) .value := by
  intro s made s' here h
  unfold valueWith at h
  rw [currentToken_bind] at h
  cases kind : s.token.kind <;> simp only [kind] at h
  case bracketOpen => exact listWith_spans spans here h
  case braceOpen => exact objectWith_spans spans here h
  case int => exact literal_spans here (by rw [kind]; decide) (fun _ => ⟨rfl, rfl⟩) h
  case float => exact literal_spans here (by rw [kind]; decide) (fun _ => ⟨rfl, rfl⟩) h
  case string | blockString =>
      rw [stringLiteral, currentToken_bind, kind] at h
      exact literal_spans here (by rw [kind]; decide) (fun _ => ⟨rfl, rfl⟩) h
  case name =>
      rw [nameValue_eq] at h
      exact literal_spans here (by rw [kind]; decide) (named_leaf _) h
  case dollar =>
      cases isConst with
      | true => exact (variableInConstant_fails h).elim
      | false =>
          simp only [Bool.false_eq_true, if_false, bind_ok, pure_ok] at h
          obtain ⟨v, s₁, read, rfl, rfl⟩ := h
          exact var_spans here read
  all_goals exact (unexpected_fails h).elim

theorem valueWithin_spans (n : Nat) : Spans body (valueWithin isConst n) .value := by
  induction n with
  | zero => exact valueWith_spans tooDeep_returns
  | succ n ih => exact valueWith_spans ih

theorem value_spans : Spans body (value isConst) .value :=
  fun s _ _ here h => valueWithin_spans s.levelsLeft here h

theorem argument_spans : Spans body (argument isConst) .argument :=
  labelled_spans value_spans (fun _ _ _ => rfl) fun _ _ _ => rfl

theorem arguments_strews : Strews body (arguments isConst) (List.map .argument) :=
  optionalMany_strews (by decide) (by decide) argument_spans

theorem directive_spans : Spans body (directive isConst) .directive := by
  intro s made s' here h
  simp only [directive, bind_ok, locationFrom_ok, pure_ok] at h
  obtain ⟨t, s₁, opened, name, s₂, named, arguments, s₃, called, _, _, ⟨rfl, rfl⟩, rfl, rfl⟩ := h
  obtain ⟨rfl, p₁⟩ := expectToken_passes here (by decide) opened
  obtain ⟨ts₂, p₂, c₂⟩ := name_spans p₁.toLocates named
  obtain ⟨ts₃, p₃, c₃⟩ := arguments_strews p₂.toLocates called
  have whole := p₁.trans (p₂.trans p₃)
  exact ⟨_, whole, whole.covers (List.cons_ne_nil _ _) rfl (.behind _ (.cons c₂ c₃))⟩

theorem directives_strews : Strews body (directives isConst) (List.map .directive) :=
  fun s _ _ here h => itemsWhile_strews directive_spans (s.tokensLeft + 1) here h

theorem namedType_spans : Spans body namedType (.type ∘ .named) := by
  intro s made s' here h
  simp only [namedType, currentToken_bind, bind_ok, locationFrom_ok, pure_ok] at h
  obtain ⟨name, s₁, named, _, _, ⟨rfl, rfl⟩, rfl, rfl⟩ := h
  obtain ⟨ts, passes, covers⟩ := name_spans here named
  exact ⟨ts, passes, passes.covers covers.ne_nil rfl (.one covers)⟩

section
variable {inner : Parser TypeRef} (spans : Spans body inner .type)
include spans

theorem typeHead_spans {made : TypeRef} (here : s.Locates body) (h : typeHead inner s.token s = .ok made s') :
    ∃ ts, Passes body ts s s' ∧ Covers body ts (.type made) := by
  unfold typeHead at h
  obtain ⟨bracket, s₁, looked, h⟩ := bind_ok.1 h
  obtain ⟨rfl, p₁⟩ | ⟨rfl, rfl⟩ := optionalToken_passes here (by decide) looked
  · simp only [if_true, listTypeWith, bind_ok, locationFrom_ok, pure_ok] at h
    obtain ⟨item, s₂, read, t, s₃, closed, _, _, ⟨rfl, rfl⟩, rfl, rfl⟩ := h
    obtain ⟨ts₂, p₂, c₂⟩ := spans.nested p₁.toLocates read
    obtain ⟨-, p₃⟩ := expectToken_passes p₂.toLocates (by decide) closed
    have whole := p₁.trans (p₂.trans p₃)
    exact ⟨_, whole, whole.covers (List.cons_ne_nil _ _) rfl (.behind _ (.cons c₂ (.none _)))⟩
  · obtain ⟨type, named, rfl⟩ := map_ok.1 h
    exact namedType_spans here named

theorem typeRefWith_spans : Spans body (typeRefWith inner) .type := by
  intro s made s' here h
  rw [typeRefWith_run] at h
  obtain ⟨type, s₁, read, h⟩ := bind_ok.1 h
  obtain ⟨ts, p₁, c₁⟩ := typeHead_spans spans here read
  unfold typeMark at h
  obtain ⟨bang, s₂, looked, h⟩ := bind_ok.1 h
  obtain ⟨rfl, p₂⟩ | ⟨rfl, rfl⟩ := optionalToken_passes p₁.toLocates (by decide) looked
  · simp only [if_true, bind_ok, locationFrom_ok, pure_ok] at h
    obtain ⟨_, _, ⟨rfl, rfl⟩, rfl, rfl⟩ := h
    have whole := p₁.trans p₂
    exact ⟨_, whole, whole.covers (List.append_ne_nil_of_left_ne_nil c₁.ne_nil _) rfl (.cons c₁ (.none _))⟩
  · obtain ⟨rfl, rfl⟩ := pure_ok.1 h
    exact ⟨ts, p₁, c₁⟩

end

theorem typeRefWithin_spans (n : Nat) : Spans body (typeRefWithin n) .type := by
  induction n with
  | zero => exact typeRefWith_spans tooDeep_returns
  | succ n ih => exact typeRefWith_spans ih

theorem typeRef_spans : Spans body typeRef .type := fun s _ _ here h => typeRefWithin_spans s.levelsLeft here h

section
variable {inner : Parser (Option Modifier)} (strews : Strews body inner fun m => m.toList.map .modifier)
include strews

theorem modifierHead_strews {made : Option Modifier} (here : s.Locates body)
    (h : modifierHead inner s.token s = .ok made s') :
    ∃ ts, Passes body ts s s' ∧ Strewn (Covers body) ts (made.toList.map .modifier) := by
  unfold modifierHead at h
  obtain ⟨bracket, s₁, looked, h⟩ := bind_ok.1 h
  obtain ⟨rfl, p₁⟩ | ⟨rfl, rfl⟩ := optionalToken_passes here (by decide) looked
  · simp only [if_true, map_ok, listModifierWith, bind_ok, locationFrom_ok, pure_ok] at h
    obtain ⟨_, ⟨element, s₂, read, t, s₃, closed, _, _, ⟨rfl, rfl⟩, rfl, rfl⟩, rfl⟩ := h
    obtain ⟨ts₂, p₂, c₂⟩ := strews.nested p₁.toLocates read
    obtain ⟨-, p₃⟩ := expectToken_passes p₂.toLocates (by decide) closed
    have whole := p₁.trans (p₂.trans p₃)
    exact ⟨_, whole, .one (whole.covers (List.cons_ne_nil _ _) rfl (.behind _ (c₂.before _)))⟩
  · obtain ⟨rfl, rfl⟩ := pure_ok.1 h
    exact ⟨[], .refl here, .nil⟩

theorem modifierWith_strews : Strews body (modifierWith inner) fun m => m.toList.map .modifier := by
  intro s made s' here h
  rw [modifierWith_run] at h
  obtain ⟨element, s₁, read, h⟩ := bind_ok.1 h
  obtain ⟨ts, p₁, c₁⟩ := modifierHead_strews strews here read
  unfold modifierMark at h
  obtain ⟨bang, s₂, looked, h⟩ := bind_ok.1 h
  obtain ⟨rfl, p₂⟩ | ⟨rfl, rfl⟩ := optionalToken_passes p₁.toLocates (by decide) looked
  · simp only [if_true, bind_ok, locationFrom_ok, pure_ok] at h
    obtain ⟨_, _, ⟨rfl, rfl⟩, rfl, rfl⟩ := h
    have whole := p₁.trans p₂
    exact ⟨_, whole, .one (whole.covers (by simp) rfl (c₁.before _))⟩
  simp only [Bool.false_eq_true, if_false] at h
  obtain ⟨question, s₂, looked, h⟩ := bind_ok.1 h
  obtain ⟨rfl, p₂⟩ | ⟨rfl, rfl⟩ := optionalToken_passes p₁.toLocates (by decide) looked
  · simp only [if_true, bind_ok, locationFrom_ok, pure_ok] at h
    obtain ⟨_, _, ⟨rfl, rfl⟩, rfl, rfl⟩ := h
    have whole := p₁.trans p₂
    exact ⟨_, whole, .one (whole.covers (by simp) rfl (c₁.before _))⟩
  · obtain ⟨rfl, rfl⟩ := pure_ok.1 h
    exact ⟨ts, p₁, c₁⟩

end

theorem modifierWithin_strews (n : Nat) : Strews body (modifierWithin n) fun m => m.toList.map .modifier := by
  induction n with
  | zero => exact modifierWith_strews tooDeep_returns
  | succ n ih => exact modifierWith_strews ih

theorem modifier_strews : Strews body modifier fun m => m.toList.map .modifier :=
  fun s _ _ here h => modifierWithin_strews s.levelsLeft here h

theorem fragmentName_spans : Spans body fragmentName .name := by
  intro s made s' here h
  unfold fragmentName at h
  rw [get_bind] at h
  split_ifs at h
  · exact (unexpected_fails h).elim
  · exact name_spans here h

theorem fragmentSpread_strewn {start : Token} {made : FragmentSpread} (here : s.Locates body)
    (h : fragmentSpread start s = .ok made s') : ∃ ts, Passes body ts s s' ∧
      Strewn (Covers body) ts (Node.selection (.spread made)).children ∧ made.loc = located s' start := by
  simp only [fragmentSpread, bind_ok, locationFrom_ok, pure_ok] at h
  obtain ⟨name, s₁, named, ds, s₂, directed, _, _, ⟨rfl, rfl⟩, rfl, rfl⟩ := h
  obtain ⟨ts₁, p₁, c₁⟩ := fragmentName_spans here named
  obtain ⟨ts₂, p₂, c₂⟩ := directives_strews p₁.toLocates directed
  exact ⟨_, p₁.trans p₂, .cons c₁ c₂, rfl⟩

theorem conditionTail_strews (hasTypeCondition : Bool) :
    Strews body (conditionTail hasTypeCondition) fun type => type.toList.map (.type ∘ .named) :=
  namedType_spans.optional hasTypeCondition

theorem fieldNames_fills : Fills body fieldNames fun names => names.1.toList.map .name ++ [.name names.2] := by
  intro s made s' here h
  unfold fieldNames at h
  obtain ⟨first, s₁, named, h⟩ := bind_ok.1 h
  obtain ⟨ts₁, p₁, c₁⟩ := name_spans here named
  obtain ⟨colon, s₂, looked, h⟩ := bind_ok.1 h
  obtain ⟨rfl, p₂⟩ | ⟨rfl, rfl⟩ := optionalToken_passes p₁.toLocates (by decide) looked
  · simp only [if_true, bind_ok, pure_ok] at h
    obtain ⟨second, s₃, named', rfl, rfl⟩ := h
    obtain ⟨ts₃, p₃, c₃⟩ := name_spans p₂.toLocates named'
    exact ⟨_, p₁.trans (p₂.trans p₃), by simp, .cons c₁ (.behind _ (.one c₃))⟩
  · obtain ⟨rfl, rfl⟩ := pure_ok.1 h
    exact ⟨ts₁, p₁, c₁.ne_nil, .one c₁⟩

section
variable {inner : Parser SelectionSet} (spans : Spans body inner .selectionSet)
include spans

theorem inlineFragmentWith_strewn {start : Token} {hasTypeCondition : Bool} {made : InlineFragment}
    (here : s.Locates body) (h : inlineFragmentWith inner start hasTypeCondition s = .ok made s') :
    ∃ ts, Passes body ts s s' ∧ Strewn (Covers body) ts (Node.selection (.inline made)).children ∧
      made.loc = located s' start := by
  rw [inlineFragmentWith_eq] at h
  simp only [bind_ok, locationFrom_ok, pure_ok] at h
  obtain ⟨type, s₁, typed, ds, s₂, directed, set, s₃, selected, _, _, ⟨rfl, rfl⟩, rfl, rfl⟩ := h
  obtain ⟨ts₁, p₁, c₁⟩ := conditionTail_strews hasTypeCondition here typed
  obtain ⟨ts₂, p₂, c₂⟩ := directives_strews p₁.toLocates directed
  obtain ⟨ts₃, p₃, c₃⟩ := spans p₂.toLocates selected
  exact ⟨_, p₁.trans (p₂.trans p₃), c₁.append (c₂.append (.one c₃)), rfl⟩

theorem fragmentSelectionWith_spans : Spans body (fragmentSelectionWith inner) .selection := by
  intro s made s' here h
  unfold fragmentSelectionWith at h
  simp only [bind_ok, peek_ok] at h
  obtain ⟨start, s₁, marked, hasCondition, s₂, looked, isName, s₃, ⟨-, rfl⟩, h⟩ := h
  obtain ⟨rfl, p₁⟩ := expectToken_passes here (by decide) marked
  obtain ⟨rfl, p₂⟩ | ⟨rfl, rfl⟩ := optionalKeyword_passes p₁.toLocates looked
  · simp only [Bool.not_true, Bool.false_and, Bool.false_eq_true, if_false, bind_ok, pure_ok] at h
    obtain ⟨f, s₄, read, rfl, rfl⟩ := h
    obtain ⟨ts₃, p₃, c₃, loc⟩ := inlineFragmentWith_strewn spans p₂.toLocates read
    have whole := p₁.trans (p₂.trans p₃)
    exact ⟨_, whole, whole.covers (List.cons_ne_nil _ _) loc (.behind _ (.behind _ c₃))⟩
  · cases isName with
    | true =>
        simp only [Bool.not_false, Bool.true_and, if_true, bind_ok, pure_ok] at h
        obtain ⟨f, s₄, read, rfl, rfl⟩ := h
        obtain ⟨ts₂, p₂, c₂, loc⟩ := fragmentSpread_strewn p₁.toLocates read
        have whole := p₁.trans p₂
        exact ⟨_, whole, whole.covers (List.cons_ne_nil _ _) loc (.behind _ c₂)⟩
    | false =>
        simp only [Bool.and_false, Bool.false_eq_true, if_false, bind_ok, pure_ok] at h
        obtain ⟨f, s₄, read, rfl, rfl⟩ := h
        obtain ⟨ts₂, p₂, c₂, loc⟩ := inlineFragmentWith_strewn spans p₁.toLocates read
        have whole := p₁.trans p₂
        exact ⟨_, whole, whole.covers (List.cons_ne_nil _ _) loc (.behind _ c₂)⟩

theorem maybeSet_strews : Strews body (maybeSet inner) fun set => set.toList.map .selectionSet :=
  Returns.peek fun present => Spans.optional spans present

theorem fieldWith_spans : Spans body (fieldWith inner) (.selection ∘ .field) := by
  intro s made s' here h
  rw [fieldWith_run] at h
  simp only [bind_ok, locationFrom_ok, pure_ok] at h
  obtain ⟨names, s₁, named, as, s₂, called, m, s₃, modified, ds, s₄, directed, set, s₅, selected, _, _, ⟨rfl, rfl⟩, rfl,
    rfl⟩ := h
  obtain ⟨ts₁, p₁, some, c₁⟩ := fieldNames_fills here named
  obtain ⟨ts₂, p₂, c₂⟩ := arguments_strews p₁.toLocates called
  obtain ⟨ts₃, p₃, c₃⟩ := modifier_strews p₂.toLocates modified
  obtain ⟨ts₄, p₄, c₄⟩ := directives_strews p₃.toLocates directed
  obtain ⟨ts₅, p₅, c₅⟩ := maybeSet_strews spans p₄.toLocates selected
  have whole := p₁.trans (p₂.trans (p₃.trans (p₄.trans p₅)))
  refine ⟨_, whole, whole.covers (List.append_ne_nil_of_left_ne_nil some _) rfl ?_⟩
  have strewn := c₁.append (c₂.append (c₃.append (c₄.append c₅)))
  rw [List.append_assoc] at strewn
  exact strewn

theorem selectionWith_spans : Spans body (selectionWith inner) .selection := by
  refine Returns.peek fun isSpread => ?_
  cases isSpread with
  | true => exact fragmentSelectionWith_spans spans
  | false =>
      intro s made s' here h
      simp only [Bool.false_eq_true, if_false, bind_ok, pure_ok] at h
      obtain ⟨f, s₂, read, rfl, rfl⟩ := h
      exact fieldWith_spans spans here read

theorem selectionSetWith_spans : Spans body (selectionSetWith inner) .selectionSet := by
  intro s made s' here h
  simp only [selectionSetWith, currentToken_bind, bind_ok, locationFrom_ok, pure_ok] at h
  obtain ⟨selections, s₁, read, _, _, ⟨rfl, rfl⟩, rfl, rfl⟩ := h
  obtain ⟨ts, passes, some, strewn⟩ := (many_fills (by decide) (by decide) (selectionWith_spans spans)).nested here read
  exact ⟨ts, passes, passes.covers some rfl strewn⟩

end

theorem selectionSetWithin_spans (n : Nat) : Spans body (selectionSetWithin n) .selectionSet := by
  induction n with
  | zero => exact selectionSetWith_spans tooDeep_returns
  | succ n ih => exact selectionSetWith_spans ih

theorem selectionSet_spans : Spans body selectionSet .selectionSet :=
  fun s _ _ here h => selectionSetWithin_spans s.levelsLeft here h

theorem maybeDefault_strews : Strews body maybeDefault fun value => value.toList.map .value :=
  Strews.optionalToken (by decide) fun present => value_spans.optional present

theorem variableDefinition_spans : Spans body variableDefinition .variableDefinition := by
  intro s made s' here h
  rw [variableDefinition_run] at h
  simp only [bind_ok, locationFrom_ok, pure_ok] at h
  obtain ⟨v, s₁, named, t, s₂, marked, type, s₃, typed, value, s₄, read, ds, s₅, directed, _, _, ⟨rfl, rfl⟩, rfl, rfl⟩ := h
  obtain ⟨ts₁, p₁, c₁⟩ := var_spans here named
  obtain ⟨-, p₂⟩ := expectToken_passes p₁.toLocates (by decide) marked
  obtain ⟨ts₃, p₃, c₃⟩ := typeRef_spans p₂.toLocates typed
  obtain ⟨ts₄, p₄, c₄⟩ := maybeDefault_strews p₃.toLocates read
  obtain ⟨ts₅, p₅, c₅⟩ := directives_strews p₄.toLocates directed
  have whole := p₁.trans (p₂.trans (p₃.trans (p₄.trans p₅)))
  exact ⟨_, whole, whole.covers (List.append_ne_nil_of_left_ne_nil c₁.ne_nil _) rfl
    (.cons c₁ (.behind _ (.cons c₃ (c₄.append c₅))))⟩

theorem variableDefinitions_strews : Strews body variableDefinitions (List.map .variableDefinition) :=
  optionalMany_strews (by decide) (by decide) variableDefinition_spans

theorem operationType_passes (here : s.Locates body) {type : OperationType} (h : operationType s = .ok type s') :
    Passes body [s.token] s s' := by
  unfold operationType at h
  obtain ⟨t, s₁, read, h⟩ := bind_ok.1 h
  obtain ⟨rfl, passes⟩ := expectToken_passes here (by decide) read
  cases found : OperationType.ofText? s.token.value with
  | none => simp [found] at h
  | some known =>
      simp only [found] at h
      obtain ⟨-, rfl⟩ := pure_ok.1 h
      exact passes

theorem maybeName_strews : Strews body maybeName fun name => name.toList.map .name :=
  Returns.peek fun present => name_spans.optional present

theorem operation_spans : Spans body operation (.definition ∘ .operation) := by
  intro s made s' here h
  rw [operation_run] at h
  simp only [bind_ok, peek_ok] at h
  obtain ⟨brace, s₁, ⟨-, rfl⟩, h⟩ := h
  cases brace with
  | true =>
      simp only [if_true, shorthand, bind_ok, locationFrom_ok, pure_ok] at h
      obtain ⟨set, s₁, selected, _, _, ⟨rfl, rfl⟩, rfl, rfl⟩ := h
      obtain ⟨ts, passes, covers⟩ := selectionSet_spans here selected
      exact ⟨ts, passes, passes.covers covers.ne_nil rfl (.one covers)⟩
  | false =>
      simp only [Bool.false_eq_true, if_false, namedOperation, bind_ok, locationFrom_ok, pure_ok] at h
      obtain ⟨type, s₁, typed, found, s₂, named, vs, s₃, defined, ds, s₄, directed, set, s₅, selected, _, _, ⟨rfl, rfl⟩,
        rfl, rfl⟩ := h
      have p₁ := operationType_passes here typed
      obtain ⟨ts₂, p₂, c₂⟩ := maybeName_strews p₁.toLocates named
      obtain ⟨ts₃, p₃, c₃⟩ := variableDefinitions_strews p₂.toLocates defined
      obtain ⟨ts₄, p₄, c₄⟩ := directives_strews p₃.toLocates directed
      obtain ⟨ts₅, p₅, c₅⟩ := selectionSet_spans p₄.toLocates selected
      have whole := p₁.trans (p₂.trans (p₃.trans (p₄.trans p₅)))
      exact ⟨_, whole, whole.covers (List.cons_ne_nil _ _) rfl
        (.behind _ (c₂.append (c₃.append (c₄.append (.one c₅)))))⟩

theorem fragmentVariables_strews :
    Strews body fragmentVariables fun definitions => (definitions.getD []).map .variableDefinition := by
  intro s made s' here h
  unfold fragmentVariables at h
  rw [get_bind] at h
  split_ifs at h
  · obtain ⟨definitions, read, rfl⟩ := map_ok.1 h
    exact variableDefinitions_strews here read
  · obtain ⟨rfl, rfl⟩ := pure_ok.1 h
    exact ⟨[], .refl here, .nil⟩

theorem fragment_spans : Spans body fragment (.definition ∘ .fragment) := by
  intro s made s' here h
  rw [fragment_run] at h
  simp only [bind_ok, locationFrom_ok, pure_ok] at h
  obtain ⟨_, s₁, begun, name, s₂, named, vs, s₃, defined, _, s₄, condition, type, s₅, typed, ds, s₆, directed, set, s₇,
    selected, _, _, ⟨rfl, rfl⟩, rfl, rfl⟩ := h
  have p₁ := expectKeyword_passes here begun
  obtain ⟨ts₂, p₂, c₂⟩ := fragmentName_spans p₁.toLocates named
  obtain ⟨ts₃, p₃, c₃⟩ := fragmentVariables_strews p₂.toLocates defined
  have p₄ := expectKeyword_passes p₃.toLocates condition
  obtain ⟨ts₅, p₅, c₅⟩ := namedType_spans p₄.toLocates typed
  obtain ⟨ts₆, p₆, c₆⟩ := directives_strews p₅.toLocates directed
  obtain ⟨ts₇, p₇, c₇⟩ := selectionSet_spans p₆.toLocates selected
  have whole := p₁.trans (p₂.trans (p₃.trans (p₄.trans (p₅.trans (p₆.trans p₇)))))
  exact ⟨_, whole, whole.covers (List.cons_ne_nil _ _) rfl
    (.behind _ (.cons c₂ (c₃.append (.behind _ (.cons c₅ (c₆.append (.one c₇)))))))⟩

theorem definition_spans : Spans body definition .definition := by
  intro s made s' here h
  have ofOperation (h : (do return .operation (← operation) : Parser Definition) s = .ok made s') :
      ∃ ts, Passes body ts s s' ∧ Covers body ts (.definition made) := by
    simp only [bind_ok, pure_ok] at h
    obtain ⟨made, s₁, read, rfl, rfl⟩ := h
    exact operation_spans here read
  unfold definition at h
  rw [currentToken_bind] at h
  split_ifs at h with brace name type begins
  · exact ofOperation h
  · exact ofOperation h
  · simp only [bind_ok, pure_ok] at h
    obtain ⟨made, s₁, read, rfl, rfl⟩ := h
    exact fragment_spans here read
  · simp at h
  · simp at h

end QueryPlanner.Parser
