import QueryPlanner.Parser.Definitions
import QueryPlanner.Proofs.Parser.Selections

namespace QueryPlanner

theorem OperationType.ofText?_eq_some_iff {text : Text} {type : OperationType} :
    OperationType.ofText? text = some type ↔ text = type.text := by
  constructor
  · intro found
    have := List.find?_some found
    simpa [eq_comm] using this
  · rintro rfl
    exact OperationType.ofText?_text type

namespace Grammar

theorem IsVariableDefinition.begins : BeginsWith IsVariableDefinition [.dollar] := by
  rintro _ _ ⟨⟨text⟩, -, -, -⟩
  exact ⟨_, _, rfl, List.mem_singleton_self _⟩

theorem IsDefault.begins : BeginsWith IsDefault [.equals] := by
  rintro _ _ ⟨_⟩
  exact ⟨_, _, rfl, List.mem_singleton_self _⟩

theorem IsName.begins : BeginsWith IsName [.name] := by
  rintro _ _ ⟨text⟩
  exact ⟨_, _, rfl, List.mem_singleton_self _⟩

theorem IsOperation.begins : BeginsWith IsOperation [.braceOpen, .name] := by
  rintro _ _ (derives | ⟨type, -, -, -, -⟩)
  · obtain ⟨l, rest, rfl, kind⟩ := IsSelectionSet.begins derives
    exact ⟨l, rest, rfl, List.mem_cons.2 (.inl (List.mem_singleton.1 kind))⟩
  · exact ⟨_, _, rfl, List.mem_cons_of_mem _ (List.mem_singleton_self _)⟩

theorem IsDefinition.begins (allowVariables : Bool) : BeginsWith (IsDefinition allowVariables) [.braceOpen, .name] := by
  rintro _ _ (derives | ⟨_, _, _, _, _⟩)
  · exact IsOperation.begins derives
  · exact ⟨_, _, rfl, List.mem_cons_of_mem _ (List.mem_singleton_self _)⟩

end Grammar

namespace Parser
open Run ParserState Grammar
open Lexeme (mark word)

variable {o : ParseOptions} {n : Nat} {s s' : ParserState}

abbrev variableDefinitionAt : Nat → List Lexeme → VariableDefinition → Prop :=
  Within VariableDefinition.depth IsVariableDefinition

def maybeDefault : Parser (Option Value) := do
  if ← optionalToken .equals then some <$> value true else pure none

theorem maybeDefault_sound :
    SoundAt o n maybeDefault (Option.map Value.bare) (Maybe (Within Value.depth IsDefault n)) := by
  intro s made s' valid here h
  unfold maybeDefault at h
  obtain ⟨present, s₁, looked, h⟩ := bind_ok.1 h
  obtain ⟨rfl, -, t₁⟩ | ⟨rfl, rfl⟩ := optionalToken_sound valid looked (.inl rfl)
  · obtain ⟨v, read, rfl⟩ := map_ok.1 h
    obtain ⟨ls, ⟨derives, low⟩, t₂⟩ := value_sound t₁.valid (t₁.at_iff.2 here) read
    exact ⟨_, .present ⟨.intro derives, low⟩, t₁.trans t₂⟩
  · obtain ⟨rfl, rfl⟩ := pure_ok.1 h
    exact ⟨[], .absent, .refl valid⟩

theorem maybeDefault_complete :
    CompleteAt o n maybeDefault (Option.map Value.bare) (Maybe (Within Value.depth IsDefault n)) [.equals] := by
  intro s ls value rest ready here derives remaining follows
  unfold maybeDefault
  cases derives with
  | absent =>
      have skipped := optionalToken_skip .equals ready.toValid (by rw [remaining]; simpa using follows)
      exact ⟨none, s, bind_ok.2 ⟨false, s, skipped, pure_ok.2 ⟨rfl, rfl⟩⟩, rfl, .refl ready.toValid⟩
  | present derives =>
      obtain ⟨⟨derives⟩, low⟩ := derives
      obtain ⟨s₁, taken, c₁⟩ := optionalToken_take .equals ready (by rw [remaining]; rfl) (.inl rfl)
      obtain ⟨made, s₂, read, rfl, c₂⟩ := value_complete (c₁.ready ready) (c₁.at_iff.2 here) ⟨derives, low⟩
        (c₁.rest remaining) List.not_mem_nil
      exact ⟨some made, s₂, bind_ok.2 ⟨true, s₁, taken, map_ok.2 ⟨made, read, rfl⟩⟩, rfl, c₁.trans c₂⟩

theorem variableDefinition_run : variableDefinition s = (do
    let var ← var
    let _ ← expectToken .colon
    let type ← typeRef
    let defaultValue ← maybeDefault
    let directives ← directives true
    return ⟨var, type, defaultValue, directives, ← locationFrom s.token⟩ : Parser VariableDefinition) s := by
  unfold variableDefinition maybeDefault
  rw [currentToken_bind]
  simp only [bind_assoc]
  refine congrFun (bind_congr fun _ => bind_congr fun _ => bind_congr fun _ => bind_congr fun present => ?_) s
  cases present <;> rfl

theorem variableDefinition_sound :
    SoundAt o n variableDefinition VariableDefinition.bare (variableDefinitionAt n) := by
  intro s made s' valid here h
  rw [variableDefinition_run] at h
  simp only [bind_ok, locationFrom_ok, pure_ok] at h
  obtain ⟨v, s₁, named, t, s₂, marked, type, s₃, typed, value, s₄, read, ds, s₅, directed, _, _, ⟨rfl, rfl⟩, rfl, rfl⟩ := h
  obtain ⟨vs, variableDerives, t₁⟩ := var_sound valid here named
  have t₂ := t₁.trans (expectMark_sound t₁.valid marked rfl)
  obtain ⟨ts, ⟨typeDerives, low₃⟩, t₃⟩ := typeRef_sound t₂.valid (t₂.at_iff.2 here) typed
  have t₂₃ := t₂.trans t₃
  obtain ⟨ls, defaultDerives, t₄⟩ := maybeDefault_sound t₃.valid (t₂₃.at_iff.2 here) read
  obtain ⟨ds', directivesDerive, t₅⟩ := directives_sound t₄.valid ((t₂₃.trans t₄).at_iff.2 here) directed
  obtain ⟨defaultDerives, low₄⟩ := maybe_within.1 defaultDerives
  obtain ⟨directivesDerive, low₅⟩ := sequence_within.1 directivesDerive
  refine ⟨_, ⟨.intro variableDerives typeDerives defaultDerives directivesDerive,
    Nat.max_le.2 ⟨low₃, Nat.max_le.2 ⟨low₄, low₅⟩⟩⟩, ?_⟩
  have consumed := t₂.trans (t₃.trans (t₄.trans t₅))
  rw [List.append_assoc] at consumed
  exact consumed

theorem variableDefinition_complete :
    CompleteAt o n variableDefinition VariableDefinition.bare (variableDefinitionAt n)
      [.bang, .equals, .atSign, .parenOpen] := by
  rintro s _ _ rest ready here ⟨@⟨vs, ts, ls, ds, var, type, value, directives, variableDerives, typeDerives,
    defaultDerives, directivesDerive⟩, low⟩ remaining follows
  simp only [List.append_assoc, List.cons_append] at remaining
  obtain ⟨low₃, low⟩ := Nat.max_le.1 low
  obtain ⟨low₄, low₅⟩ := Nat.max_le.1 low
  have avoids {avoid : List TokenKind} (among : avoid ⊆ [.bang, .equals, .atSign, .parenOpen]) : nextKind rest ∉ avoid :=
    fun h => follows (among h)
  have follows₁ {avoid : List TokenKind} (among : avoid ⊆ [.bang, .equals, .atSign, .parenOpen])
      (apart : TokenKind.atSign ∉ avoid) : nextKind (ds ++ rest) ∉ avoid :=
    (IsDirective.begins true).sequence.follows directivesDerive (by simpa using apart) (avoids among)
  have follows₂ : nextKind (ls ++ (ds ++ rest)) ∉ [TokenKind.bang] :=
    IsDefault.begins.maybe.follows defaultDerives (by decide) (follows₁ (by decide) (by decide))
  obtain ⟨var', s₁, named, rfl, c₁⟩ := var_complete ready here variableDerives remaining List.not_mem_nil
  have ready₁ := c₁.ready ready
  have here₁ := c₁.at_iff.2 here
  have remaining₁ := c₁.rest remaining
  obtain ⟨s₂, marked, c₂⟩ := expectToken_complete ready₁ remaining₁
  have ready₂ := c₂.ready ready₁
  have here₂ := c₂.at_iff.2 here₁
  have remaining₂ := c₂.rest remaining₁
  obtain ⟨type', s₃, typed, rfl, c₃⟩ := typeRef_complete ready₂ here₂ ⟨typeDerives, low₃⟩ remaining₂ follows₂
  have ready₃ := c₃.ready ready₂
  have here₃ := c₃.at_iff.2 here₂
  have remaining₃ := c₃.rest remaining₂
  obtain ⟨value', s₄, read, rfl, c₄⟩ := maybeDefault_complete ready₃ here₃
    (maybe_within.2 ⟨defaultDerives, low₄⟩) remaining₃ (follows₁ (by decide) (by decide))
  obtain ⟨ds', s₅, directed, rfl, c₅⟩ := directives_complete (c₄.ready ready₃) (c₄.at_iff.2 here₃)
    (sequence_within.2 ⟨directivesDerive, low₅⟩) (c₄.rest remaining₃) (avoids (by decide))
  refine ⟨⟨var', type', value', ds', located s₅ s.token⟩, s₅, ?_, rfl,
    c₁.trans (c₂.trans (c₃.trans (c₄.trans c₅)))⟩
  rw [variableDefinition_run]
  simp only [bind_ok, locationFrom_ok, pure_ok]
  exact ⟨var', s₁, named, _, s₂, marked, type', s₃, typed, value', s₄, read, ds', s₅, directed, _, _, ⟨rfl, rfl⟩, rfl, rfl⟩

theorem variableDefinitions_sound : SoundAt o n variableDefinitions (List.map VariableDefinition.bare)
    (Parenthesized (variableDefinitionAt n)) :=
  parenthesized_sound IsVariableDefinition.begins.within variableDefinition_sound

theorem variableDefinitions_complete : CompleteAt o n variableDefinitions (List.map VariableDefinition.bare)
    (Parenthesized (variableDefinitionAt n)) [.parenOpen] :=
  parenthesized_complete IsVariableDefinition.begins.within variableDefinition_complete (by decide) (by decide)

abbrev operationAt : Nat → List Lexeme → Operation → Prop := Within Operation.depth IsOperation

theorem operationType_sound (valid : s.Valid) {type : OperationType} (h : operationType s = .ok type s') :
    Consumes [word type.text] s s' := by
  unfold operationType at h
  obtain ⟨t, s₁, read, h⟩ := bind_ok.1 h
  obtain ⟨rfl, kind, taken⟩ := expectToken_sound valid read
  cases found : OperationType.ofText? s.token.value with
  | none => simp [found] at h
  | some known =>
      simp only [found] at h
      obtain ⟨rfl, rfl⟩ := pure_ok.1 h
      rw [written_of_name kind, OperationType.ofText?_eq_some_iff.1 found] at taken
      exact taken

theorem operationType_complete (type : OperationType) {rest : List Lexeme} (ready : s.Ready)
    (remaining : s.remaining = word type.text :: rest) :
    ∃ s', operationType s = .ok type s' ∧ Consumes [word type.text] s s' := by
  obtain ⟨s₁, read, c₁⟩ := expectToken_complete ready remaining
  have value : s.token.value = type.text := ready.value_eq remaining rfl
  refine ⟨s₁, bind_ok.2 ⟨_, s₁, read, ?_⟩, c₁⟩
  rw [value, OperationType.ofText?_text]
  exact pure_ok.2 ⟨rfl, rfl⟩

def maybeName : Parser (Option Name) := do
  if ← peek .name then some <$> name else pure none

theorem maybeName_sound : SoundAt o n maybeName (Option.map Name.bare) (Maybe IsName) := by
  intro s made s' valid here h
  unfold maybeName at h
  simp only [bind_ok, peek_ok] at h
  obtain ⟨more, s₁, ⟨-, rfl⟩, h⟩ := h
  cases more with
  | false =>
      obtain ⟨rfl, rfl⟩ := pure_ok.1 h
      exact ⟨[], .absent, .refl valid⟩
  | true =>
      obtain ⟨made, named, rfl⟩ := map_ok.1 h
      obtain ⟨ls, derives, taken⟩ := name_sound valid here named
      exact ⟨ls, .present derives, taken⟩

theorem maybeName_complete : CompleteAt o n maybeName (Option.map Name.bare) (Maybe IsName) [.name] := by
  intro s ls found rest ready here derives remaining follows
  have looked := peek_eq .name ready.toValid
  rw [remaining] at looked
  unfold maybeName
  cases derives with
  | absent =>
      rw [List.nil_append, decide_eq_false (by simpa using follows)] at looked
      exact ⟨none, s, bind_ok.2 ⟨false, s, looked, pure_ok.2 ⟨rfl, rfl⟩⟩, rfl, .refl ready.toValid⟩
  | present derives =>
      rw [List.mem_singleton.1 (IsName.begins.nextKind derives rest), decide_eq_true rfl] at looked
      obtain ⟨made, s₁, named, rfl, c₁⟩ := name_complete ready here derives remaining List.not_mem_nil
      exact ⟨some made, s₁, bind_ok.2 ⟨true, s, looked, map_ok.2 ⟨made, named, rfl⟩⟩, rfl, c₁⟩

def shorthand (start : Token) : Parser Operation := do
  let set ← selectionSet
  return ⟨.query, none, [], [], set, ← locationFrom start⟩

def namedOperation (start : Token) : Parser Operation := do
  let type ← operationType
  let name ← maybeName
  let definitions ← variableDefinitions
  let directives ← directives false
  let set ← selectionSet
  return ⟨type, name, definitions, directives, set, ← locationFrom start⟩

theorem operation_run : operation s = (do
    if ← peek .braceOpen then shorthand s.token else namedOperation s.token : Parser Operation) s := by
  unfold operation shorthand namedOperation maybeName
  rw [currentToken_bind]
  refine congrFun (bind_congr fun brace => ?_) s
  cases brace
  · simp only [bind_assoc, Bool.false_eq_true, if_false]
    exact bind_congr fun _ => bind_congr fun more => by cases more <;> rfl
  · rfl

theorem shorthand_sound (start : Token) : SoundAt o n (shorthand start) Operation.bare (operationAt n) := by
  intro s made s' valid here h
  simp only [shorthand, bind_ok, locationFrom_ok, pure_ok] at h
  obtain ⟨set, s₁, selected, _, _, ⟨rfl, rfl⟩, rfl, rfl⟩ := h
  obtain ⟨ls, ⟨derives, low⟩, taken⟩ := selectionSet_sound valid here selected
  exact ⟨ls, ⟨.shorthand derives, Nat.max_le.2 ⟨Nat.zero_le n, Nat.max_le.2 ⟨Nat.zero_le n, low⟩⟩⟩, taken⟩

theorem namedOperation_sound (start : Token) : SoundAt o n (namedOperation start) Operation.bare (operationAt n) := by
  intro s made s' valid here h
  simp only [namedOperation, bind_ok, locationFrom_ok, pure_ok] at h
  obtain ⟨type, s₁, typed, found, s₂, named, vs, s₃, defined, ds, s₄, directed, set, s₅, selected, _, _, ⟨rfl, rfl⟩, rfl,
    rfl⟩ := h
  have t₁ := operationType_sound valid typed
  obtain ⟨ns, nameDerives, t₂⟩ := maybeName_sound t₁.valid (t₁.at_iff.2 here) named
  have t₁₂ := t₁.trans t₂
  obtain ⟨vs', definitionsDerive, t₃⟩ := variableDefinitions_sound t₂.valid (t₁₂.at_iff.2 here) defined
  have t₁₃ := t₁₂.trans t₃
  obtain ⟨ds', directivesDerive, t₄⟩ := directives_sound t₃.valid (t₁₃.at_iff.2 here) directed
  obtain ⟨ls, ⟨setDerives, low₅⟩, t₅⟩ := selectionSet_sound t₄.valid ((t₁₃.trans t₄).at_iff.2 here) selected
  obtain ⟨definitionsDerive, low₃⟩ := parenthesized_within.1 definitionsDerive
  obtain ⟨directivesDerive, low₄⟩ := sequence_within.1 directivesDerive
  exact ⟨_, ⟨.intro type nameDerives definitionsDerive directivesDerive setDerives,
    Nat.max_le.2 ⟨low₃, Nat.max_le.2 ⟨low₄, low₅⟩⟩⟩, t₁.trans (t₂.trans (t₃.trans (t₄.trans t₅)))⟩

theorem operation_sound : SoundAt o n operation Operation.bare (operationAt n) := by
  intro s made s' valid here h
  rw [operation_run] at h
  simp only [bind_ok, peek_ok] at h
  obtain ⟨brace, s₁, ⟨-, rfl⟩, h⟩ := h
  cases brace with
  | true => exact shorthand_sound s.token valid here h
  | false => exact namedOperation_sound s.token valid here h

theorem shorthand_complete (start : Token) {ls rest : List Lexeme} {set : SelectionSet} (derives : IsSelectionSet ls set)
    (low : set.depth ≤ n) (ready : s.Ready) (here : s.At o n) (remaining : s.remaining = ls ++ rest) :
    ∃ made s', shorthand start s = .ok made s' ∧ made.bare = ⟨.query, none, [], [], set, none⟩ ∧ Consumes ls s s' := by
  obtain ⟨set', s₁, selected, rfl, c₁⟩ := selectionSet_complete ready here ⟨derives, low⟩ remaining List.not_mem_nil
  refine ⟨⟨.query, none, [], [], set', located s₁ start⟩, s₁, ?_, rfl, c₁⟩
  simp only [shorthand, bind_ok, locationFrom_ok, pure_ok]
  exact ⟨set', s₁, selected, _, _, ⟨rfl, rfl⟩, rfl, rfl⟩

theorem namedOperation_complete (start : Token) {ns vs ds ls rest : List Lexeme} {type : OperationType}
    {name : Option Name} {definitions : List VariableDefinition} {directives : List Directive} {set : SelectionSet}
    (nameDerives : Maybe IsName ns name) (definitionsDerive : AreVariableDefinitions vs definitions)
    (directivesDerive : AreDirectives false ds directives) (setDerives : IsSelectionSet ls set)
    (low : (Operation.mk type name definitions directives set none).depth ≤ n) (ready : s.Ready) (here : s.At o n)
    (remaining : s.remaining = word type.text :: (ns ++ (vs ++ (ds ++ (ls ++ rest))))) :
    ∃ made s', namedOperation start s = .ok made s' ∧ made.bare = ⟨type, name, definitions, directives, set, none⟩ ∧
      Consumes (word type.text :: (ns ++ (vs ++ (ds ++ ls)))) s s' := by
  obtain ⟨low₃, low⟩ := Nat.max_le.1 low
  obtain ⟨low₄, low₅⟩ := Nat.max_le.1 low
  have brace {avoid : List TokenKind} (apart : TokenKind.braceOpen ∉ avoid) : nextKind (ls ++ rest) ∉ avoid := by
    rw [List.mem_singleton.1 (IsSelectionSet.begins.nextKind setDerives rest)]
    exact apart
  have follows₃ : nextKind (ds ++ (ls ++ rest)) ∉ [TokenKind.parenOpen] :=
    (IsDirective.begins false).sequence.follows directivesDerive (by decide) (brace (by decide))
  have follows₂ : nextKind (vs ++ (ds ++ (ls ++ rest))) ∉ [TokenKind.name] :=
    Parenthesized.begins.follows definitionsDerive (by decide)
      ((IsDirective.begins false).sequence.follows directivesDerive (by decide) (brace (by decide)))
  obtain ⟨s₁, typed, c₁⟩ := operationType_complete type ready remaining
  have ready₁ := c₁.ready ready
  have here₁ := c₁.at_iff.2 here
  have remaining₁ := c₁.rest remaining
  obtain ⟨name', s₂, named, rfl, c₂⟩ := maybeName_complete ready₁ here₁ nameDerives remaining₁ follows₂
  have ready₂ := c₂.ready ready₁
  have here₂ := c₂.at_iff.2 here₁
  have remaining₂ := c₂.rest remaining₁
  obtain ⟨vs', s₃, defined, rfl, c₃⟩ := variableDefinitions_complete ready₂ here₂
    (parenthesized_within.2 ⟨definitionsDerive, low₃⟩) remaining₂ follows₃
  have ready₃ := c₃.ready ready₂
  have here₃ := c₃.at_iff.2 here₂
  have remaining₃ := c₃.rest remaining₂
  obtain ⟨ds', s₄, directed, rfl, c₄⟩ := directives_complete ready₃ here₃
    (sequence_within.2 ⟨directivesDerive, low₄⟩) remaining₃ (brace (by decide))
  obtain ⟨set', s₅, selected, rfl, c₅⟩ := selectionSet_complete (c₄.ready ready₃) (c₄.at_iff.2 here₃)
    ⟨setDerives, low₅⟩ (c₄.rest remaining₃) List.not_mem_nil
  refine ⟨⟨type, name', vs', ds', set', located s₅ start⟩, s₅, ?_, rfl,
    c₁.trans (c₂.trans (c₃.trans (c₄.trans c₅)))⟩
  simp only [namedOperation, bind_ok, locationFrom_ok, pure_ok]
  exact ⟨type, s₁, typed, name', s₂, named, vs', s₃, defined, ds', s₄, directed, set', s₅, selected, _, _, ⟨rfl, rfl⟩,
    rfl, rfl⟩

theorem operation_complete : CompleteAt o n operation Operation.bare (operationAt n) [] := by
  rintro s ls _ rest ready here ⟨derives, low⟩ remaining -
  have looked := peek_eq .braceOpen ready.toValid
  rw [operation_run]
  cases derives with
  | shorthand derives =>
      rw [remaining, List.mem_singleton.1 (IsSelectionSet.begins.nextKind derives rest), decide_eq_true rfl] at looked
      have low := (Nat.max_le.1 (Nat.max_le.1 low).2).2
      obtain ⟨made, s₁, read, bare, c₁⟩ := shorthand_complete s.token derives low ready here remaining
      exact ⟨made, s₁, bind_ok.2 ⟨true, s, looked, read⟩, bare, c₁⟩
  | intro type nameDerives definitionsDerive directivesDerive setDerives =>
      simp only [List.cons_append, List.append_assoc] at remaining
      rw [remaining, nextKind_cons, decide_eq_false (by simp [word])] at looked
      obtain ⟨made, s₁, read, bare, c₁⟩ := namedOperation_complete s.token nameDerives definitionsDerive directivesDerive
        setDerives low ready here remaining
      exact ⟨made, s₁, bind_ok.2 ⟨false, s, looked, read⟩, bare, c₁⟩

abbrev fragmentAt (allowVariables : Bool) : Nat → List Lexeme → Fragment → Prop :=
  Within Fragment.depth (IsFragment allowVariables)

def fragmentVariables : Parser (Option (List VariableDefinition)) := do
  if (← get).options.allowFragmentVariables then some <$> variableDefinitions else pure none

theorem fragmentVariables_sound :
    SoundAt o n fragmentVariables (Option.map (List.map VariableDefinition.bare)) (fun ls definitions =>
      AreFragmentVariables o.allowFragmentVariables ls definitions ∧
        deepest VariableDefinition.depth (definitions.getD []) ≤ n) := by
  intro s made s' valid here h
  unfold fragmentVariables at h
  rw [get_bind, here.options] at h
  cases allowed : o.allowFragmentVariables with
  | false =>
      rw [allowed] at h
      obtain ⟨rfl, rfl⟩ := pure_ok.1 h
      exact ⟨[], ⟨.excluded, Nat.zero_le n⟩, .refl valid⟩
  | true =>
      rw [allowed] at h
      obtain ⟨vs, read, rfl⟩ := map_ok.1 h
      obtain ⟨ls, derives, taken⟩ := variableDefinitions_sound valid here read
      obtain ⟨derives, low⟩ := parenthesized_within.1 derives
      exact ⟨ls, ⟨.allowed derives, low⟩, taken⟩

theorem fragmentVariables_complete :
    CompleteAt o n fragmentVariables (Option.map (List.map VariableDefinition.bare)) (fun ls definitions =>
      AreFragmentVariables o.allowFragmentVariables ls definitions ∧
        deepest VariableDefinition.depth (definitions.getD []) ≤ n) [.parenOpen] := by
  rintro s ls definitions rest ready here ⟨derives, low⟩ remaining follows
  unfold fragmentVariables
  rw [get_bind, here.options]
  cases allowed : o.allowFragmentVariables with
  | false =>
      rw [allowed] at derives
      cases derives
      exact ⟨none, s, pure_ok.2 ⟨rfl, rfl⟩, rfl, .refl ready.toValid⟩
  | true =>
      rw [allowed] at derives
      cases derives with
      | allowed derives =>
          obtain ⟨made, s₁, read, rfl, c₁⟩ := variableDefinitions_complete ready here
            (parenthesized_within.2 ⟨derives, low⟩) remaining follows
          exact ⟨some made, s₁, map_ok.2 ⟨made, read, rfl⟩, rfl, c₁⟩

theorem fragment_run : fragment s = (do
    expectKeyword "fragment"
    let name ← fragmentName
    let definitions ← fragmentVariables
    expectKeyword "on"
    let type ← namedType
    let directives ← directives false
    let set ← selectionSet
    return ⟨name, definitions, type, directives, set, ← locationFrom s.token⟩ : Parser Fragment) s := by
  unfold fragment fragmentVariables
  rw [currentToken_bind]
  simp only [bind_assoc]
  refine congrFun (bind_congr fun _ => bind_congr fun _ => bind_congr fun here => ?_) s
  cases here.options.allowFragmentVariables <;> rfl

theorem fragment_sound : SoundAt o n fragment Fragment.bare (fragmentAt o.allowFragmentVariables n) := by
  intro s made s' valid here h
  rw [fragment_run] at h
  simp only [bind_ok, locationFrom_ok, pure_ok] at h
  obtain ⟨_, s₁, begun, ⟨text, _⟩, s₂, named, vs, s₃, defined, _, s₄, condition, type, s₅, typed, ds, s₆, directed, set, s₇,
    selected, _, _, ⟨rfl, rfl⟩, rfl, rfl⟩ := h
  have t₁ := expectKeyword_sound valid begun
  obtain ⟨_, ⟨⟨⟩, proper⟩, t₂⟩ := fragmentName_sound t₁.valid (t₁.at_iff.2 here) named
  have t₁₂ := t₁.trans t₂
  obtain ⟨vs', ⟨definitionsDerive, low₃⟩, t₃⟩ := fragmentVariables_sound t₂.valid (t₁₂.at_iff.2 here) defined
  have t₁₃ := t₁₂.trans t₃
  have t₄ := expectKeyword_sound t₃.valid condition
  have t₁₄ := t₁₃.trans t₄
  obtain ⟨ts, typeDerives, t₅⟩ := namedType_sound t₄.valid (t₁₄.at_iff.2 here) typed
  have t₁₅ := t₁₄.trans t₅
  obtain ⟨ds', directivesDerive, t₆⟩ := directives_sound t₅.valid (t₁₅.at_iff.2 here) directed
  obtain ⟨ls, ⟨setDerives, low₇⟩, t₇⟩ := selectionSet_sound t₆.valid ((t₁₅.trans t₆).at_iff.2 here) selected
  obtain ⟨directivesDerive, low₆⟩ := sequence_within.1 directivesDerive
  obtain ⟨⟨typeText, _⟩, _⟩ := type
  cases typeDerives
  exact ⟨_, ⟨.intro proper definitionsDerive (.intro typeText) directivesDerive setDerives,
    Nat.max_le.2 ⟨low₃, Nat.max_le.2 ⟨low₆, low₇⟩⟩⟩,
    t₁.trans (t₂.trans (t₃.trans ((t₄.trans t₅).trans (t₆.trans t₇))))⟩

theorem fragment_complete :
    CompleteAt o n fragment Fragment.bare (fragmentAt o.allowFragmentVariables n) [] := by
  rintro s _ _ rest ready here ⟨@⟨vs, _, ds, ls, text, definitions, _, directives, set, proper, definitionsDerive,
    ⟨typeText⟩, directivesDerive, setDerives⟩, low⟩ remaining -
  simp only [List.append_assoc, List.cons_append, List.nil_append] at remaining
  obtain ⟨low₃, low⟩ := Nat.max_le.1 low
  obtain ⟨low₆, low₇⟩ := Nat.max_le.1 low
  have brace : nextKind (ls ++ rest) ∉ [.atSign, .parenOpen] := by
    rw [List.mem_singleton.1 (IsSelectionSet.begins.nextKind setDerives rest)]
    decide
  obtain ⟨s₁, begun, c₁⟩ := expectKeyword_complete ready remaining
  have ready₁ := c₁.ready ready
  have here₁ := c₁.at_iff.2 here
  have remaining₁ := c₁.rest remaining
  obtain ⟨name', s₂, named, bare, c₂⟩ := fragmentName_complete proper ready₁ here₁ remaining₁
  have ready₂ := c₂.ready ready₁
  have here₂ := c₂.at_iff.2 here₁
  have remaining₂ := c₂.rest remaining₁
  obtain ⟨vs', s₃, defined, rfl, c₃⟩ := fragmentVariables_complete ready₂ here₂ ⟨definitionsDerive, low₃⟩ remaining₂
    (by simp [word])
  have ready₃ := c₃.ready ready₂
  have here₃ := c₃.at_iff.2 here₂
  have remaining₃ := c₃.rest remaining₂
  obtain ⟨s₄, condition, c₄⟩ := expectKeyword_complete ready₃ remaining₃
  have ready₄ := c₄.ready ready₃
  have here₄ := c₄.at_iff.2 here₃
  have remaining₄ := c₄.rest remaining₃
  obtain ⟨type', s₅, typed, bare', c₅⟩ := namedType_complete ready₄ here₄ (.intro typeText) remaining₄ List.not_mem_nil
  have ready₅ := c₅.ready ready₄
  have here₅ := c₅.at_iff.2 here₄
  have remaining₅ := c₅.rest remaining₄
  obtain ⟨ds', s₆, directed, rfl, c₆⟩ := directives_complete ready₅ here₅
    (sequence_within.2 ⟨directivesDerive, low₆⟩) remaining₅ brace
  obtain ⟨set', s₇, selected, rfl, c₇⟩ := selectionSet_complete (c₆.ready ready₅) (c₆.at_iff.2 here₅)
    ⟨setDerives, low₇⟩ (c₆.rest remaining₅) List.not_mem_nil
  refine ⟨⟨name', vs', type', ds', set', located s₇ s.token⟩, s₇, ?_, by rw [Fragment.bare, bare, bare'],
    c₁.trans (c₂.trans (c₃.trans ((c₄.trans c₅).trans (c₆.trans c₇))))⟩
  rw [fragment_run]
  simp only [bind_ok, locationFrom_ok, pure_ok]
  exact ⟨_, s₁, begun, name', s₂, named, vs', s₃, defined, _, s₄, condition, type', s₅, typed, ds', s₆, directed, set', s₇,
    selected, _, _, ⟨rfl, rfl⟩, rfl, rfl⟩

abbrev definitionAt (allowVariables : Bool) : Nat → List Lexeme → Definition → Prop :=
  Within Definition.depth (IsDefinition allowVariables)

theorem definition_sound : SoundAt o n definition Definition.bare (definitionAt o.allowFragmentVariables n) := by
  intro s made s' valid here h
  have ofOperation (h : (do return .operation (← operation) : Parser Definition) s = .ok made s') :
      ∃ ls, definitionAt o.allowFragmentVariables n ls made.bare ∧ Consumes ls s s' := by
    simp only [bind_ok, pure_ok] at h
    obtain ⟨made, s₁, read, rfl, rfl⟩ := h
    obtain ⟨ls, ⟨derives, low⟩, taken⟩ := operation_sound valid here read
    exact ⟨ls, ⟨.operation derives, low⟩, taken⟩
  unfold definition at h
  rw [currentToken_bind] at h
  split_ifs at h with brace name type begins
  · exact ofOperation h
  · exact ofOperation h
  · simp only [bind_ok, pure_ok] at h
    obtain ⟨made, s₁, read, rfl, rfl⟩ := h
    obtain ⟨ls, ⟨derives, low⟩, taken⟩ := fragment_sound valid here read
    exact ⟨ls, ⟨.fragment derives, low⟩, taken⟩
  · simp at h
  · simp at h

theorem definition_complete :
    CompleteAt o n definition Definition.bare (definitionAt o.allowFragmentVariables n) [] := by
  rintro s ls _ rest ready here ⟨derives, low⟩ remaining follows
  unfold definition
  rw [currentToken_bind]
  cases derives with
  | operation derives =>
      obtain ⟨made, s₁, read, rfl, c₁⟩ := operation_complete ready here ⟨derives, low⟩ remaining follows
      refine ⟨.operation made, s₁, ?_, rfl, c₁⟩
      have read : (do return .operation (← operation) : Parser Definition) s = .ok (.operation made) s₁ :=
        bind_ok.2 ⟨made, s₁, read, pure_ok.2 ⟨rfl, rfl⟩⟩
      generalize made.bare = tree at derives
      cases derives with
      | shorthand derives =>
          have kind := ready.nextKind_remaining
          rw [remaining, List.mem_singleton.1 (IsSelectionSet.begins.nextKind derives rest)] at kind
          rw [if_pos kind.symm]
          exact read
      | intro type =>
          have kind : s.token.kind = .name := (ready.written_eq remaining).2
          have value : s.token.value = type.text := ready.value_eq remaining rfl
          rw [if_neg (by simp [kind]), if_pos kind, value, OperationType.ofText?_text, Option.isSome_some, if_pos rfl]
          exact read
  | fragment derives =>
      obtain ⟨made, s₁, read, rfl, c₁⟩ := fragment_complete ready here ⟨derives, low⟩ remaining follows
      refine ⟨.fragment made, s₁, ?_, rfl, c₁⟩
      generalize made.bare = tree at derives
      obtain ⟨⟩ := derives
      have kind : s.token.kind = .name := (ready.written_eq remaining).2
      have value : s.token.value = "fragment" := ready.value_eq remaining rfl
      have noOperation : OperationType.ofText? "fragment" = none := by decide
      rw [if_neg (by simp [kind]), if_pos kind, value, noOperation, Option.isSome_none, if_neg (by decide), if_pos rfl]
      exact bind_ok.2 ⟨made, s₁, read, pure_ok.2 ⟨rfl, rfl⟩⟩

end Parser

end QueryPlanner
