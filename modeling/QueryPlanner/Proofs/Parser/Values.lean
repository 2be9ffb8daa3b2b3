import QueryPlanner.Parser.Values
import QueryPlanner.Proofs.Parser.Lists

namespace QueryPlanner.Grammar

def valueKinds : List TokenKind :=
  [.int, .float, .string, .blockString, .name, .dollar, .bracketOpen, .braceOpen]

theorem IsValue.begins (isConst : Bool) : BeginsWith (IsValue isConst) valueKinds := by
  rintro _ _ derives
  cases derives with
  | var _ derives =>
      obtain ⟨text⟩ := derives
      exact ⟨_, _, rfl, by decide⟩
  | int | float | string | blockString | boolean | null | enum | list | object =>
      exact ⟨_, _, rfl, by simp [valueKinds, Lexeme.word, Lexeme.mark]⟩

theorem IsObjectField.begins (isConst : Bool) : BeginsWith (IsObjectField isConst) [.name] := by
  rintro _ _ ⟨text, _⟩
  exact ⟨_, _, rfl, List.mem_singleton_self _⟩

theorem IsArgument.begins (isConst : Bool) : BeginsWith (IsArgument isConst) [.name] := by
  rintro _ _ ⟨text, _⟩
  exact ⟨_, _, rfl, List.mem_singleton_self _⟩

theorem IsDirective.begins (isConst : Bool) : BeginsWith (IsDirective isConst) [.atSign] := by
  rintro _ _ ⟨text, _⟩
  exact ⟨_, _, rfl, List.mem_singleton_self _⟩

end QueryPlanner.Grammar

namespace QueryPlanner.Parser
open Run ParserState Grammar
open Lexeme (mark word)

variable {o : ParseOptions} {n : Nat} {isConst : Bool} {s s' : ParserState}

theorem written_of_valued {t : Token} {kind : TokenKind} (found : t.kind = kind) (valued : kind.isPunctuator = false)
    (more : kind ≠ .endOfFile) : t.written = [⟨kind, t.value⟩] := by
  subst found
  simp [Token.written, Token.lexeme, more, valued]

theorem written_of_name {t : Token} (found : t.kind = .name) : t.written = [word t.value] :=
  written_of_valued found rfl (by decide)

theorem name_sound : SoundAt o n name Name.bare IsName := by
  intro s made s' valid here h
  simp only [name, bind_ok, locationFrom_ok, pure_ok] at h
  obtain ⟨t, s₁, read, _, _, ⟨rfl, rfl⟩, rfl, rfl⟩ := h
  obtain ⟨rfl, kind, taken⟩ := expectToken_sound valid read
  exact ⟨_, .intro _, written_of_name kind ▸ taken⟩

theorem name_complete : CompleteAt o n name Name.bare IsName [] := by
  rintro s _ _ rest ready here ⟨text⟩ remaining -
  obtain ⟨s₁, read, consumes⟩ := expectToken_complete ready remaining
  refine ⟨⟨s.token.value, located s₁ s.token⟩, s₁, ?_, ?_, consumes⟩
  · exact bind_ok.2 ⟨_, s₁, read, bind_ok.2 ⟨_, s₁, locationFrom_ok.2 ⟨rfl, rfl⟩, pure_ok.2 ⟨rfl, rfl⟩⟩⟩
  · rw [Name.bare, ready.value_eq remaining rfl]
    rfl

theorem var_sound : SoundAt o n var Variable.bare IsVariable := by
  intro s made s' valid here h
  simp only [var, bind_ok, locationFrom_ok, pure_ok] at h
  obtain ⟨t, s₁, opened, made, s₂, read, _, _, ⟨rfl, rfl⟩, rfl, rfl⟩ := h
  have taken := expectMark_sound valid opened rfl
  obtain ⟨ls, derives, taken'⟩ := name_sound taken.valid (taken.at_iff.2 here) read
  obtain ⟨text⟩ := made
  cases derives
  exact ⟨_, .intro _, taken.trans taken'⟩

theorem var_complete : CompleteAt o n var Variable.bare IsVariable [] := by
  rintro s _ _ rest ready here ⟨text⟩ remaining -
  obtain ⟨s₁, opened, consumes⟩ := expectToken_complete ready remaining
  obtain ⟨made, s₂, read, bare, consumes'⟩ := name_complete (consumes.ready ready) (consumes.at_iff.2 here) (.intro text)
    (consumes.rest remaining) List.not_mem_nil
  refine ⟨⟨made, located s₂ s.token⟩, s₂, ?_, ?_, consumes.trans consumes'⟩
  · exact bind_ok.2 ⟨_, s₁, opened, bind_ok.2 ⟨made, s₂, read,
      bind_ok.2 ⟨_, s₂, locationFrom_ok.2 ⟨rfl, rfl⟩, pure_ok.2 ⟨rfl, rfl⟩⟩⟩⟩
  · rw [Variable.bare, bare]

abbrev valueAt (isConst : Bool) : Nat → List Lexeme → Value → Prop := Within Value.depth (IsValue isConst)

abbrev objectFieldAt (isConst : Bool) : Nat → List Lexeme → ObjectField → Prop :=
  Within ObjectField.depth (IsObjectField isConst)

section
variable {inner : Parser Value}

def labelled {α : Type} (inner : Parser Value) (make : Name → Value → Option Location → α) : Parser α := do
  let start ← currentToken
  let name ← name
  let _ ← expectToken .colon
  let value ← inner
  return make name value (← locationFrom start)

theorem labelled_sound {α : Type} {make : Name → Value → Option Location → α} {made : α}
    (sound : SoundAt o n inner Value.bare (valueAt isConst n)) (valid : s.Valid) (here : s.At o n)
    (h : labelled inner make s = .ok made s') : ∃ name value loc ls, made = make name value loc ∧
      valueAt isConst n ls value.bare ∧ Consumes (word name.text :: mark .colon :: ls) s s' := by
  simp only [labelled, currentToken_bind, bind_ok, locationFrom_ok, pure_ok] at h
  obtain ⟨name, s₁, named, t, s₂, marked, value, s₃, read, _, _, ⟨rfl, rfl⟩, rfl, rfl⟩ := h
  obtain ⟨_, derives, taken⟩ := name_sound valid here named
  have taken₁ := expectMark_sound taken.valid marked rfl
  obtain ⟨ls, derives₁, taken₂⟩ := sound taken₁.valid (taken₁.at_iff.2 (taken.at_iff.2 here)) read
  obtain ⟨text⟩ := name
  cases derives
  exact ⟨_, value, _, ls, rfl, derives₁, taken.trans (taken₁.trans taken₂)⟩

theorem labelled_complete {α : Type} (make : Name → Value → Option Location → α)
    (complete : CompleteAt o n inner Value.bare (valueAt isConst n) []) (ready : s.Ready) (here : s.At o n) {text : Text}
    {value : Value} {ls rest : List Lexeme} (derives : valueAt isConst n ls value)
    (remaining : s.remaining = word text :: mark .colon :: ls ++ rest) :
    ∃ name made loc s', labelled inner make s = .ok (make name made loc) s' ∧ name.bare = { text } ∧ made.bare = value ∧
      Consumes (word text :: mark .colon :: ls) s s' := by
  obtain ⟨name, s₁, named, bare, c₁⟩ := name_complete ready here (.intro text) remaining List.not_mem_nil
  have ready₁ := c₁.ready ready
  have remaining₁ := c₁.rest remaining
  obtain ⟨s₂, marked, c₂⟩ := expectToken_complete ready₁ remaining₁
  obtain ⟨made, s₃, read, bare', c₃⟩ := complete (c₂.ready ready₁) (c₂.at_iff.2 (c₁.at_iff.2 here)) derives
    (c₂.rest remaining₁) List.not_mem_nil
  refine ⟨name, made, located s₃ s.token, s₃, ?_, bare, bare', c₁.trans (c₂.trans c₃)⟩
  simp only [labelled, currentToken_bind, bind_ok, locationFrom_ok, pure_ok]
  exact ⟨name, s₁, named, _, s₂, marked, made, s₃, read, _, _, ⟨rfl, rfl⟩, rfl, rfl⟩

theorem objectFieldWith_sound (sound : SoundAt o n inner Value.bare (valueAt isConst n)) :
    SoundAt o n (objectFieldWith inner) ObjectField.bare (objectFieldAt isConst n) := by
  intro s made s' valid here h
  obtain ⟨name, value, loc, ls, rfl, ⟨derives, low⟩, taken⟩ := labelled_sound sound valid here (show labelled inner ObjectField.mk s = .ok made s' from h)
  exact ⟨_, ⟨.intro _ derives, low⟩, taken⟩

theorem objectFieldWith_complete (complete : CompleteAt o n inner Value.bare (valueAt isConst n) []) :
    CompleteAt o n (objectFieldWith inner) ObjectField.bare (objectFieldAt isConst n) [] := by
  rintro s _ _ rest ready here ⟨⟨text, derives⟩, low⟩ remaining -
  obtain ⟨name, made, loc, s₁, read, bare, rfl, consumes⟩ :=
    labelled_complete ObjectField.mk complete ready here ⟨derives, low⟩ remaining
  exact ⟨_, s₁, read, by rw [ObjectField.bare, bare], consumes⟩

theorem listWith_sound (sound : ∀ m, n = m + 1 → SoundAt o m inner Value.bare (valueAt isConst m)) :
    SoundAt o n (listWith inner) Value.bare (valueAt isConst n) := by
  intro s made s' valid here h
  simp only [listWith, currentToken_bind, bind_ok, locationFrom_ok, pure_ok] at h
  obtain ⟨values, s₁, read, _, _, ⟨rfl, rfl⟩, rfl, rfl⟩ := h
  have items := nested_sound fun m level => any_sound .bracketOpen .bracketClose rfl rfl (IsValue.begins isConst).within (sound m level)
  obtain ⟨_, ⟨m, rfl, ⟨derives⟩⟩, taken⟩ := items valid here read
  obtain ⟨derives, low⟩ := sequence_within.1 derives
  refine ⟨_, ⟨?_, ?_⟩, taken⟩
  · rw [Value.bare, bareValues_eq_map]
    exact .list derives
  · rw [Value.bare, bareValues_eq_map, Value.depth, valuesDepth_eq]
    exact Nat.succ_le_succ low

theorem listWith_complete (complete : ∀ m, n = m + 1 → CompleteAt o m inner Value.bare (valueAt isConst m) [])
    {ls : List Lexeme} {values : List Value} {rest : List Lexeme} (ready : s.Ready) (here : s.At o n)
    (derives : Sequence (IsValue isConst) ls values) (low : (Value.list values none).depth ≤ n)
    (remaining : s.remaining = mark .bracketOpen :: (ls ++ [mark .bracketClose]) ++ rest) :
    ∃ made s', listWith inner s = .ok made s' ∧ made.bare = .list values none ∧
      Consumes (mark .bracketOpen :: (ls ++ [mark .bracketClose])) s s' := by
  have items := nested_complete fun m level => any_complete .bracketOpen .bracketClose rfl
    (IsValue.begins isConst).within (complete m level) (by decide) List.not_mem_nil
  rw [Value.depth, valuesDepth_eq] at low
  obtain ⟨m, rfl⟩ := Nat.exists_eq_succ_of_ne_zero (Nat.ne_of_gt (Nat.zero_lt_of_lt low))
  obtain ⟨made, s₁, read, rfl, consumes⟩ := items ready here
    ⟨m, rfl, .intro (sequence_within.2 ⟨derives, Nat.le_of_succ_le_succ low⟩)⟩ remaining List.not_mem_nil
  refine ⟨.list made (located s₁ s.token), s₁, ?_, by rw [Value.bare, bareValues_eq_map], consumes⟩
  simp only [listWith, currentToken_bind, bind_ok, locationFrom_ok, pure_ok]
  exact ⟨made, s₁, read, _, _, ⟨rfl, rfl⟩, rfl, rfl⟩

theorem objectWith_sound (sound : ∀ m, n = m + 1 → SoundAt o m inner Value.bare (valueAt isConst m)) :
    SoundAt o n (objectWith inner) Value.bare (valueAt isConst n) := by
  intro s made s' valid here h
  simp only [objectWith, currentToken_bind, bind_ok, locationFrom_ok, pure_ok] at h
  obtain ⟨fields, s₁, read, _, _, ⟨rfl, rfl⟩, rfl, rfl⟩ := h
  have items := nested_sound fun m level =>
    any_sound .braceOpen .braceClose rfl rfl (IsObjectField.begins isConst).within (objectFieldWith_sound (sound m level))
  obtain ⟨_, ⟨m, rfl, ⟨derives⟩⟩, taken⟩ := items valid here read
  obtain ⟨derives, low⟩ := sequence_within.1 derives
  refine ⟨_, ⟨?_, ?_⟩, taken⟩
  · rw [Value.bare, bareObjectFields_eq_map]
    exact .object derives
  · rw [Value.bare, bareObjectFields_eq_map, Value.depth, objectFieldsDepth_eq]
    exact Nat.succ_le_succ low

theorem objectWith_complete (complete : ∀ m, n = m + 1 → CompleteAt o m inner Value.bare (valueAt isConst m) [])
    {ls : List Lexeme} {fields : List ObjectField} {rest : List Lexeme} (ready : s.Ready) (here : s.At o n)
    (derives : Sequence (IsObjectField isConst) ls fields) (low : (Value.object fields none).depth ≤ n)
    (remaining : s.remaining = mark .braceOpen :: (ls ++ [mark .braceClose]) ++ rest) :
    ∃ made s', objectWith inner s = .ok made s' ∧ made.bare = .object fields none ∧
      Consumes (mark .braceOpen :: (ls ++ [mark .braceClose])) s s' := by
  have items := nested_complete fun m level => any_complete .braceOpen .braceClose rfl
    (IsObjectField.begins isConst).within (objectFieldWith_complete (complete m level)) (by decide) List.not_mem_nil
  rw [Value.depth, objectFieldsDepth_eq] at low
  obtain ⟨m, rfl⟩ := Nat.exists_eq_succ_of_ne_zero (Nat.ne_of_gt (Nat.zero_lt_of_lt low))
  obtain ⟨made, s₁, read, rfl, consumes⟩ := items ready here
    ⟨m, rfl, .intro (sequence_within.2 ⟨derives, Nat.le_of_succ_le_succ low⟩)⟩ remaining List.not_mem_nil
  refine ⟨.object made (located s₁ s.token), s₁, ?_, by rw [Value.bare, bareObjectFields_eq_map], consumes⟩
  simp only [objectWith, currentToken_bind, bind_ok, locationFrom_ok, pure_ok]
  exact ⟨made, s₁, read, _, _, ⟨rfl, rfl⟩, rfl, rfl⟩

theorem literal_sound {make : Option Location → Value} {made : Value} {kind : TokenKind} (valid : s.Valid)
    (found : s.token.kind = kind) (valued : kind.isPunctuator = false) (more : kind ≠ .endOfFile)
    (h : (do advance; return make (← locationFrom s.token)) s = .ok made s') :
    ∃ loc, made = make loc ∧ Consumes [⟨kind, s.token.value⟩] s s' := by
  simp only [bind_ok, locationFrom_ok, pure_ok] at h
  obtain ⟨_, s₁, moved, _, _, ⟨rfl, rfl⟩, rfl, rfl⟩ := h
  exact ⟨_, rfl, written_of_valued found valued more ▸ advance_sound valid moved⟩

theorem literal_complete (ready : s.Ready) {kind : TokenKind} {text : Text} {rest : List Lexeme}
    (remaining : s.remaining = ⟨kind, text⟩ :: rest) (valued : kind.isPunctuator = false) (make : Option Location → Value) :
    s.token.kind = kind ∧ s.token.value = text ∧
      ∃ loc s', (do advance; return make (← locationFrom s.token)) s = .ok (make loc) s' ∧ Consumes [⟨kind, text⟩] s s' := by
  obtain ⟨s', moved, consumes⟩ := advance_complete ready
  obtain ⟨written, found⟩ := ready.written_eq remaining
  rw [written] at consumes
  refine ⟨found, ready.value_eq remaining valued, located s' s.token, s', ?_, consumes⟩
  simp only [bind_ok, locationFrom_ok, pure_ok]
  exact ⟨_, s', moved, _, _, ⟨rfl, rfl⟩, rfl, rfl⟩

def named (text : Text) (loc : Option Location) : Value :=
  if text = "true" then .boolean true loc
  else if text = "false" then .boolean false loc
  else if text = "null" then .null loc
  else .enum text loc

theorem nameValue_eq (t : Token) : nameValue t = (do advance; return named t.value (← locationFrom t)) := by
  unfold nameValue named
  split_ifs <;> rfl

theorem named_derives (text : Text) (loc : Option Location) : valueAt isConst n [word text] (named text loc).bare := by
  unfold named
  split_ifs with isTrue isFalse isNull
  · exact ⟨isTrue ▸ .boolean true, Nat.zero_le n⟩
  · exact ⟨isFalse ▸ .boolean false, Nat.zero_le n⟩
  · exact ⟨isNull ▸ .null, Nat.zero_le n⟩
  · exact ⟨.enum (by simp [reservedValues, isTrue, isFalse, isNull]), Nat.zero_le n⟩

theorem unexpected_fails {α : Type} {made : α} : ¬ (do throw (← unexpected) : Parser α) s = .ok made s' := by
  simp

theorem variableInConstant_fails {t : Token} {made : Value} : ¬ variableInConstant t s = .ok made s' := by
  intro h
  unfold variableInConstant at h
  obtain ⟨_, s₁, -, h⟩ := bind_ok.1 h
  rw [get_bind] at h
  split_ifs at h
  · simp at h
  · simp at h

theorem valueWith_sound (sound : ∀ m, n = m + 1 → SoundAt o m inner Value.bare (valueAt isConst m)) :
    SoundAt o n (valueWith isConst inner) Value.bare (valueAt isConst n) := by
  intro s made s' valid here h
  unfold valueWith at h
  rw [currentToken_bind] at h
  cases kind : s.token.kind <;> simp only [kind] at h
  case bracketOpen => exact listWith_sound sound valid here h
  case braceOpen => exact objectWith_sound sound valid here h
  case int =>
      obtain ⟨loc, rfl, taken⟩ := literal_sound valid kind rfl (by decide) h
      exact ⟨_, ⟨.int _, Nat.zero_le n⟩, taken⟩
  case float =>
      obtain ⟨loc, rfl, taken⟩ := literal_sound valid kind rfl (by decide) h
      exact ⟨_, ⟨.float _, Nat.zero_le n⟩, taken⟩
  case string =>
      rw [stringLiteral, currentToken_bind, kind] at h
      obtain ⟨loc, rfl, taken⟩ := literal_sound valid kind rfl (by decide) h
      exact ⟨_, ⟨.string _, Nat.zero_le n⟩, taken⟩
  case blockString =>
      rw [stringLiteral, currentToken_bind, kind] at h
      obtain ⟨loc, rfl, taken⟩ := literal_sound valid kind rfl (by decide) h
      exact ⟨_, ⟨.blockString _, Nat.zero_le n⟩, taken⟩
  case name =>
      rw [nameValue_eq] at h
      obtain ⟨loc, rfl, taken⟩ := literal_sound valid kind rfl (by decide) h
      exact ⟨_, named_derives _ _, taken⟩
  case dollar =>
      cases isConst with
      | true => exact (variableInConstant_fails h).elim
      | false =>
          simp only [Bool.false_eq_true, if_false, bind_ok, pure_ok] at h
          obtain ⟨v, s₁, read, rfl, rfl⟩ := h
          obtain ⟨ls, derives, taken⟩ := var_sound valid here read
          exact ⟨ls, ⟨.var rfl derives, Nat.zero_le n⟩, taken⟩
  all_goals exact (unexpected_fails h).elim

theorem named_boolean (b : Bool) (loc : Option Location) :
    (named (if b then "true" else "false") loc).bare = .boolean b none := by
  have distinct : ¬ Text.ofString "false" = Text.ofString "true" := by decide
  cases b <;> simp [named, distinct, Value.bare]

theorem named_null (loc : Option Location) : (named "null" loc).bare = .null none := by
  have distinct : ¬ Text.ofString "null" = Text.ofString "true" := by decide
  have distinct' : ¬ Text.ofString "null" = Text.ofString "false" := by decide
  simp [named, distinct, distinct', Value.bare]

theorem named_enum {text : Text} (free : text ∉ reservedValues) (loc : Option Location) :
    (named text loc).bare = .enum text none := by
  simp only [reservedValues, List.mem_cons, List.not_mem_nil, or_false, not_or] at free
  rw [named, if_neg free.1, if_neg free.2.1, if_neg free.2.2, Value.bare]

theorem nameValue_complete (ready : s.Ready) {text : Text} {rest : List Lexeme} (remaining : s.remaining = word text :: rest) :
    s.token.kind = .name ∧ ∃ loc s', nameValue s.token s = .ok (named text loc) s' ∧ Consumes [word text] s s' := by
  obtain ⟨kind, value, run⟩ := literal_complete ready remaining rfl (named text)
  rw [nameValue_eq, value]
  exact ⟨kind, run⟩

theorem valueWith_complete (complete : ∀ m, n = m + 1 → CompleteAt o m inner Value.bare (valueAt isConst m) []) :
    CompleteAt o n (valueWith isConst inner) Value.bare (valueAt isConst n) [] := by
  rintro s ls v rest ready here ⟨derives, low⟩ remaining -
  unfold valueWith
  rw [currentToken_bind]
  cases derives with
  | var notConst derives =>
      obtain ⟨made, s₁, read, rfl, consumes⟩ := var_complete ready here derives remaining List.not_mem_nil
      obtain ⟨text⟩ := made
      cases derives
      have kind : s.token.kind = .dollar := (ready.written_eq remaining).2
      simp only [kind, notConst, Bool.false_eq_true, if_false]
      exact ⟨_, s₁, bind_ok.2 ⟨_, s₁, read, pure_ok.2 ⟨rfl, rfl⟩⟩, rfl, consumes⟩
  | int text =>
      obtain ⟨kind, value, loc, s₁, read, consumes⟩ := literal_complete ready remaining rfl (.int text)
      simp only [kind, value]
      exact ⟨_, s₁, read, rfl, consumes⟩
  | float text =>
      obtain ⟨kind, value, loc, s₁, read, consumes⟩ := literal_complete ready remaining rfl (.float text)
      simp only [kind, value]
      exact ⟨_, s₁, read, rfl, consumes⟩
  | string text =>
      obtain ⟨kind, value, loc, s₁, read, consumes⟩ := literal_complete ready remaining rfl (.string text false)
      simp only [kind, stringLiteral, currentToken_bind, value]
      exact ⟨_, s₁, read, rfl, consumes⟩
  | blockString text =>
      obtain ⟨kind, value, loc, s₁, read, consumes⟩ := literal_complete ready remaining rfl (.string text true)
      simp only [kind, stringLiteral, currentToken_bind, value]
      exact ⟨_, s₁, read, rfl, consumes⟩
  | boolean b =>
      obtain ⟨kind, loc, s₁, read, consumes⟩ := nameValue_complete ready remaining
      simp only [kind]
      exact ⟨_, s₁, read, named_boolean b loc, consumes⟩
  | null =>
      obtain ⟨kind, loc, s₁, read, consumes⟩ := nameValue_complete ready remaining
      simp only [kind]
      exact ⟨_, s₁, read, named_null loc, consumes⟩
  | enum free =>
      obtain ⟨kind, loc, s₁, read, consumes⟩ := nameValue_complete ready remaining
      simp only [kind]
      exact ⟨_, s₁, read, named_enum free loc, consumes⟩
  | list derives =>
      have kind : s.token.kind = .bracketOpen := (ready.written_eq remaining).2
      simp only [kind]
      exact listWith_complete complete ready here derives low remaining
  | object derives =>
      have kind : s.token.kind = .braceOpen := (ready.written_eq remaining).2
      simp only [kind]
      exact objectWith_complete complete ready here derives low remaining

end

theorem valueWithin_sound : SoundAt o n (valueWithin isConst n) Value.bare (valueAt isConst n) := by
  -- With no level left, lists and objects are not derived and fail.
  induction n with
  | zero => exact valueWith_sound fun m level => absurd level (Nat.succ_ne_zero m).symm
  | succ n ih => exact valueWith_sound fun m level => Nat.succ.inj level ▸ ih

theorem valueWithin_complete : CompleteAt o n (valueWithin isConst n) Value.bare (valueAt isConst n) [] := by
  induction n with
  | zero => exact valueWith_complete fun m level => absurd level (Nat.succ_ne_zero m).symm
  | succ n ih => exact valueWith_complete fun m level => Nat.succ.inj level ▸ ih

theorem SoundAt.ofLevels {α β : Type} {p : Nat → Parser α} {bare : α → β} {G : List Lexeme → β → Prop}
    (sound : SoundAt o n (p n) bare G) : SoundAt o n (do p (← get).levelsLeft) bare G := by
  intro s part s' valid here h
  rw [get_bind, here.levels] at h
  exact sound valid here h

theorem CompleteAt.ofLevels {α β : Type} {p : Nat → Parser α} {bare : α → β} {G : List Lexeme → β → Prop}
    {avoid : List TokenKind} (complete : CompleteAt o n (p n) bare G avoid) :
    CompleteAt o n (do p (← get).levelsLeft) bare G avoid := by
  intro s ls part rest ready here
  rw [get_bind, here.levels]
  exact complete ready here

theorem value_sound : SoundAt o n (value isConst) Value.bare (valueAt isConst n) := valueWithin_sound.ofLevels

theorem value_complete : CompleteAt o n (value isConst) Value.bare (valueAt isConst n) [] := valueWithin_complete.ofLevels

abbrev argumentAt (isConst : Bool) : Nat → List Lexeme → Argument → Prop := Within Argument.depth (IsArgument isConst)

abbrev directiveAt (isConst : Bool) : Nat → List Lexeme → Directive → Prop :=
  Within Directive.depth (IsDirective isConst)

theorem argument_sound : SoundAt o n (argument isConst) Argument.bare (argumentAt isConst n) := by
  intro s made s' valid here h
  obtain ⟨name, value, loc, ls, rfl, ⟨derives, low⟩, taken⟩ := labelled_sound value_sound valid here (show labelled (value isConst) Argument.mk s = .ok made s' from h)
  exact ⟨_, ⟨.intro _ derives, low⟩, taken⟩

theorem argument_complete : CompleteAt o n (argument isConst) Argument.bare (argumentAt isConst n) [] := by
  rintro s _ _ rest ready here ⟨⟨text, derives⟩, low⟩ remaining -
  obtain ⟨name, made, loc, s₁, read, bare, rfl, consumes⟩ :=
    labelled_complete Argument.mk value_complete ready here ⟨derives, low⟩ remaining
  exact ⟨_, s₁, read, by rw [Argument.bare, bare], consumes⟩

theorem parenthesized_within {α : Type} {depth : α → Nat} {G : List Lexeme → α → Prop} {ls : List Lexeme} {parts : List α} :
    Parenthesized (Within depth G n) ls parts ↔ Parenthesized G ls parts ∧ deepest depth parts ≤ n := by
  constructor
  · rintro (_ | ⟨derives, some⟩)
    · exact ⟨.absent, Nat.zero_le n⟩
    · obtain ⟨derives, low⟩ := sequence_within.1 derives
      exact ⟨.present derives some, low⟩
  · rintro ⟨_ | ⟨derives, some⟩, low⟩
    · exact .absent
    · exact .present (sequence_within.2 ⟨derives, low⟩) some

theorem arguments_sound : SoundAt o n (arguments isConst) (List.map Argument.bare)
    (Parenthesized (argumentAt isConst n)) :=
  parenthesized_sound (IsArgument.begins isConst).within argument_sound

theorem arguments_complete : CompleteAt o n (arguments isConst) (List.map Argument.bare)
    (Parenthesized (argumentAt isConst n)) [.parenOpen] :=
  parenthesized_complete (IsArgument.begins isConst).within argument_complete (by decide) List.not_mem_nil

theorem directive_sound : SoundAt o n (directive isConst) Directive.bare (directiveAt isConst n) := by
  intro s made s' valid here h
  simp only [directive, bind_ok, locationFrom_ok, pure_ok] at h
  obtain ⟨t, s₁, marked, made, s₂, named, as, s₃, read, _, _, ⟨rfl, rfl⟩, rfl, rfl⟩ := h
  have taken := expectMark_sound valid marked rfl
  obtain ⟨_, derives, taken₁⟩ := name_sound taken.valid (taken.at_iff.2 here) named
  obtain ⟨ls, derives₁, taken₂⟩ := arguments_sound taken₁.valid (taken₁.at_iff.2 (taken.at_iff.2 here)) read
  obtain ⟨derives₁, low⟩ := parenthesized_within.1 derives₁
  obtain ⟨text⟩ := made
  cases derives
  exact ⟨_, ⟨.intro _ derives₁, low⟩, taken.trans (taken₁.trans taken₂)⟩

theorem directive_complete : CompleteAt o n (directive isConst) Directive.bare (directiveAt isConst n) [.parenOpen] := by
  rintro s _ _ rest ready here ⟨⟨text, derives⟩, low⟩ remaining follows
  obtain ⟨s₁, marked, c₁⟩ := expectToken_complete ready remaining
  have ready₁ := c₁.ready ready
  have here₁ := c₁.at_iff.2 here
  have remaining₁ := c₁.rest remaining
  obtain ⟨made, s₂, named, bare, c₂⟩ := name_complete ready₁ here₁ (.intro text) remaining₁ List.not_mem_nil
  obtain ⟨as, s₃, read, rfl, c₃⟩ := arguments_complete (c₂.ready ready₁) (c₂.at_iff.2 here₁)
    (parenthesized_within.2 ⟨derives, low⟩) (c₂.rest remaining₁) follows
  refine ⟨⟨made, as, located s₃ s.token⟩, s₃, ?_, by rw [Directive.bare, bare], c₁.trans (c₂.trans c₃)⟩
  simp only [directive, bind_ok, locationFrom_ok, pure_ok]
  exact ⟨_, s₁, marked, made, s₂, named, as, s₃, read, _, _, ⟨rfl, rfl⟩, rfl, rfl⟩

theorem directives_sound : SoundAt o n (directives isConst) (List.map Directive.bare)
    (Sequence (directiveAt isConst n)) := by
  intro s made s' valid here h
  unfold directives at h
  rw [get_bind] at h
  exact itemsWhile_sound directive_sound .atSign _ valid here h

theorem directives_complete : CompleteAt o n (directives isConst) (List.map Directive.bare)
    (Sequence (directiveAt isConst n)) [.atSign, .parenOpen] := by
  intro s ls made rest ready here derives remaining follows
  have begins : BeginsWith (directiveAt isConst n) [.atSign] := (IsDirective.begins isConst).within
  unfold directives
  rw [get_bind]
  exact itemsWhile_complete begins directive_complete (by decide) ready here derives remaining follows
    (enough_fuel begins ready derives remaining)

end QueryPlanner.Parser
