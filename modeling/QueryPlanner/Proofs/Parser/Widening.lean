import QueryPlanner.Proofs.Parser.Definitions

namespace QueryPlanner

structure ParseOptions.IsWithin (o o' : ParseOptions) : Prop where
  tokens : ∀ count, o.allows count → o'.allows count
  levels : o.depthLimit ≤ o'.depthLimit
  definitions : o.allowFragmentVariables = o'.allowFragmentVariables

structure ParseOptions.IsShownBy (o o' : ParseOptions) : Prop extends o.IsWithin o' where
  locations : o'.noLocation = false

def bareIf {α : Type} : Bool → (α → α) → α → α
  | true, bare => bare
  | false, _ => id

def ParserState.under (s : ParserState) (o : ParseOptions) : ParserState := { s with options := o }

namespace Parser
open Run

variable {o o' : ParseOptions} {α β : Type} {view : α → α} {p q : Parser α}

/-- What the first parser returns under the first options the second one returns under the second, seen through `view`. -/
def Follows (o o' : ParseOptions) (view : α → α) (p q : Parser α) : Prop :=
  ∀ ⦃s made s'⦄, s.options = o → p s = .ok made s' →
    s'.options = o ∧ ∃ whole, q (s.under o') = .ok whole (s'.under o') ∧ made = view whole

namespace Follows

variable {view' : β → β} {f g : α → Parser β} {h k : ParserState → Parser α}

theorem pure {made whole : α} (same : made = view whole) : Follows o o' view (Pure.pure made) (Pure.pure whole) := by
  intro s result s' here run
  obtain ⟨rfl, rfl⟩ := pure_ok.1 run
  exact ⟨here, whole, rfl, same⟩

theorem bind (first : Follows o o' view p q) (next : ∀ whole, Follows o o' view' (f (view whole)) (g whole)) :
    Follows o o' view' (p >>= f) (q >>= g) := by
  intro s made s' here run
  obtain ⟨a, s₁, run₁, run₂⟩ := bind_ok.1 run
  obtain ⟨here₁, whole, follows, rfl⟩ := first here run₁
  obtain ⟨here₂, result, follows', same⟩ := next whole here₁ run₂
  exact ⟨here₂, result, bind_ok.2 ⟨whole, s₁.under o', follows, follows'⟩, same⟩

theorem apply {s s' : ParserState} {made : α} (follows : Follows o o' view p q) (here : s.options = o)
    (run : p s = .ok made s') : s'.options = o ∧ ∃ whole, q (s.under o') = .ok whole (s'.under o') ∧ made = view whole :=
  follows here run

theorem get (next : ∀ s, s.options = o → Follows o o' view (h s) (k (s.under o'))) :
    Follows o o' view (MonadState.get >>= h) (MonadState.get >>= k) := by
  intro s made s' here run
  exact next s here here run

theorem map {F : α → β} (first : Follows o o' view p q) (same : ∀ whole, F (view whole) = view' (F whole)) :
    Follows o o' view' (F <$> p) (F <$> q) := by
  intro s made s' here run
  obtain ⟨a, inner, rfl⟩ := map_ok.1 run
  obtain ⟨here', whole, follows, rfl⟩ := first here inner
  exact ⟨here', F whole, map_ok.2 ⟨whole, follows, rfl⟩, same whole⟩

theorem map_some {bare : α → α} {b : Bool} (first : Follows o o' (bareIf b bare) p q) :
    Follows o o' (bareIf b (Option.map bare)) (some <$> p) (some <$> q) :=
  first.map fun _ => by cases b <;> rfl

theorem none {bare : α → α} {b : Bool} :
    Follows o o' (bareIf b (Option.map bare)) (Pure.pure Option.none) (Pure.pure Option.none) :=
  .pure (by cases b <;> rfl)

theorem ite {c : Prop} [Decidable c] {p' q' : Parser α} (yes : Follows o o' view p q) (no : Follows o o' view p' q') :
    Follows o o' view (if c then p else p') (if c then q else q') := by
  split_ifs
  · exact yes
  · exact no

theorem of_fails (fails : ∀ s made s', ¬ p s = .ok made s') : Follows o o' view p q := by
  intro s made s' here run
  exact absurd run (fails s made s')

end Follows

theorem tooDeep_follows : Follows o o' view tooDeep q := by
  refine .of_fails fun s made s' run => ?_
  simp [tooDeep] at run

theorem currentToken_follows : Follows o o' id currentToken currentToken := by
  intro s made s' here run
  obtain ⟨rfl, rfl⟩ := currentToken_ok.1 run
  exact ⟨here, s.token, rfl, rfl⟩

theorem peek_follows (kind : TokenKind) : Follows o o' id (peek kind) (peek kind) := by
  intro s made s' here run
  obtain ⟨rfl, rfl⟩ := peek_ok.1 run
  exact ⟨here, _, rfl, rfl⟩

variable (within : o.IsShownBy o')
include within

theorem locationFrom_follows (start : Token) :
    Follows o o' (bareIf o.noLocation fun _ => none) (locationFrom start) (locationFrom start) := by
  intro s made s' here run
  obtain ⟨rfl, rfl⟩ := locationFrom_ok.1 run
  refine ⟨here, located (s.under o') start, locationFrom_ok.2 ⟨rfl, rfl⟩, ?_⟩
  rw [located, located, here, ParserState.under, within.locations]
  cases o.noLocation <;> rfl

theorem advance_follows : Follows o o' id advance advance := by
  intro s made s' here run
  refine ⟨?_, (), advance_ok.2 ?_, rfl⟩
  · obtain ⟨token, -, rfl⟩ | ⟨token, rest, -, rfl, -⟩ := advance_ok.1 run
    · exact here
    · exact here
  · obtain ⟨token, last, rfl⟩ | ⟨token, rest, more, rfl, allowed⟩ := advance_ok.1 run
    · exact .inl ⟨token, last, rfl⟩
    · exact .inr ⟨token, rest, more, rfl, within.tokens _ (here ▸ allowed)⟩

theorem expectToken_follows (kind : TokenKind) : Follows o o' id (expectToken kind) (expectToken kind) := by
  intro s made s' here run
  obtain ⟨found, rfl, moved⟩ := expectToken_ok.1 run
  obtain ⟨here', _, follows, -⟩ := advance_follows within here moved
  exact ⟨here', s.token, expectToken_ok.2 ⟨found, rfl, follows⟩, rfl⟩

theorem optionalToken_follows (kind : TokenKind) : Follows o o' id (optionalToken kind) (optionalToken kind) := by
  intro s made s' here run
  obtain ⟨found, rfl, moved⟩ | ⟨other, rfl, rfl⟩ := optionalToken_ok.1 run
  · obtain ⟨here', _, follows, -⟩ := advance_follows within here moved
    exact ⟨here', true, optionalToken_ok.2 (.inl ⟨found, rfl, follows⟩), rfl⟩
  · exact ⟨here, false, optionalToken_ok.2 (.inr ⟨other, rfl, rfl⟩), rfl⟩

theorem expectKeyword_follows (word : Text) : Follows o o' id (expectKeyword word) (expectKeyword word) := by
  intro s made s' here run
  obtain ⟨found, moved⟩ := expectKeyword_ok.1 run
  obtain ⟨here', _, follows, -⟩ := advance_follows within here moved
  exact ⟨here', (), expectKeyword_ok.2 ⟨found, follows⟩, rfl⟩

theorem optionalKeyword_follows (word : Text) : Follows o o' id (optionalKeyword word) (optionalKeyword word) := by
  intro s made s' here run
  obtain ⟨found, rfl, moved⟩ | ⟨other, rfl, rfl⟩ := optionalKeyword_ok.1 run
  · obtain ⟨here', _, follows, -⟩ := advance_follows within here moved
    exact ⟨here', true, optionalKeyword_ok.2 (.inl ⟨found, rfl, follows⟩), rfl⟩
  · exact ⟨here, false, optionalKeyword_ok.2 (.inr ⟨other, rfl, rfl⟩), rfl⟩

theorem nested_follows (inner : Follows o o' view p q) : Follows o o' view (nested p) (nested q) := by
  intro s made s' here run
  obtain ⟨room, s₁, inside, rfl⟩ := nested_ok.1 run
  obtain ⟨here₁, whole, follows, same⟩ := inner (s := s.deeper) here inside
  refine ⟨here₁, whole, nested_ok.2 ⟨?_, s₁.under o', follows, rfl⟩, same⟩
  have levels := within.levels
  rw [← here] at levels
  rw [ne_eq, levelsLeft_eq_zero_iff] at room ⊢
  exact fun full => room (Int.le_trans levels full)

theorem levelsLeft_le {s : ParserState} (here : s.options = o) : s.levelsLeft ≤ (s.under o').levelsLeft := by
  have levels := within.levels
  simp only [ParserState.levelsLeft, ParserState.under, here]
  omega

theorem levels_follow {deeper : Parser α → Parser α} (levels : Nat → Parser α) (none : levels 0 = deeper tooDeep)
    (more : ∀ n, levels (n + 1) = deeper (levels n))
    (step : ∀ {p q}, Follows o o' view p q → Follows o o' view (deeper p) (deeper q)) :
    Follows o o' view (do levels (← MonadState.get).levelsLeft) (do levels (← MonadState.get).levelsLeft) := by
  have follow (n n' : Nat) (wider : n ≤ n') : Follows o o' view (levels n) (levels n') := by
    induction n generalizing n' with
    | zero =>
        rw [none]
        cases n' with
        | zero => exact none ▸ step tooDeep_follows
        | succ n' => exact more n' ▸ step tooDeep_follows
    | succ n ih =>
        obtain ⟨n', rfl⟩ := Nat.exists_eq_add_one.2 (Nat.zero_lt_of_lt wider)
        rw [more, more]
        exact step (ih n' (Nat.le_of_succ_le_succ wider))
  exact .get fun _ here => follow _ _ (levelsLeft_le within here)

section
variable {bare : α → α} (item : Follows o o' (bareIf o.noLocation bare) p q)
include item

theorem itemsUntil_follows (close : TokenKind) (fuel : Nat) :
    Follows o o' (bareIf o.noLocation (List.map bare)) (itemsUntil close p fuel) (itemsUntil close q fuel) := by
  induction fuel with
  | zero => exact .pure (by cases o.noLocation <;> rfl)
  | succ fuel ih =>
      refine (optionalToken_follows within close).bind fun closed => .ite (.pure ?_) ?_
      · cases o.noLocation <;> rfl
      · exact item.bind fun first => ih.bind fun rest => .pure (by cases o.noLocation <;> rfl)

theorem oneOrMore_follows (close : TokenKind) :
    Follows o o' (bareIf o.noLocation (List.map bare)) (oneOrMore p close) (oneOrMore q close) := by
  refine item.bind fun first => .get fun s _ => (itemsUntil_follows within item close _).bind fun rest => .pure ?_
  cases o.noLocation <;> rfl

theorem any_follows (opening close : TokenKind) :
    Follows o o' (bareIf o.noLocation (List.map bare)) (any opening p close) (any opening q close) :=
  (expectToken_follows within opening).bind fun _ => .get fun _ _ => itemsUntil_follows within item close _

theorem many_follows (opening close : TokenKind) :
    Follows o o' (bareIf o.noLocation (List.map bare)) (many opening p close) (many opening q close) :=
  (expectToken_follows within opening).bind fun _ => oneOrMore_follows within item close

theorem optionalMany_follows (opening close : TokenKind) :
    Follows o o' (bareIf o.noLocation (List.map bare)) (optionalMany opening p close) (optionalMany opening q close) := by
  refine (optionalToken_follows within opening).bind fun opened => .ite (oneOrMore_follows within item close) (.pure ?_)
  cases o.noLocation <;> rfl

omit within in
theorem itemsWhile_follows (kind : TokenKind) (fuel : Nat) :
    Follows o o' (bareIf o.noLocation (List.map bare)) (itemsWhile kind p fuel) (itemsWhile kind q fuel) := by
  induction fuel with
  | zero => exact .pure (by cases o.noLocation <;> rfl)
  | succ fuel ih =>
      refine (peek_follows kind).bind fun more => .ite ?_ (.pure (by cases o.noLocation <;> rfl))
      exact item.bind fun first => ih.bind fun rest => .pure (by cases o.noLocation <;> rfl)

end

theorem name_follows : Follows o o' (bareIf o.noLocation Name.bare) name name := by
  refine (expectToken_follows within .name).bind fun token => (locationFrom_follows within token).bind fun loc => .pure ?_
  cases o.noLocation <;> rfl

theorem var_follows : Follows o o' (bareIf o.noLocation Variable.bare) var var := by
  refine (expectToken_follows within .dollar).bind fun start => (name_follows within).bind fun name =>
    (locationFrom_follows within start).bind fun loc => .pure ?_
  cases o.noLocation <;> rfl

theorem stringLiteral_follows : Follows o o' (bareIf o.noLocation Value.bare) stringLiteral stringLiteral := by
  refine currentToken_follows.bind fun token => (advance_follows within).bind fun _ =>
    (locationFrom_follows within token).bind fun loc => .pure ?_
  cases o.noLocation <;> rfl

theorem nameValue_follows (token : Token) :
    Follows o o' (bareIf o.noLocation Value.bare) (nameValue token) (nameValue token) := by
  refine (advance_follows within).bind fun _ => (locationFrom_follows within token).bind fun loc => ?_
  refine .ite (.pure ?_) (.ite (.pure ?_) (.ite (.pure ?_) (.pure ?_)))
  all_goals cases o.noLocation <;> rfl

section
variable {inner inner' : Parser Value} (value : Follows o o' (bareIf o.noLocation Value.bare) inner inner')
include value

theorem objectFieldWith_follows :
    Follows o o' (bareIf o.noLocation ObjectField.bare) (objectFieldWith inner) (objectFieldWith inner') := by
  refine currentToken_follows.bind fun start => (name_follows within).bind fun name =>
    (expectToken_follows within .colon).bind fun _ => value.bind fun value =>
    (locationFrom_follows within start).bind fun loc => .pure ?_
  cases o.noLocation <;> rfl

theorem listWith_follows : Follows o o' (bareIf o.noLocation Value.bare) (listWith inner) (listWith inner') := by
  refine currentToken_follows.bind fun start =>
    (nested_follows within (any_follows within value .bracketOpen .bracketClose)).bind fun values =>
    (locationFrom_follows within start).bind fun loc => .pure ?_
  cases o.noLocation
  · rfl
  · exact congrArg (Value.list · none) (bareValues_eq_map values).symm

theorem objectWith_follows : Follows o o' (bareIf o.noLocation Value.bare) (objectWith inner) (objectWith inner') := by
  refine currentToken_follows.bind fun start =>
    (nested_follows within (any_follows within (objectFieldWith_follows within value) .braceOpen .braceClose)).bind
      fun fields => (locationFrom_follows within start).bind fun loc => .pure ?_
  cases o.noLocation
  · rfl
  · exact congrArg (Value.object · none) (bareObjectFields_eq_map fields).symm

theorem valueWith_follows (isConst : Bool) :
    Follows o o' (bareIf o.noLocation Value.bare) (valueWith isConst inner) (valueWith isConst inner') := by
  refine currentToken_follows.bind fun token => ?_
  cases kind : token.kind <;> simp only [id, kind]
  case bracketOpen => exact listWith_follows within value
  case braceOpen => exact objectWith_follows within value
  case int =>
    refine (advance_follows within).bind fun _ => (locationFrom_follows within token).bind fun loc => .pure ?_
    cases o.noLocation <;> rfl
  case float =>
    refine (advance_follows within).bind fun _ => (locationFrom_follows within token).bind fun loc => .pure ?_
    cases o.noLocation <;> rfl
  case string => exact stringLiteral_follows within
  case blockString => exact stringLiteral_follows within
  case name => exact nameValue_follows within token
  case dollar =>
    refine .ite (.of_fails fun _ _ _ => variableInConstant_fails) ?_
    exact (var_follows within).bind fun v => .pure (by cases o.noLocation <;> rfl)
  all_goals exact .of_fails fun _ _ _ => unexpected_fails

end

theorem value_follows (isConst : Bool) : Follows o o' (bareIf o.noLocation Value.bare) (value isConst) (value isConst) :=
  levels_follow within (valueWithin isConst) rfl (fun _ => rfl) fun inner => valueWith_follows within inner isConst

theorem argument_follows (isConst : Bool) :
    Follows o o' (bareIf o.noLocation Argument.bare) (argument isConst) (argument isConst) := by
  refine currentToken_follows.bind fun start => (name_follows within).bind fun name =>
    (expectToken_follows within .colon).bind fun _ => (value_follows within isConst).bind fun value =>
    (locationFrom_follows within start).bind fun loc => .pure ?_
  cases o.noLocation <;> rfl

theorem arguments_follows (isConst : Bool) :
    Follows o o' (bareIf o.noLocation (List.map Argument.bare)) (arguments isConst) (arguments isConst) :=
  optionalMany_follows within (argument_follows within isConst) .parenOpen .parenClose

theorem directive_follows (isConst : Bool) :
    Follows o o' (bareIf o.noLocation Directive.bare) (directive isConst) (directive isConst) := by
  refine (expectToken_follows within .atSign).bind fun start => (name_follows within).bind fun name =>
    (arguments_follows within isConst).bind fun arguments => (locationFrom_follows within start).bind fun loc => .pure ?_
  cases o.noLocation <;> rfl

theorem directives_follows (isConst : Bool) :
    Follows o o' (bareIf o.noLocation (List.map Directive.bare)) (directives isConst) (directives isConst) :=
  .get fun _ _ => itemsWhile_follows (directive_follows within isConst) .atSign _

theorem namedType_follows : Follows o o' (bareIf o.noLocation NamedType.bare) namedType namedType := by
  refine currentToken_follows.bind fun start => (name_follows within).bind fun name =>
    (locationFrom_follows within start).bind fun loc => .pure ?_
  cases o.noLocation <;> rfl

section
variable {inner inner' : Parser TypeRef} (item : Follows o o' (bareIf o.noLocation TypeRef.bare) inner inner')
include item

theorem listTypeWith_follows (start : Token) :
    Follows o o' (bareIf o.noLocation TypeRef.bare) (listTypeWith inner start) (listTypeWith inner' start) := by
  refine (nested_follows within item).bind fun item => (expectToken_follows within .bracketClose).bind fun _ =>
    (locationFrom_follows within start).bind fun loc => .pure ?_
  cases o.noLocation <;> rfl

omit item in
theorem typeMark_follows (start : Token) (type : TypeRef) : Follows o o' (bareIf o.noLocation TypeRef.bare)
    (typeMark start (bareIf o.noLocation TypeRef.bare type)) (typeMark start type) := by
  refine (optionalToken_follows within .bang).bind fun marked => .ite ?_ (.pure rfl)
  refine (locationFrom_follows within start).bind fun loc => .pure ?_
  cases o.noLocation <;> rfl

theorem typeRefWith_follows : Follows o o' (bareIf o.noLocation TypeRef.bare) (typeRefWith inner) (typeRefWith inner') := by
  refine currentToken_follows.bind fun start => (optionalToken_follows within .bracketOpen).bind fun opened => ?_
  cases opened with
  | true => exact (listTypeWith_follows within item start).bind (typeMark_follows within start)
  | false =>
      have named : Follows o o' (bareIf o.noLocation TypeRef.bare) (.named <$> namedType) (.named <$> namedType) :=
        (namedType_follows within).map fun type => by cases o.noLocation <;> rfl
      exact named.bind (typeMark_follows within start)

end

theorem typeRef_follows : Follows o o' (bareIf o.noLocation TypeRef.bare) typeRef typeRef :=
  levels_follow within typeRefWithin rfl (fun _ => rfl) (typeRefWith_follows within)

section
variable {inner inner' : Parser (Option Modifier)}
  (element : Follows o o' (bareIf o.noLocation (Option.map Modifier.bare)) inner inner')
include element

theorem listModifierWith_follows (start : Token) :
    Follows o o' (bareIf o.noLocation Modifier.bare) (listModifierWith inner start) (listModifierWith inner' start) := by
  refine (nested_follows within element).bind fun element => (expectToken_follows within .bracketClose).bind fun _ =>
    (locationFrom_follows within start).bind fun loc => .pure ?_
  cases o.noLocation
  · rfl
  · exact congrArg (Modifier.list · none) (bareElement_eq_map element).symm

omit element in
theorem modifierMark_follows (start : Token) (element : Option Modifier) :
    Follows o o' (bareIf o.noLocation (Option.map Modifier.bare))
      (modifierMark start (bareIf o.noLocation (Option.map Modifier.bare) element)) (modifierMark start element) := by
  refine (optionalToken_follows within .bang).bind fun required => .ite ?_ ?_
  · refine (locationFrom_follows within start).bind fun loc => .pure ?_
    cases o.noLocation
    · rfl
    · cases element <;> rfl
  · refine (optionalToken_follows within .questionMark).bind fun optional => .ite ?_ (.pure rfl)
    refine (locationFrom_follows within start).bind fun loc => .pure ?_
    cases o.noLocation
    · rfl
    · cases element <;> rfl

theorem modifierWith_follows :
    Follows o o' (bareIf o.noLocation (Option.map Modifier.bare)) (modifierWith inner) (modifierWith inner') := by
  refine currentToken_follows.bind fun start => (optionalToken_follows within .bracketOpen).bind fun opened => ?_
  cases opened with
  | true => exact (listModifierWith_follows within element start).map_some.bind (modifierMark_follows within start)
  | false => exact Follows.none.bind (modifierMark_follows within start)

end

theorem modifier_follows : Follows o o' (bareIf o.noLocation (Option.map Modifier.bare)) modifier modifier :=
  levels_follow within modifierWithin rfl (fun _ => rfl) (modifierWith_follows within)

theorem fragmentName_follows : Follows o o' (bareIf o.noLocation Name.bare) fragmentName fragmentName :=
  .get fun _ _ => .ite (.of_fails fun _ _ _ => unexpected_fails) (name_follows within)

theorem fragmentSpread_follows (start : Token) :
    Follows o o' (bareIf o.noLocation FragmentSpread.bare) (fragmentSpread start) (fragmentSpread start) := by
  refine (fragmentName_follows within).bind fun name => (directives_follows within false).bind fun directives =>
    (locationFrom_follows within start).bind fun loc => .pure ?_
  cases o.noLocation <;> rfl

theorem fieldNames_follows :
    Follows o o' (bareIf o.noLocation (Prod.map (Option.map Name.bare) Name.bare)) fieldNames fieldNames := by
  refine (name_follows within).bind fun first => (optionalToken_follows within .colon).bind fun renamed => .ite ?_ (.pure ?_)
  · exact (name_follows within).bind fun name => .pure (by cases o.noLocation <;> rfl)
  · cases o.noLocation <;> rfl

section
variable {inner inner' : Parser SelectionSet} (set : Follows o o' (bareIf o.noLocation SelectionSet.bare) inner inner')
include set

theorem inlineFragmentWith_follows (start : Token) (hasTypeCondition : Bool) :
    Follows o o' (bareIf o.noLocation InlineFragment.bare) (inlineFragmentWith inner start hasTypeCondition)
      (inlineFragmentWith inner' start hasTypeCondition) := by
  rw [inlineFragmentWith_eq, inlineFragmentWith_eq]
  refine Follows.bind (.ite (namedType_follows within).map_some .none) fun type =>
    (directives_follows within false).bind fun directives => set.bind fun set =>
    (locationFrom_follows within start).bind fun loc => .pure ?_
  cases o.noLocation <;> rfl

theorem fragmentSelectionWith_follows : Follows o o' (bareIf o.noLocation Selection.bare) (fragmentSelectionWith inner)
    (fragmentSelectionWith inner') := by
  refine (expectToken_follows within .spread).bind fun start => (optionalKeyword_follows within "on").bind fun narrows =>
    (peek_follows .name).bind fun named => .ite ?_ ?_
  · exact (fragmentSpread_follows within start).bind fun spread => .pure (by cases o.noLocation <;> rfl)
  · exact (inlineFragmentWith_follows within set start narrows).bind fun f => .pure (by cases o.noLocation <;> rfl)

omit within in
theorem maybeSet_follows :
    Follows o o' (bareIf o.noLocation (Option.map SelectionSet.bare)) (maybeSet inner) (maybeSet inner') :=
  (peek_follows .braceOpen).bind fun _ => .ite set.map_some .none

theorem fieldWith_follows : Follows o o' (bareIf o.noLocation Field.bare) (fieldWith inner) (fieldWith inner') := by
  intro s made s' here run
  rw [fieldWith_run] at run ⊢
  refine Follows.apply ?_ here run
  refine (fieldNames_follows within).bind fun names => (arguments_follows within false).bind fun arguments =>
    (modifier_follows within).bind fun modifier => (directives_follows within false).bind fun directives =>
    (maybeSet_follows set).bind fun set => (locationFrom_follows within s.token).bind fun loc => .pure ?_
  cases o.noLocation
  · rfl
  · exact (Field.bare_mk _ _ _ _ _ _ loc).symm

theorem selectionWith_follows :
    Follows o o' (bareIf o.noLocation Selection.bare) (selectionWith inner) (selectionWith inner') := by
  refine (peek_follows .spread).bind fun spread => .ite (fragmentSelectionWith_follows within set) ?_
  exact (fieldWith_follows within set).bind fun field => .pure (by cases o.noLocation <;> rfl)

theorem selectionSetWith_follows :
    Follows o o' (bareIf o.noLocation SelectionSet.bare) (selectionSetWith inner) (selectionSetWith inner') := by
  refine currentToken_follows.bind fun start =>
    (nested_follows within (many_follows within (selectionWith_follows within set) .braceOpen .braceClose)).bind
      fun selections => (locationFrom_follows within start).bind fun loc => .pure ?_
  cases o.noLocation
  · rfl
  · exact congrArg (SelectionSet.mk · none) (bareSelections_eq_map selections).symm

end

theorem selectionSet_follows : Follows o o' (bareIf o.noLocation SelectionSet.bare) selectionSet selectionSet :=
  levels_follow within selectionSetWithin rfl (fun _ => rfl) (selectionSetWith_follows within)

theorem maybeDefault_follows :
    Follows o o' (bareIf o.noLocation (Option.map Value.bare)) maybeDefault maybeDefault :=
  (optionalToken_follows within .equals).bind fun _ => .ite (value_follows within true).map_some .none

theorem variableDefinition_follows :
    Follows o o' (bareIf o.noLocation VariableDefinition.bare) variableDefinition variableDefinition := by
  intro s made s' here run
  rw [variableDefinition_run] at run ⊢
  refine Follows.apply ?_ here run
  refine (var_follows within).bind fun var => (expectToken_follows within .colon).bind fun _ =>
    (typeRef_follows within).bind fun type => (maybeDefault_follows within).bind fun defaultValue =>
    (directives_follows within true).bind fun directives => (locationFrom_follows within s.token).bind fun loc => .pure ?_
  cases o.noLocation <;> rfl

theorem variableDefinitions_follows : Follows o o' (bareIf o.noLocation (List.map VariableDefinition.bare))
    variableDefinitions variableDefinitions :=
  optionalMany_follows within (variableDefinition_follows within) .parenOpen .parenClose

omit within in
theorem unexpectedAt_fails {token : Token} {s s' : ParserState} {made : α} :
    ¬ (do throw (← unexpectedAt token) : Parser α) s = .ok made s' := by
  simp [unexpectedAt]

theorem operationType_follows : Follows o o' id operationType operationType := by
  refine (expectToken_follows within .name).bind fun token => ?_
  cases type : OperationType.ofText? token.value <;> simp only [id, type]
  case none => exact .of_fails fun _ _ _ => unexpectedAt_fails
  case some type => exact .pure rfl

theorem maybeName_follows : Follows o o' (bareIf o.noLocation (Option.map Name.bare)) maybeName maybeName :=
  (peek_follows .name).bind fun _ => .ite (name_follows within).map_some .none

theorem shorthand_follows (start : Token) :
    Follows o o' (bareIf o.noLocation Operation.bare) (shorthand start) (shorthand start) := by
  refine (selectionSet_follows within).bind fun set => (locationFrom_follows within start).bind fun loc => .pure ?_
  cases o.noLocation <;> rfl

theorem namedOperation_follows (start : Token) :
    Follows o o' (bareIf o.noLocation Operation.bare) (namedOperation start) (namedOperation start) := by
  refine (operationType_follows within).bind fun type => (maybeName_follows within).bind fun name =>
    (variableDefinitions_follows within).bind fun definitions => (directives_follows within false).bind fun directives =>
    (selectionSet_follows within).bind fun set => (locationFrom_follows within start).bind fun loc => .pure ?_
  cases o.noLocation <;> rfl

theorem operation_follows : Follows o o' (bareIf o.noLocation Operation.bare) operation operation := by
  intro s made s' here run
  rw [operation_run] at run ⊢
  refine Follows.apply ?_ here run
  exact (peek_follows .braceOpen).bind fun _ => .ite (shorthand_follows within _) (namedOperation_follows within _)

theorem fragmentVariables_follows : Follows o o' (bareIf o.noLocation (Option.map (List.map VariableDefinition.bare)))
    fragmentVariables fragmentVariables := by
  refine .get fun s here => ?_
  rw [here, within.definitions]
  exact .ite (variableDefinitions_follows within).map_some .none

theorem fragment_follows : Follows o o' (bareIf o.noLocation Fragment.bare) fragment fragment := by
  intro s made s' here run
  rw [fragment_run] at run ⊢
  refine Follows.apply ?_ here run
  refine (expectKeyword_follows within "fragment").bind fun _ => (fragmentName_follows within).bind fun name =>
    (fragmentVariables_follows within).bind fun definitions => (expectKeyword_follows within "on").bind fun _ =>
    (namedType_follows within).bind fun type => (directives_follows within false).bind fun directives =>
    (selectionSet_follows within).bind fun set => (locationFrom_follows within s.token).bind fun loc => .pure ?_
  cases o.noLocation <;> rfl

theorem definition_follows : Follows o o' (bareIf o.noLocation Definition.bare) definition definition := by
  have defines : Follows o o' (bareIf o.noLocation Definition.bare) (do return .operation (← operation))
      (do return .operation (← operation)) :=
    (operation_follows within).bind fun _ => .pure (by cases o.noLocation <;> rfl)
  have defines' : Follows o o' (bareIf o.noLocation Definition.bare) (do return .fragment (← fragment))
      (do return .fragment (← fragment)) :=
    (fragment_follows within).bind fun _ => .pure (by cases o.noLocation <;> rfl)
  refine currentToken_follows.bind fun token => .ite defines (.ite (.ite defines (.ite defines' ?_)) ?_)
  · exact .of_fails fun _ _ _ => unexpectedAt_fails
  · exact .of_fails fun _ _ _ => unexpectedAt_fails

theorem document_follows : Follows o o' (bareIf o.noLocation Document.bare) document document := by
  refine currentToken_follows.bind fun start =>
    (many_follows within (definition_follows within) .startOfFile .endOfFile).bind fun definitions =>
    (locationFrom_follows within start).bind fun loc => .pure ?_
  cases o.noLocation <;> rfl

theorem whole_follows (inner : Follows o o' view p q) : Follows o o' view (whole p) (whole q) :=
  (expectToken_follows within .startOfFile).bind fun _ => inner.bind fun _ =>
    (expectToken_follows within .endOfFile).bind fun _ => .pure rfl

end Parser

end QueryPlanner
