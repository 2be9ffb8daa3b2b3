import QueryPlanner.Proofs.Parser.Advances

/-!
# Rounds of a loop

A loop over items, run round by round for as long as it goes on: each round takes a token or fails, so there is a last
one. The fuel of the parser's lists lasts until then.
-/

namespace QueryPlanner

theorem TokenStream.le_length_drop (stream : TokenStream) (i : Nat) :
    stream.tokens.length ≤ i + (stream.drop i).length := by
  induction i generalizing stream with
  | zero =>
      rw [drop, Nat.zero_add]
      induction stream with
      | endOfFile _ => exact Nat.le_refl 1
      | fault _ => exact Nat.le_refl 0
      | cons token rest ih => exact Nat.succ_le_succ ih
  | succ i ih =>
      have fewer : stream.tokens.length ≤ stream.tail.tokens.length + 1 := by
        cases stream with
        | endOfFile _ => exact Nat.le_succ 1
        | fault _ => exact Nat.zero_le _
        | cons token rest => exact Nat.le_refl _
      have rest := ih stream.tail
      rw [drop]
      omega

namespace ParserState

variable {source : Source} {place place' vain vain' : Nat} {s s' : ParserState}

def IsBefore (s s' : ParserState) : Prop :=
  ∃ i j : Nat, i < j ∧ (Token.startOfFile :: s.source.readable)[i]? = some s.token ∧
    (Token.startOfFile :: s.source.readable)[j]? = some s'.token

theorem StandsAt.isBefore (stands : s.StandsAt source place vain) (stands' : s'.StandsAt source place' vain')
    (farther : place < place') : s.IsBefore s' :=
  ⟨place, place', farther, stands.source ▸ stands.token, stands.source ▸ stands'.token⟩

theorem StandsAt.enough_fuel (stands : s.StandsAt source place vain) :
    source.readable.length < place + (s.tokensLeft + 1) := by
  rw [tokensLeft, stands.upcoming]
  exact Nat.lt_succ_of_le (TokenStream.le_length_drop _ _)

end ParserState

namespace Parser
open Run ParserState

variable {α : Type} {more : Parser Bool} {item : Parser α} {opening close kind : TokenKind} {s s₁ : ParserState}
  {source : Source} {place vain : Nat}

def withFirst (first : α) : EStateM.Result Diagnostic ParserState (List α) → EStateM.Result Diagnostic ParserState (List α)
  | .ok rest s => .ok (first :: rest) s
  | .error d s => .error d s

mutual

/-- What a loop that tests before each item comes to, every item taking a token. -/
inductive TestFirst (more : Parser Bool) (item : Parser α) :
    ParserState → EStateM.Result Diagnostic ParserState (List α) → Prop
  | done {s s' : ParserState} : more s = .ok false s' → TestFirst more item s (.ok [] s')
  | broken {s s' : ParserState} {d : Diagnostic} : more s = .error d s' → TestFirst more item s (.error d s')
  | more {s s' : ParserState} {result : EStateM.Result Diagnostic ParserState (List α)} : more s = .ok true s' →
      ItemFirst more item s' result → TestFirst more item s result

inductive ItemFirst (more : Parser Bool) (item : Parser α) :
    ParserState → EStateM.Result Diagnostic ParserState (List α) → Prop
  | failed {s s' : ParserState} {d : Diagnostic} : item s = .error d s' → ItemFirst more item s (.error d s')
  | taken {s s' : ParserState} {a : α} {result : EStateM.Result Diagnostic ParserState (List α)} : item s = .ok a s' →
      s.IsBefore s' → TestFirst more item s' result → ItemFirst more item s (withFirst a result)

end

def isOpen (close : TokenKind) : Parser Bool := do return !(← optionalToken close)

theorem bind_withFirst {rest : Parser (List α)} (a : α) :
    (do return a :: (← rest) : Parser (List α)) s = withFirst a (rest s) := by
  cases run : rest s with
  | ok items s' => rw [bind_of_ok run]; rfl
  | error d s' => rw [bind_of_error run]; rfl

theorem itemFirst_of (proceeds : Proceeds 1 item) (stands : s.StandsAt source place vain) (rest : Parser (List α))
    (next : ∀ s' place', place < place' → s'.StandsAt source place' vain → TestFirst more item s' (rest s')) :
    ItemFirst more item s ((do let first ← item; return first :: (← rest) : Parser (List α)) s) := by
  cases run : item s with
  | error d s' =>
      rw [bind_of_error run]
      exact .failed run
  | ok a s' =>
      obtain ⟨place', farther, stands'⟩ := (proceeds s).of_ok stands run
      rw [bind_of_ok run, bind_withFirst]
      exact .taken run (stands.isBefore stands' farther) (next s' place' farther stands')

theorem itemsUntil_testFirst (proceeds : Proceeds 1 item) {fuel : Nat} (stands : s.StandsAt source place vain)
    (enough : source.readable.length < place + fuel) :
    TestFirst (isOpen close) item s (itemsUntil close item fuel s) := by
  -- Every round leads to a further place, and there are no more places than fuel.
  induction fuel generalizing s place with
  | zero =>
      have := stands.le
      omega
  | succ fuel ih =>
      cases looked : optionalToken close s with
      | error d s' =>
          have run : itemsUntil close item (fuel + 1) s = .error d s' := bind_of_error looked
          rw [run]
          exact .broken (bind_of_error looked)
      | ok closed s' =>
          obtain ⟨-, rfl, -⟩ | ⟨-, rfl, rfl⟩ := optionalToken_ok.1 looked
          · have run : itemsUntil close item (fuel + 1) s = .ok [] s' := bind_of_ok looked
            rw [run]
            exact .done (bind_of_ok looked)
          · have run : itemsUntil close item (fuel + 1) s =
                (do let first ← item; return first :: (← itemsUntil close item fuel) : Parser (List α)) s :=
              bind_of_ok looked
            rw [run]
            exact .more (bind_of_ok looked) (itemFirst_of proceeds stands _ fun _ _ farther stands' =>
              ih stands' (by omega))

theorem itemsWhile_testFirst (proceeds : Proceeds 1 item) {fuel : Nat} (stands : s.StandsAt source place vain)
    (enough : source.readable.length < place + fuel) :
    TestFirst (peek kind) item s (itemsWhile kind item fuel s) := by
  induction fuel generalizing s place with
  | zero =>
      have := stands.le
      omega
  | succ fuel ih =>
      have looked : peek kind s = .ok (decide (s.token.kind = kind)) s := rfl
      by_cases found : s.token.kind = kind
      · rw [decide_eq_true found] at looked
        have run : itemsWhile kind item (fuel + 1) s =
            (do let first ← item; return first :: (← itemsWhile kind item fuel) : Parser (List α)) s :=
          bind_of_ok looked
        rw [run]
        exact .more looked (itemFirst_of proceeds stands _ fun _ _ farther stands' => ih stands' (by omega))
      · rw [decide_eq_false found] at looked
        have run : itemsWhile kind item (fuel + 1) s = .ok [] s := bind_of_ok looked
        rw [run]
        exact .done looked

theorem oneOrMore_itemFirst (proceeds : Proceeds 1 item) (stands : s.StandsAt source place vain) :
    ItemFirst (isOpen close) item s (oneOrMore item close s) :=
  itemFirst_of proceeds stands (upTo close item) fun _ _ _ stands' =>
    itemsUntil_testFirst proceeds stands' stands'.enough_fuel

inductive IsItem : {α : Type} → Parser α → Prop
  | value (isConst : Bool) (levels : Nat) : IsItem (valueWithin isConst levels)
  | objectField (isConst : Bool) (levels : Nat) : IsItem (objectFieldWith (valueWithin isConst levels))
  | argument (isConst : Bool) : IsItem (argument isConst)
  | directive (isConst : Bool) : IsItem (directive isConst)
  | selection (levels : Nat) : IsItem (selectionWith (selectionSetWithin levels))
  | variableDefinition : IsItem variableDefinition
  | definition : IsItem definition

theorem IsItem.proceeds (isItem : IsItem item) : Proceeds 1 item := by
  cases isItem with
  | value isConst levels => exact valueWithin_proceeds isConst levels
  | objectField isConst levels => exact objectFieldWith_proceeds (valueWithin_proceeds isConst levels)
  | argument isConst => exact argument_proceeds isConst
  | directive isConst => exact directive_proceeds isConst
  | selection levels => exact selectionWith_proceeds (selectionSetWithin_proceeds levels)
  | variableDefinition => exact variableDefinition_proceeds
  | definition => exact definition_proceeds

/-- From the state on, every loop over the items ends, and each of its rounds takes a token or fails. -/
structure LoopsEnd (item : Parser α) (s : ParserState) : Prop where
  any : ∀ opening close t s₁, expectToken opening s = .ok t s₁ →
    TestFirst (isOpen close) item s₁ (Parser.any opening item close s)
  many : ∀ opening close t s₁, expectToken opening s = .ok t s₁ →
    ItemFirst (isOpen close) item s₁ (Parser.many opening item close s)
  optionalMany : ∀ opening close s₁, optionalToken opening s = .ok true s₁ →
    ItemFirst (isOpen close) item s₁ (Parser.optionalMany opening item close s)
  itemsWhile : ∀ kind, TestFirst (peek kind) item s (Parser.itemsWhile kind item (s.tokensLeft + 1) s)

theorem loopsEnd_of (proceeds : Proceeds 1 item) (stands : s.StandsAt source place vain) : LoopsEnd item s where
  any opening close t s₁ opened := by
    obtain ⟨place', -, stands'⟩ := (expectToken_moves opening).of_ok stands opened
    have run : Parser.any opening item close s = upTo close item s₁ := bind_of_ok opened
    rw [run]
    exact itemsUntil_testFirst proceeds stands' stands'.enough_fuel
  many opening close t s₁ opened := by
    obtain ⟨place', -, stands'⟩ := (expectToken_moves opening).of_ok stands opened
    have run : Parser.many opening item close s = oneOrMore item close s₁ := bind_of_ok opened
    rw [run]
    exact oneOrMore_itemFirst proceeds stands'
  optionalMany opening close s₁ opened := by
    obtain ⟨place', -, stands'⟩ := (optionalToken_moves opening).of_ok stands opened
    have run : Parser.optionalMany opening item close s = oneOrMore item close s₁ := bind_of_ok opened
    rw [run]
    exact oneOrMore_itemFirst proceeds stands'
  itemsWhile _ := itemsWhile_testFirst proceeds stands stands.enough_fuel

end Parser

end QueryPlanner
