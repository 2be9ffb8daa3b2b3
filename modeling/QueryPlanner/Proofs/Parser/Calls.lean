import QueryPlanner.Proofs.Parser.Rounds

namespace QueryPlanner

namespace Parser
open ParserState

variable {α β : Type}

def after (p : Parser α) (s : ParserState) : ParserState :=
  match p s with
  | .ok _ s' => s'
  | .error _ s' => s'

def calls (p : Parser α) (source : Source) (options : ParseOptions) : Nat := (p.after { source, options }).advances

/--
What can be done with a parser: its methods are called one after another, with a look at the state, at what was returned
or at how a call failed in between; and what is given to a method is of this kind, too.
-/
inductive Uses : {α : Type} → Parser α → Prop
  | pure {α : Type} (a : α) : Uses (Pure.pure a)
  | bind {α β : Type} {p : Parser α} {f : α → Parser β} : Uses p → (∀ a, Uses (f a)) → Uses (p >>= f)
  | throw {α : Type} (d : Diagnostic) : Uses (MonadExcept.throw d : Parser α)
  | tryCatch {α : Type} {p : Parser α} {handle : Diagnostic → Parser α} :
      Uses p → (∀ d, Uses (handle d)) → Uses (MonadExcept.tryCatch p handle)
  | look : Uses (MonadState.get : Parser ParserState)
  | name : Uses name
  | document : Uses document
  | definition : Uses definition
  | operation : Uses operation
  | operationType : Uses operationType
  | variableDefinitions : Uses variableDefinitions
  | variableDefinition : Uses variableDefinition
  | var : Uses var
  | selectionSet : Uses selectionSet
  | selection : Uses selection
  | field : Uses field
  | modifier : Uses modifier
  | arguments (isConst : Bool) : Uses (arguments isConst)
  | argument (isConst : Bool) : Uses (argument isConst)
  | fragmentSelection : Uses fragmentSelection
  | fragment : Uses fragment
  | fragmentName : Uses fragmentName
  | value (isConst : Bool) : Uses (value isConst)
  | stringLiteral : Uses stringLiteral
  | list (isConst : Bool) : Uses (list isConst)
  | object (isConst : Bool) : Uses (object isConst)
  | objectField (isConst : Bool) : Uses (objectField isConst)
  | directives (isConst : Bool) : Uses (directives isConst)
  | directive (isConst : Bool) : Uses (directive isConst)
  | typeRef : Uses typeRef
  | namedType : Uses namedType
  | locationFrom (start : Token) : Uses (locationFrom start)
  | peek (kind : TokenKind) : Uses (peek kind)
  | expectToken (kind : TokenKind) : Uses (expectToken kind)
  | optionalToken (kind : TokenKind) : Uses (optionalToken kind)
  | expectKeyword (word : Text) : Uses (expectKeyword word)
  | optionalKeyword (word : Text) : Uses (optionalKeyword word)
  | unexpectedAt (token : Token) : Uses (unexpectedAt token)
  | unexpected : Uses unexpected
  | any {α : Type} {item : Parser α} (opening close : TokenKind) : Uses item → Uses (any opening item close)
  | optionalMany {α : Type} {item : Parser α} (opening close : TokenKind) :
      Uses item → Uses (optionalMany opening item close)
  | many {α : Type} {item : Parser α} (opening close : TokenKind) : Uses item → Uses (many opening item close)
  | nested {α : Type} {p : Parser α} : Uses p → Uses (nested p)
  | advance : Uses advance

theorem Moves.after_stands {p : Parser α} {s : ParserState} {source : Source} {place vain least extra : Nat}
    (moves : Moves least extra p s) (stands : s.StandsAt source place vain) :
    ∃ place', (p.after s).StandsAt source place' (vain + max extra 1) := by
  unfold after
  cases run : p s with
  | ok a s' =>
      obtain ⟨place', -, stands'⟩ := moves.of_ok stands run
      exact ⟨place', stands'.mono (by omega)⟩
  | error d s' =>
      obtain ⟨place', -, stands'⟩ := moves.of_error stands run
      exact ⟨place', stands'.mono (by omega)⟩

/-- Behind a run the parser stands at a place again, no matter how many calls were in vain. -/
def Keeps (p : Parser α) : Prop :=
  ∀ ⦃s source place vain⦄, s.StandsAt source place vain → ∃ place' vain', (p.after s).StandsAt source place' vain'

namespace Keeps

variable {p item : Parser α} {f : α → Parser β} {handle : Diagnostic → Parser α} {opening close : TokenKind}
  {s s' : ParserState} {source : Source} {place vain : Nat}

theorem of_moves {least extra : Nat} (moves : ∀ s, Moves least extra p s) : Keeps p := by
  intro s source place vain stands
  obtain ⟨place', stands'⟩ := (moves s).after_stands stands
  exact ⟨place', _, stands'⟩

theorem of_proceeds {least : Nat} (proceeds : Proceeds least p) : Keeps p := of_moves proceeds

theorem pure (a : α) : Keeps (Pure.pure a) := of_proceeds (.pure a)

theorem of_ok {a : α} (keeps : Keeps p) (stands : s.StandsAt source place vain) (run : p s = .ok a s') :
    ∃ place' vain', s'.StandsAt source place' vain' := by
  have here := keeps stands
  rwa [after, run] at here

theorem of_error {d : Diagnostic} (keeps : Keeps p) (stands : s.StandsAt source place vain) (run : p s = .error d s') :
    ∃ place' vain', s'.StandsAt source place' vain' := by
  have here := keeps stands
  rwa [after, run] at here

theorem bind (first : Keeps p) (next : ∀ a, Keeps (f a)) : Keeps (p >>= f) := by
  intro s source place vain stands
  cases run : p s with
  | ok a s' =>
      obtain ⟨place', vain', stands'⟩ := first.of_ok stands run
      rw [after, Run.bind_of_ok run]
      exact next a stands'
  | error d s' =>
      rw [after, Run.bind_of_error run]
      exact first.of_error stands run

theorem tryCatch (first : Keeps p) (next : ∀ d, Keeps (handle d)) : Keeps (MonadExcept.tryCatch p handle) := by
  intro s source place vain stands
  cases run : p s with
  | ok a s' =>
      have same : MonadExcept.tryCatch p handle s = .ok a s' := by
        change EStateM.tryCatch p handle s = _
        rw [EStateM.tryCatch, run]
      rw [after, same]
      exact first.of_ok stands run
  | error d s' =>
      obtain ⟨place', vain', stands'⟩ := first.of_error stands run
      have same : MonadExcept.tryCatch p handle s = handle d s' := by
        change EStateM.tryCatch p handle s = _
        rw [EStateM.tryCatch, run]
        rfl
      rw [after, same]
      exact next d stands'

theorem get {h : ParserState → Parser α} (next : ∀ s, Keeps (h s)) : Keeps (MonadState.get >>= h) :=
  fun s _ _ _ stands => next s stands

theorem nested (inner : Keeps p) : Keeps (nested p) := by
  intro s source place vain stands
  by_cases full : s.options.depthLimit ≤ s.depth
  · rw [after, nested_of_full full]
    exact ⟨place, vain, stands⟩
  · rw [after, nested_of_room full]
    refine inner.bind (fun a s' source place vain stands => ?_) (stands.leveled _)
    exact ⟨place, vain, stands.leveled _⟩

theorem itemsUntil (item_keeps : Keeps item) (close : TokenKind) (fuel : Nat) : Keeps (itemsUntil close item fuel) := by
  induction fuel with
  | zero => exact pure []
  | succ fuel ih =>
      refine (of_moves fun _ => optionalToken_moves close).bind fun closed => ?_
      cases closed with
      | true => exact pure []
      | false => exact item_keeps.bind fun _ => ih.bind fun _ => pure _

theorem oneOrMore (item_keeps : Keeps item) (close : TokenKind) : Keeps (oneOrMore item close) :=
  item_keeps.bind fun _ => get fun _ => (item_keeps.itemsUntil close _).bind fun _ => pure _

theorem any (item_keeps : Keeps item) (opening close : TokenKind) : Keeps (any opening item close) :=
  (of_moves fun _ => expectToken_moves opening).bind fun _ => get fun _ => item_keeps.itemsUntil close _

theorem many (item_keeps : Keeps item) (opening close : TokenKind) : Keeps (many opening item close) :=
  (of_moves fun _ => expectToken_moves opening).bind fun _ => item_keeps.oneOrMore close

theorem optionalMany (item_keeps : Keeps item) (opening close : TokenKind) : Keeps (optionalMany opening item close) := by
  refine (of_moves fun _ => optionalToken_moves opening).bind fun opened => ?_
  cases opened with
  | true => exact item_keeps.oneOrMore close
  | false => exact pure []

end Keeps

theorem Uses.keeps {p : Parser α} (uses : Uses p) : Keeps p := by
  induction uses with
  | pure a => exact .pure a
  | bind _ _ first next => exact first.bind next
  | throw d => exact .of_proceeds (.throw d : Proceeds 0 _)
  | tryCatch _ _ first next => exact first.tryCatch next
  | look => exact .of_proceeds (fun _ => .still rfl : Proceeds 0 _)
  | name => exact .of_proceeds name_proceeds
  | document => exact .of_moves fun _ => document_moves
  | definition => exact .of_proceeds definition_proceeds
  | operation => exact .of_proceeds operation_proceeds
  | operationType => exact .of_proceeds operationType_proceeds
  | variableDefinitions => exact .of_proceeds variableDefinitions_proceeds
  | variableDefinition => exact .of_proceeds variableDefinition_proceeds
  | var => exact .of_proceeds var_proceeds
  | selectionSet => exact .of_proceeds selectionSet_proceeds
  | selection => exact .of_proceeds (selectionWith_proceeds selectionSet_proceeds)
  | field => exact .of_proceeds (fieldWith_proceeds selectionSet_proceeds)
  | modifier => exact .of_proceeds modifier_proceeds
  | arguments isConst => exact .of_proceeds (arguments_proceeds isConst)
  | argument isConst => exact .of_proceeds (argument_proceeds isConst)
  | fragmentSelection => exact .of_proceeds (fragmentSelectionWith_proceeds selectionSet_proceeds)
  | fragment => exact .of_proceeds fragment_proceeds
  | fragmentName => exact .of_proceeds fragmentName_proceeds
  | value isConst => exact .of_proceeds (value_proceeds isConst)
  | stringLiteral => exact .of_moves fun _ => stringLiteral_moves
  | list isConst => exact .of_proceeds (listWith_proceeds (value_proceeds isConst))
  | object isConst => exact .of_proceeds (objectWith_proceeds (value_proceeds isConst))
  | objectField isConst => exact .of_proceeds (objectFieldWith_proceeds (value_proceeds isConst))
  | directives isConst => exact .of_proceeds (directives_proceeds isConst)
  | directive isConst => exact .of_proceeds (directive_proceeds isConst)
  | typeRef => exact .of_proceeds typeRef_proceeds
  | namedType => exact .of_proceeds namedType_proceeds
  | locationFrom start => exact .of_proceeds (locationFrom_proceeds start)
  | peek kind => exact .of_proceeds (peek_proceeds kind)
  | expectToken kind => exact .of_moves fun _ => expectToken_moves kind
  | optionalToken kind => exact .of_moves fun _ => optionalToken_moves kind
  | expectKeyword word => exact .of_proceeds (expectKeyword_proceeds word)
  | optionalKeyword word => exact .of_proceeds (optionalKeyword_proceeds word)
  | unexpectedAt token => exact .of_proceeds (unexpectedAt_proceeds token)
  | unexpected => exact .of_proceeds unexpected_proceeds
  | any opening close _ item => exact item.any opening close
  | optionalMany opening close _ item => exact item.optionalMany opening close
  | many opening close _ item => exact item.many opening close
  | nested _ inner => exact inner.nested
  | advance => exact .of_moves fun _ => advance_moves_anywhere

end Parser

namespace ParserState

/-- The current token is one of the source, and the tokens up to there are counted, the end of the file apart. -/
structure Counts (source : Source) (s : ParserState) : Prop where
  current : ∃ place : Nat, (Token.startOfFile :: source.readable)[place]? = some s.token
  counted : ∀ place : Nat, (Token.startOfFile :: source.readable)[place]? = some s.token →
    s.tokenCount = (source.readable.take place).countP (·.kind ≠ .endOfFile)

inductive Reached (source : Source) : ParserState → Prop
  | intro {α : Type} {p : Parser α} (options : ParseOptions) : Parser.Uses p → Reached source (p.after { source, options })

variable {source : Source} {place vain : Nat} {s : ParserState}

theorem Reached.stands (reached : s.Reached source) : ∃ place vain, s.StandsAt source place vain := by
  obtain ⟨options, uses⟩ := reached
  exact uses.keeps (.start source options)

theorem StandsAt.counts (stands : s.StandsAt source place vain) : s.Counts source where
  current := ⟨place, stands.token⟩
  counted place' found := by
    obtain rfl : place = place' := (List.getElem?_inj (List.getElem?_eq_some_iff.1 stands.token).1
      source.readable_nodup).1 (stands.token.trans found.symm)
    exact stands.count

end ParserState

namespace Parser
open ParserState

variable {α : Type}

theorem calls_le {p : Parser α} {least : Nat} (moves : ∀ s, Moves least 1 p s) (source : Source)
    (options : ParseOptions) : calls p source options ≤ source.body.length + 2 := by
  obtain ⟨place, stands⟩ := (moves _).after_stands (.start source options)
  have tokens := source.readable_length_le
  have := stands.le
  have := stands.calls
  unfold calls
  omega

theorem parsing_keeps_to_tokens (source : Source) :
    (∀ options : ParseOptions, calls document source options ≤ source.body.length + 2 ∧
      calls (whole (value false)) source options ≤ source.body.length + 2 ∧
      calls (whole typeRef) source options ≤ source.body.length + 2) ∧
    ∀ s : ParserState, s.Reached source → s.Counts source ∧
      ∀ {α : Type} (item : Parser α), IsItem item → LoopsEnd item s := by
  refine ⟨fun options => ⟨?_, ?_, ?_⟩, fun s reached => ?_⟩
  · exact calls_le (fun _ => document_moves) source options
  · exact calls_le (fun _ => whole_moves (value_proceeds false)) source options
  · exact calls_le (fun _ => whole_moves typeRef_proceeds) source options
  · obtain ⟨place, vain, stands⟩ := reached.stands
    exact ⟨stands.counts, fun item isItem => loopsEnd_of isItem.proceeds stands⟩

example : calls (whole (value false)) { body := "1" } {} = 3 := by decide +kernel

namespace AbandonedList

def source : Source := { body := "[1 \x7b a: @ \x7d]" }

def use : Parser Unit := do
  let _ ← expectToken .startOfFile
  tryCatch (do let _ ← list false) fun _ => pure ()
  advance

theorem keeps_to_tokens :
    (use.after { source }).Reached source ∧ IsItem (objectFieldWith (valueWithin false 3)) ∧
    (use.after { source }).tokenCount = 7 ∧ (use.after { source }).Counts source ∧
    LoopsEnd (objectFieldWith (valueWithin false 3)) (use.after { source }) ∧
    calls (whole (value false)) source {} ≤ 14 := by
  have reached : (use.after { source }).Reached source :=
    .intro {} (.bind (.expectToken _) fun _ =>
      .bind (.tryCatch (.bind (.list false) fun _ => .pure _) fun _ => .pure _) fun _ => .advance)
  have isItem : IsItem (objectFieldWith (valueWithin false 3)) := .objectField false 3
  obtain ⟨few, keeps⟩ := parsing_keeps_to_tokens source
  obtain ⟨counts, ends⟩ := keeps _ reached
  exact ⟨reached, isItem, by decide +kernel, counts, ends _ isItem, (few {}).2.1⟩

end AbandonedList

end Parser

end QueryPlanner
