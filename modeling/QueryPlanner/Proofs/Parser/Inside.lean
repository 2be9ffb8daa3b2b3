import QueryPlanner.Proofs.Parser.Positions

namespace QueryPlanner
open Grammar ParserState

namespace Grammar

mutual

theorem IsValue.ofConst {isConst : Bool} {ls : List Lexeme} {value : Value} :
    IsValue isConst ls value → IsValue false ls value
  | .var _ derives => .var rfl derives
  | .int text => .int text
  | .float text => .float text
  | .string text => .string text
  | .blockString text => .blockString text
  | .boolean b => .boolean b
  | .null => .null
  | .enum free => .enum free
  | .list derives => .list (areValues_ofConst derives)
  | .object derives => .object (areObjectFields_ofConst derives)

theorem areValues_ofConst {isConst : Bool} {ls : List Lexeme} {values : List Value} :
    Sequence (IsValue isConst) ls values → Sequence (IsValue false) ls values
  | .nil => .nil
  | .cons first rest => .cons first.ofConst (areValues_ofConst rest)

theorem IsObjectField.ofConst {isConst : Bool} {ls : List Lexeme} {field : ObjectField} :
    IsObjectField isConst ls field → IsObjectField false ls field
  | .intro text derives => .intro text derives.ofConst

theorem areObjectFields_ofConst {isConst : Bool} {ls : List Lexeme} {fields : List ObjectField} :
    Sequence (IsObjectField isConst) ls fields → Sequence (IsObjectField false) ls fields
  | .nil => .nil
  | .cons first rest => .cons first.ofConst (areObjectFields_ofConst rest)

end

end Grammar

namespace Node

def StandsOn (body : Source) (node : Node) (G : List Lexeme → Prop) : Prop :=
  ∃ ts, ts <:+: body.readable ∧ Covers body ts node ∧ G (ts.flatMap Token.written)

def IsDerived (body : Source) (o : ParseOptions) : Node → Prop
  | value v => (value v).StandsOn body fun ls => Within Value.depth (IsValue false) o.depthLimit.toNat ls v.bare
  | type t => (type t).StandsOn body fun ls => Within TypeRef.depth IsTypeRef o.depthLimit.toNat ls t.bare
  | definition d => (definition d).StandsOn body fun ls =>
      Within Definition.depth (IsDefinition o.allowFragmentVariables) o.depthLimit.toNat ls d.bare
  | _ => True

def AreDerived (body : Source) (o : ParseOptions) (whole : Node) : Prop :=
  ∀ part, whole.IsPart part → part.IsDerived body o

variable {body : Source} {o : ParseOptions} {whole : Node}

theorem AreDerived.intro (own : whole.IsDerived body o) (children : ∀ child ∈ whole.children, child.AreDerived body o) :
    whole.AreDerived body o := by
  intro part inside
  obtain rfl | ⟨child, member, inside⟩ := inside.eq_or_inside
  · exact own
  · exact children child member part inside

theorem areDerived_name (n : Name) : (name n).AreDerived body o := .intro trivial (List.forall_mem_nil _)

theorem areDerived_modifier (m : Modifier) : (modifier m).AreDerived body o := by
  intro part inside
  have only : ∃ m', part = modifier m' := by
    induction inside with
    | self => exact ⟨m, rfl⟩
    | child _ member ih =>
        obtain ⟨m', rfl⟩ := ih
        cases m' with
        | list element | required element | optional element =>
            obtain ⟨m', -, rfl⟩ := List.mem_map.1 member
            exact ⟨m', rfl⟩
  obtain ⟨m', rfl⟩ := only
  trivial

end Node

def ParseOptions.room (o : ParseOptions) (k : Nat) : Nat := (o.depthLimit - k).toNat

theorem ParseOptions.room_of_succ (o : ParseOptions) {k n : Nat} (levels : o.room k = n + 1) : o.room (k + 1) = n := by
  unfold room at levels ⊢
  omega

theorem ParseOptions.room_le (o : ParseOptions) (k : Nat) : o.room k ≤ o.depthLimit.toNat := by
  unfold room
  omega

namespace ParserState

/-- Stands at a token of the source, so many levels deep. -/
structure Inside (body : Source) (o : ParseOptions) (k : Nat) (s : ParserState) : Prop extends s.Locates body where
  options : s.options = o
  depth : s.depth = k
  within : s.ahead <:+ body.readable

namespace Inside

variable {body : Source} {o : ParseOptions} {k : Nat} {s s' : ParserState} {ts : List Token} {ls : List Lexeme}
  {kind : TokenKind}

theorem levels (here : s.Inside body o k) : s.levelsLeft = o.room k := by
  rw [levelsLeft, here.options, here.depth, ParseOptions.room]

theorem standsAt (here : s.Inside body o k) : s.At o (o.room k) := ⟨here.options, here.levels⟩

theorem taken (here : s.Inside body o k) (passes : Passes body ts s s') (consumes : Consumes ls s s') :
    s'.Inside body o k where
  toLocates := passes.toLocates
  options := consumes.options.trans here.options
  depth := consumes.depth.trans here.depth
  within := (passes.ahead ▸ List.suffix_append ts s'.ahead).trans here.within

theorem reads {holds : List Token → Prop} {G : List Lexeme → Prop} (here : s.Inside body o k)
    (returns : ∃ ts, Passes body ts s s' ∧ holds ts) (derives : ∃ ls, G ls ∧ Consumes ls s s') :
    s'.Inside body o k ∧ ∃ ts, ts <:+: body.readable ∧ holds ts ∧ G (ts.flatMap Token.written) := by
  obtain ⟨ts, passes, holds⟩ := returns
  obtain ⟨ls, derives, consumes⟩ := derives
  have written := Comparison.written_of_consumes here.toSettled passes.toSettled consumes passes.ahead
  have front : ts <+: s.ahead := passes.ahead ▸ List.prefix_append ts s'.ahead
  exact ⟨here.taken passes consumes, ts, front.isInfix.trans here.within.isInfix, holds, written ▸ derives⟩

theorem advance (here : s.Inside body o k) {u : Unit} (run : Parser.advance s = .ok u s') : s'.Inside body o k := by
  by_cases last : s.token.kind = .endOfFile
  · have stands : s.Stands s.options s.depth := ⟨here.toSettled, rfl, rfl⟩
    rw [Parser.advance_at_end stands last] at run
    obtain ⟨-, rfl⟩ := EStateM.Result.ok.inj run
    exact ⟨⟨⟨⟨here.ends, here.last, here.counted⟩, here.lasting⟩, here.source, here.locations⟩, here.options,
      here.depth, here.within⟩
  · exact here.taken (Parser.advance_passes here.toLocates last run) (Parser.advance_sound here.toValid run)

theorem expectToken (here : s.Inside body o k) {t : Token} (run : Parser.expectToken kind s = .ok t s') :
    s'.Inside body o k :=
  here.advance (Parser.expectToken_ok.1 run).2.2

theorem optionalToken (here : s.Inside body o k) {b : Bool} (run : Parser.optionalToken kind s = .ok b s') :
    s'.Inside body o k := by
  obtain ⟨-, -, taken⟩ | ⟨-, -, rfl⟩ := Parser.optionalToken_ok.1 run
  · exact here.advance taken
  · exact here

theorem expectKeyword (here : s.Inside body o k) {text : Text} {u : Unit}
    (run : Parser.expectKeyword text s = .ok u s') : s'.Inside body o k :=
  here.advance (Parser.expectKeyword_ok.1 run).2

theorem optionalKeyword (here : s.Inside body o k) {text : Text} {b : Bool}
    (run : Parser.optionalKeyword text s = .ok b s') : s'.Inside body o k := by
  obtain ⟨-, -, taken⟩ | ⟨-, -, rfl⟩ := Parser.optionalKeyword_ok.1 run
  · exact here.advance taken
  · exact here

end Inside

end ParserState

namespace Parser
open Run

variable {α : Type} {body : Source} {o : ParseOptions} {k : Nat} {p item : Parser α} {node : α → Node}
  {nodes : α → List Node} {opening close : TokenKind}

def Finds (body : Source) (o : ParseOptions) (k : Nat) (p : Parser α) (nodes : α → List Node) : Prop :=
  ∀ ⦃s made s'⦄, s.Inside body o k → p s = .ok made s' →
    s'.Inside body o k ∧ ∀ node ∈ nodes made, node.AreDerived body o

namespace Finds

theorem pure {made : α} (none : nodes made = []) : Finds body o k (pure made) nodes := by
  intro s _ s' here h
  obtain ⟨rfl, rfl⟩ := pure_ok.1 h
  exact ⟨here, none ▸ List.forall_mem_nil _⟩

theorem optional (finds : Finds body o k p fun made => [node made]) (present : Bool) :
    Finds body o k (if present then some <$> p else Pure.pure none) fun part => part.toList.map node := by
  cases present with
  | false => exact .pure rfl
  | true =>
      intro s _ s' here h
      obtain ⟨made, read, rfl⟩ := map_ok.1 h
      exact finds here read

theorem peek {kind : TokenKind} {f : Bool → Parser α} (finds : ∀ present, Finds body o k (f present) nodes) :
    Finds body o k (peek kind >>= f) nodes := by
  intro s made s' here h
  obtain ⟨present, s₁, looked, h⟩ := bind_ok.1 h
  obtain ⟨-, rfl⟩ := peek_ok.1 looked
  exact finds present here h

theorem optionalToken {kind : TokenKind} {f : Bool → Parser α} (finds : ∀ present, Finds body o k (f present) nodes) :
    Finds body o k (optionalToken kind >>= f) nodes := by
  intro s made s' here h
  obtain ⟨present, s₁, looked, h⟩ := bind_ok.1 h
  exact finds present (here.optionalToken looked) h

theorem nested (finds : ∀ m, o.room k = m + 1 → Finds body o (k + 1) p nodes) : Finds body o k (nested p) nodes := by
  intro s made s' here h
  obtain ⟨room, s₁, inner, rfl⟩ := nested_ok.1 h
  rw [here.levels] at room
  obtain ⟨m, level⟩ := Nat.exists_eq_succ_of_ne_zero room
  have deeper : s.deeper.Inside body o (k + 1) :=
    ⟨⟨⟨here.toValid.deeper, here.lasting⟩, here.source, here.locations⟩, here.options, congrArg (· + 1) here.depth,
      here.within⟩
  obtain ⟨inside, derived⟩ := finds m level deeper inner
  refine ⟨⟨⟨⟨⟨inside.ends, inside.last, inside.counted⟩, inside.lasting⟩, inside.source, inside.locations⟩,
    inside.options, ?_, inside.within⟩, derived⟩
  rw [inside.depth]
  rfl

theorem whole (own : ∀ ⦃s made s'⦄, s.Inside body o k → p s = .ok made s' → (node made).IsDerived body o)
    (finds : Finds body o k p fun made => (node made).children) : Finds body o k p fun made => [node made] := by
  intro s made s' here h
  obtain ⟨inside, derived⟩ := finds here h
  exact ⟨inside, List.forall_mem_singleton.2 (.intro (own here h) derived)⟩

theorem other (own : ∀ made, (node made).IsDerived body o) (finds : Finds body o k p fun made => (node made).children) :
    Finds body o k p fun made => [node made] :=
  whole (fun _ made _ _ _ => own made) finds

theorem ofRoom {p : Nat → Parser α} (finds : Finds body o k (p (o.room k)) nodes) :
    Finds body o k (do p (← get).levelsLeft) nodes := by
  intro s made s' here h
  rw [get_bind, here.levels] at h
  exact finds here h

section
variable (finds : Finds body o k item fun made => [node made])
include finds

theorem itemsUntil (fuel : Nat) : Finds body o k (itemsUntil close item fuel) (List.map node) := by
  induction fuel with
  | zero => exact .pure rfl
  | succ fuel ih =>
      refine .optionalToken fun closed => ?_
      cases closed with
      | true => exact .pure rfl
      | false =>
          intro s made s' here h
          simp only [Bool.false_eq_true, if_false, bind_ok, pure_ok] at h
          obtain ⟨first, s₁, firstRead, rest, s₂, restRead, rfl, rfl⟩ := h
          obtain ⟨i₁, d₁⟩ := finds here firstRead
          obtain ⟨i₂, d₂⟩ := ih i₁ restRead
          exact ⟨i₂, List.forall_mem_append.2 ⟨d₁, d₂⟩⟩

theorem oneOrMore : Finds body o k (oneOrMore item close) (List.map node) := by
  intro s made s' here h
  unfold Parser.oneOrMore at h
  obtain ⟨first, s₁, firstRead, h⟩ := bind_ok.1 h
  rw [get_bind] at h
  obtain ⟨rest, s₂, restRead, h⟩ := bind_ok.1 h
  obtain ⟨rfl, rfl⟩ := pure_ok.1 h
  obtain ⟨i₁, d₁⟩ := finds here firstRead
  obtain ⟨i₂, d₂⟩ := itemsUntil finds _ i₁ restRead
  exact ⟨i₂, List.forall_mem_append.2 ⟨d₁, d₂⟩⟩

theorem any : Finds body o k (any opening item close) (List.map node) := by
  intro s made s' here h
  unfold Parser.any at h
  obtain ⟨t, s₁, opened, h⟩ := bind_ok.1 h
  rw [get_bind] at h
  exact itemsUntil finds _ (here.expectToken opened) h

theorem many : Finds body o k (many opening item close) (List.map node) := by
  intro s made s' here h
  unfold Parser.many at h
  obtain ⟨t, s₁, opened, h⟩ := bind_ok.1 h
  exact oneOrMore finds (here.expectToken opened) h

theorem optionalMany : Finds body o k (optionalMany opening item close) (List.map node) := by
  refine .optionalToken fun opened => ?_
  cases opened with
  | true => exact oneOrMore finds
  | false => exact .pure rfl

theorem itemsWhile {kind : TokenKind} (fuel : Nat) : Finds body o k (itemsWhile kind item fuel) (List.map node) := by
  induction fuel with
  | zero => exact .pure rfl
  | succ fuel ih =>
      refine .peek fun more => ?_
      cases more with
      | false => exact .pure rfl
      | true =>
          intro s made s' here h
          simp only [if_true, bind_ok, pure_ok] at h
          obtain ⟨first, s₁, firstRead, rest, s₂, restRead, rfl, rfl⟩ := h
          obtain ⟨i₁, d₁⟩ := finds here firstRead
          obtain ⟨i₂, d₂⟩ := ih i₁ restRead
          exact ⟨i₂, List.forall_mem_append.2 ⟨d₁, d₂⟩⟩

end

end Finds

end Parser

end QueryPlanner
