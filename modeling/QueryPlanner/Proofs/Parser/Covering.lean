import QueryPlanner.Proofs.Document.Children
import QueryPlanner.Proofs.Parser.AttemptSteps

/-!
# Parts cover tokens

A part covers the tokens that were taken for it if its location leads from the first to the last of them and its own
parts cover some of them, one behind the other. The combinators of lists and nesting lay out the parts that they read
along the tokens that they take.
-/

namespace QueryPlanner
open ParserState

variable {α : Type}

/-- Each part belongs to some of the tokens; the parts stand in order, and tokens may stand between them. -/
inductive Strewn (G : List Token → α → Prop) : List Token → List α → Prop
  | nil : Strewn G [] []
  | skip {t : Token} {ts : List Token} {parts : List α} : Strewn G ts parts → Strewn G (t :: ts) parts
  | cons {us ts : List Token} {part : α} {parts : List α} : G us part → Strewn G ts parts →
      Strewn G (us ++ ts) (part :: parts)

namespace Strewn

variable {G : List Token → α → Prop} {ts us : List Token} {part : α} {parts others : List α}

theorem one (here : G ts part) : Strewn G ts [part] := List.append_nil ts ▸ .cons here .nil

theorem none (ts : List Token) : Strewn G ts [] := by
  induction ts with
  | nil => exact .nil
  | cons t ts ih => exact .skip ih

theorem append (first : Strewn G ts parts) (second : Strewn G us others) : Strewn G (ts ++ us) (parts ++ others) := by
  induction first with
  | nil => exact second
  | skip _ ih => exact .skip ih
  | cons here _ ih =>
      rw [List.append_assoc]
      exact .cons here ih

theorem behind (t : Token) (strewn : Strewn G ts parts) : Strewn G ([t] ++ ts) parts := .skip strewn

theorem before (strewn : Strewn G ts parts) (us : List Token) : Strewn G (ts ++ us) parts :=
  List.append_nil parts ▸ strewn.append (.none us)

theorem exists_of_mem (strewn : Strewn G ts parts) (member : part ∈ parts) : ∃ us, us <:+: ts ∧ G us part := by
  induction strewn with
  | nil => contradiction
  | skip _ ih =>
      obtain ⟨us, inside, here⟩ := ih member
      exact ⟨us, inside.trans (List.suffix_cons _ _).isInfix, here⟩
  | @cons us ts first parts here _ ih =>
      obtain rfl | member := List.mem_cons.1 member
      · exact ⟨us, (List.prefix_append us ts).isInfix, here⟩
      · obtain ⟨vs, inside, here⟩ := ih member
        exact ⟨vs, inside.trans (List.suffix_append us ts).isInfix, here⟩

end Strewn

inductive Covers (body : Source) : List Token → Node → Prop
  | intro {ts : List Token} {node : Node} {first last : Token} : ts.head? = some first → ts.getLast? = some last →
      node.loc = some ⟨body, first.start, last.stop, first.line, first.column⟩ →
      Strewn (Covers body) ts node.children → Covers body ts node

theorem Covers.ne_nil {body : Source} {ts : List Token} {node : Node} (covers : Covers body ts node) : ts ≠ [] := by
  obtain ⟨first, -, -, -⟩ := covers
  rintro rfl
  contradiction

theorem Covers.exists_of_isPart {body : Source} {ts : List Token} {whole part : Node} (covers : Covers body ts whole)
    (inside : whole.IsPart part) : ∃ us, us <:+: ts ∧ Covers body us part := by
  induction inside with
  | self => exact ⟨ts, List.infix_rfl, covers⟩
  | child _ member ih =>
      obtain ⟨us, within, ⟨-, -, -, strewn⟩⟩ := ih
      obtain ⟨vs, within', covers'⟩ := strewn.exists_of_mem member
      exact ⟨vs, within'.trans within, covers'⟩

namespace ParserState

structure Locates (body : Source) (s : ParserState) : Prop extends s.Settled where
  source : s.source = body
  locations : s.options.noLocation = false

structure Passes (body : Source) (ts : List Token) (s s' : ParserState) : Prop extends s'.Locates body where
  ahead : s.ahead = ts ++ s'.ahead
  lastToken : s'.lastToken = ts.getLast?.getD s.lastToken

namespace Passes

variable {body : Source} {ts us : List Token} {s s₁ s' : ParserState} {node : Node}

theorem refl (here : s.Locates body) : Passes body [] s s := ⟨here, rfl, rfl⟩

theorem trans (first : Passes body ts s s₁) (second : Passes body us s₁ s') : Passes body (ts ++ us) s s' where
  toLocates := second.toLocates
  ahead := by rw [first.ahead, second.ahead, List.append_assoc]
  lastToken := by
    rw [second.lastToken, first.lastToken, List.getLast?_append]
    cases us.getLast? <;> rfl

theorem located (passes : Passes body ts s s') {first last : Token} (begins : ts.head? = some first)
    (ends : ts.getLast? = some last) :
    Parser.located s' s.token = some ⟨body, first.start, last.stop, first.line, first.column⟩ := by
  obtain ⟨rest, ahead⟩ := s.ahead_eq_cons
  have front := passes.ahead
  rw [ahead] at front
  have token : s.token = first := by
    have head := congrArg List.head? front
    rw [List.head?_append, begins] at head
    exact Option.some.inj head
  have lastToken := passes.lastToken
  rw [ends, Option.getD_some] at lastToken
  rw [Parser.located, passes.locations, passes.source, token, lastToken]
  rfl

theorem covers (passes : Passes body ts s s') (some : ts ≠ []) (loc : node.loc = Parser.located s' s.token)
    (strewn : Strewn (Covers body) ts node.children) : Covers body ts node := by
  have begins := List.head?_eq_some_head some
  have ends := List.getLast?_eq_some_getLast some
  exact .intro begins ends (loc.trans (passes.located begins ends)) strewn

end Passes

end ParserState

namespace Parser
open Run

variable {body : Source} {s s' : ParserState} {kind close : TokenKind} {p item : Parser α} {node : α → Node}
  {nodes : α → List Node}

def Returns (body : Source) (p : Parser α) (holds : List Token → α → Prop) : Prop :=
  ∀ ⦃s made s'⦄, s.Locates body → p s = .ok made s' → ∃ ts, Passes body ts s s' ∧ holds ts made

def Spans (body : Source) (p : Parser α) (node : α → Node) : Prop :=
  Returns body p fun ts made => Covers body ts (node made)

def Strews (body : Source) (p : Parser α) (nodes : α → List Node) : Prop :=
  Returns body p fun ts made => Strewn (Covers body) ts (nodes made)

def Fills (body : Source) (p : Parser α) (nodes : α → List Node) : Prop :=
  Returns body p fun ts made => ts ≠ [] ∧ Strewn (Covers body) ts (nodes made)

theorem advance_passes (here : s.Locates body) (more : s.token.kind ≠ .endOfFile) {u : Unit}
    (h : advance s = .ok u s') : Passes body [s.token] s s' := by
  have stands : s.Stands s.options s.depth := ⟨here.toSettled, rfl, rfl⟩
  obtain ⟨_, _, -, run⟩ | ⟨_, _, _, _, -, run⟩ | ⟨s₁, run, stands₁, source, lastToken, ahead⟩ := advance_takes stands
  · rw [run] at h
    contradiction
  · rw [run] at h
    contradiction
  · rw [run] at h
    obtain ⟨-, rfl⟩ := EStateM.Result.ok.inj h
    refine ⟨⟨stands₁.toSettled, source.trans here.source, stands₁.options ▸ here.locations⟩, ?_, lastToken⟩
    rw [ahead, ParserState.ahead, if_neg more, List.singleton_append]

theorem expectToken_passes (here : s.Locates body) (more : kind ≠ .endOfFile) {t : Token}
    (h : expectToken kind s = .ok t s') : s.token = t ∧ Passes body [s.token] s s' := by
  obtain ⟨found, same, taken⟩ := expectToken_ok.1 h
  exact ⟨same, advance_passes here (found ▸ more) taken⟩

theorem optionalToken_passes (here : s.Locates body) (more : kind ≠ .endOfFile) {b : Bool}
    (h : optionalToken kind s = .ok b s') : b = true ∧ Passes body [s.token] s s' ∨ b = false ∧ s = s' := by
  obtain ⟨found, rfl, taken⟩ | ⟨-, rfl, rfl⟩ := optionalToken_ok.1 h
  · exact .inl ⟨rfl, advance_passes here (found ▸ more) taken⟩
  · exact .inr ⟨rfl, rfl⟩

theorem more_of_isKeyword {t : Token} {text : Text} (keyword : isKeyword t text = true) : t.kind ≠ .endOfFile := by
  rw [isKeyword, Bool.and_eq_true, beq_iff_eq] at keyword
  rw [keyword.1]
  decide

theorem expectKeyword_passes (here : s.Locates body) {text : Text} {u : Unit} (h : expectKeyword text s = .ok u s') :
    Passes body [s.token] s s' := by
  obtain ⟨keyword, taken⟩ := expectKeyword_ok.1 h
  exact advance_passes here (more_of_isKeyword keyword) taken

theorem optionalKeyword_passes (here : s.Locates body) {text : Text} {b : Bool}
    (h : optionalKeyword text s = .ok b s') : b = true ∧ Passes body [s.token] s s' ∨ b = false ∧ s = s' := by
  obtain ⟨keyword, rfl, taken⟩ | ⟨-, rfl, rfl⟩ := optionalKeyword_ok.1 h
  · exact .inl ⟨rfl, advance_passes here (more_of_isKeyword keyword) taken⟩
  · exact .inr ⟨rfl, rfl⟩

theorem tooDeep_returns {holds : List Token → α → Prop} : Returns body tooDeep holds := fun _ _ _ _ h => by
  simp [tooDeep] at h

theorem Returns.nested {holds : List Token → α → Prop} (returns : Returns body p holds) :
    Returns body (nested p) holds := by
  intro s made s' here h
  obtain ⟨-, s₁, inner, rfl⟩ := nested_ok.1 h
  have deeper : s.deeper.Locates body := ⟨⟨here.toValid.deeper, here.lasting⟩, here.source, here.locations⟩
  obtain ⟨ts, passes, holds⟩ := returns deeper inner
  obtain ⟨⟨⟨⟨ends, last, counted⟩, lasting⟩, source, locations⟩, ahead, lastToken⟩ := passes
  exact ⟨ts, ⟨⟨⟨⟨ends, last, counted⟩, lasting⟩, source, locations⟩, ahead, lastToken⟩, holds⟩

theorem pure_strews {made : α} (none : nodes made = []) : Strews body (pure made) nodes := by
  intro s _ s' here h
  obtain ⟨rfl, rfl⟩ := pure_ok.1 h
  have strewn : Strewn (Covers body) [] (nodes made) := none ▸ .nil
  exact ⟨[], .refl here, strewn⟩

theorem Spans.optional (spans : Spans body p node) (present : Bool) :
    Strews body (if present then some <$> p else pure none) fun part => part.toList.map node := by
  cases present with
  | false => exact pure_strews rfl
  | true =>
      intro s _ s' here h
      obtain ⟨made, read, rfl⟩ := map_ok.1 h
      obtain ⟨ts, passes, covers⟩ := spans here read
      exact ⟨ts, passes, .one covers⟩

theorem Returns.peek {holds : List Token → α → Prop} {f : Bool → Parser α}
    (returns : ∀ present, Returns body (f present) holds) : Returns body (peek kind >>= f) holds := by
  intro s made s' here h
  obtain ⟨present, s₁, looked, h⟩ := bind_ok.1 h
  obtain ⟨-, rfl⟩ := peek_ok.1 looked
  exact returns present here h

theorem Strews.optionalToken {f : Bool → Parser α} (more : kind ≠ .endOfFile)
    (strews : ∀ present, Strews body (f present) nodes) : Strews body (optionalToken kind >>= f) nodes := by
  intro s made s' here h
  obtain ⟨present, s₁, looked, h⟩ := bind_ok.1 h
  obtain ⟨rfl, passes⟩ | ⟨rfl, rfl⟩ := optionalToken_passes here more looked
  · obtain ⟨ts, passes', strewn⟩ := strews true passes.toLocates h
    exact ⟨_, passes.trans passes', strewn.behind _⟩
  · exact strews false here h

section
variable (spans : Spans body item node)
include spans

theorem itemsUntil_strewn {fuel : Nat} {made : List α} (here : s.Locates body)
    (h : itemsUntil close item fuel s = .ok made s') : ∃ ts s₁, Passes body ts s s₁ ∧
      Strewn (Covers body) ts (made.map node) ∧ (s₁ = s' ∨ s₁.token.kind = close ∧ advance s₁ = .ok () s') := by
  induction fuel generalizing s made with
  | zero =>
      obtain ⟨rfl, rfl⟩ := pure_ok.1 h
      exact ⟨[], s, .refl here, .nil, .inl rfl⟩
  | succ fuel ih =>
      simp only [itemsUntil, bind_ok] at h
      obtain ⟨closed, s₁, looked, h⟩ := h
      obtain ⟨found, rfl, taken⟩ | ⟨-, rfl, rfl⟩ := optionalToken_ok.1 looked
      · obtain ⟨rfl, rfl⟩ := pure_ok.1 h
        exact ⟨[], s, .refl here, .nil, .inr ⟨found, taken⟩⟩
      · simp only [Bool.false_eq_true, if_false, bind_ok, pure_ok] at h
        obtain ⟨first, s₂, firstRead, rest, s₃, restRead, rfl, rfl⟩ := h
        obtain ⟨ts, passes, covers⟩ := spans here firstRead
        obtain ⟨us, s₄, passes', strewn, ends⟩ := ih passes.toLocates restRead
        exact ⟨ts ++ us, s₄, passes.trans passes', .cons covers strewn, ends⟩

theorem oneOrMore_strewn {made : List α} (here : s.Locates body) (h : oneOrMore item close s = .ok made s') :
    ∃ ts s₁, Passes body ts s s₁ ∧ Strewn (Covers body) ts (made.map node) ∧
      (s₁ = s' ∨ s₁.token.kind = close ∧ advance s₁ = .ok () s') := by
  unfold oneOrMore at h
  obtain ⟨first, s₁, firstRead, h⟩ := bind_ok.1 h
  rw [get_bind] at h
  obtain ⟨rest, s₂, restRead, h⟩ := bind_ok.1 h
  obtain ⟨rfl, rfl⟩ := pure_ok.1 h
  obtain ⟨ts, passes, covers⟩ := spans here firstRead
  obtain ⟨us, s₃, passes', strewn, ends⟩ := itemsUntil_strewn spans passes.toLocates restRead
  exact ⟨ts ++ us, s₃, passes.trans passes', .cons covers strewn, ends⟩

theorem itemsWhile_strews (fuel : Nat) : Strews body (itemsWhile kind item fuel) (List.map node) := by
  induction fuel with
  | zero => exact pure_strews rfl
  | succ fuel ih =>
      refine Returns.peek fun more => ?_
      cases more with
      | false => exact pure_strews rfl
      | true =>
          intro s made s' here h
          simp only [if_true, bind_ok, pure_ok] at h
          obtain ⟨first, s₂, firstRead, rest, s₃, restRead, rfl, rfl⟩ := h
          obtain ⟨ts, passes, covers⟩ := spans here firstRead
          obtain ⟨us, passes', strewn⟩ := ih passes.toLocates restRead
          exact ⟨ts ++ us, passes.trans passes', .cons covers strewn⟩

end

theorem passes_close {ts : List Token} {s₁ : ParserState} {parts : List Node} (closes : close ≠ .endOfFile)
    (passes : Passes body ts s s₁) (strewn : Strewn (Covers body) ts parts)
    (ends : s₁ = s' ∨ s₁.token.kind = close ∧ advance s₁ = .ok () s') :
    ∃ us, Passes body us s s' ∧ Strewn (Covers body) us parts := by
  obtain rfl | ⟨found, taken⟩ := ends
  · exact ⟨ts, passes, strewn⟩
  · exact ⟨_, passes.trans (advance_passes passes.toLocates (found ▸ closes) taken), strewn.before _⟩

section
variable {opening : TokenKind} (opens : opening ≠ .endOfFile) (closes : close ≠ .endOfFile)
  (spans : Spans body item node)
include opens closes spans

theorem any_fills : Fills body (any opening item close) (List.map node) := by
  intro s made s' here h
  unfold any at h
  obtain ⟨t, s₁, opened, h⟩ := bind_ok.1 h
  rw [get_bind] at h
  obtain ⟨-, passes⟩ := expectToken_passes here opens opened
  obtain ⟨ts, s₂, passes', strewn, ends⟩ := itemsUntil_strewn spans passes.toLocates h
  obtain ⟨us, passes', strewn⟩ := passes_close closes passes' strewn ends
  exact ⟨_, passes.trans passes', List.cons_ne_nil _ _, strewn.behind _⟩

theorem many_fills : Fills body (many opening item close) (List.map node) := by
  intro s made s' here h
  unfold many at h
  obtain ⟨t, s₁, opened, h⟩ := bind_ok.1 h
  obtain ⟨-, passes⟩ := expectToken_passes here opens opened
  obtain ⟨ts, s₂, passes', strewn, ends⟩ := oneOrMore_strewn spans passes.toLocates h
  obtain ⟨us, passes', strewn⟩ := passes_close closes passes' strewn ends
  exact ⟨_, passes.trans passes', List.cons_ne_nil _ _, strewn.behind _⟩

theorem optionalMany_strews : Strews body (optionalMany opening item close) (List.map node) := by
  intro s made s' here h
  unfold optionalMany at h
  obtain ⟨opened, s₁, looked, h⟩ := bind_ok.1 h
  obtain ⟨rfl, passes⟩ | ⟨rfl, rfl⟩ := optionalToken_passes here opens looked
  · obtain ⟨ts, s₂, passes', strewn, ends⟩ := oneOrMore_strewn spans passes.toLocates h
    obtain ⟨us, passes', strewn⟩ := passes_close closes passes' strewn ends
    exact ⟨_, passes.trans passes', strewn.behind _⟩
  · obtain ⟨rfl, rfl⟩ := pure_ok.1 h
    exact ⟨[], .refl here, .nil⟩

end

end Parser

end QueryPlanner
