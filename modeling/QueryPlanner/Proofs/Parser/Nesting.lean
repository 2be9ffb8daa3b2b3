import QueryPlanner.Proofs.Parser.Positions

namespace QueryPlanner
open QueryPlanner.Parser ParserState Run

namespace Node

def SpansTokens (tokens : List Token) (node : Node) : Prop :=
  ∃ loc, node.loc = some loc ∧ ∃ (i j : Nat) (first last : Token), i ≤ j ∧ tokens[i]? = some first ∧
    tokens[j]? = some last ∧ loc.start = first.start ∧ loc.stop = last.stop

def Holds (outer inner : Node) : Prop :=
  ∃ loc loc', outer.loc = some loc ∧ inner.loc = some loc' ∧ loc.start ≤ loc'.start ∧ loc'.start ≤ loc'.stop ∧
    loc'.stop ≤ loc.stop

def Precedes (a b : Node) : Prop :=
  ∃ loc loc', a.loc = some loc ∧ b.loc = some loc' ∧ loc.stop ≤ loc'.start

/-- The children of the part lie in it, one behind the other. -/
structure Nests (node : Node) : Prop where
  inside : ∀ child ∈ node.children, node.Holds child
  apart : node.children.Pairwise Precedes

end Node

structure Token.InOrder (ts : List Token) : Prop where
  apart : ts.Pairwise fun a b => a.stop ≤ b.start
  wide : ∀ t ∈ ts, t.start ≤ t.stop

namespace Token.InOrder

variable {ts us : List Token} {first last : Token}

theorem sublist (ordered : InOrder ts) (among : us.Sublist ts) : InOrder us :=
  ⟨ordered.apart.sublist among, fun t member => ordered.wide t (among.subset member)⟩

theorem start_le (ordered : InOrder ts) (begins : ts.head? = some first) : ∀ t ∈ ts, first.start ≤ t.start := by
  obtain ⟨rest, rfl⟩ := List.head?_eq_some_iff.1 begins
  have width := ordered.wide first List.mem_cons_self
  refine List.forall_mem_cons.2 ⟨Nat.le_refl _, fun t member => ?_⟩
  exact Nat.le_trans width ((List.pairwise_cons.1 ordered.apart).1 t member)

theorem le_stop (ordered : InOrder ts) (ends : ts.getLast? = some last) : ∀ t ∈ ts, t.stop ≤ last.stop := by
  obtain ⟨front, rfl⟩ := List.getLast?_eq_some_iff.1 ends
  have width := ordered.wide last (List.mem_append_right _ (List.mem_singleton_self _))
  intro t member
  obtain member | member := List.mem_append.1 member
  · exact Nat.le_trans ((List.pairwise_append.1 ordered.apart).2.2 t member last (List.mem_singleton_self _)) width
  · rw [List.mem_singleton.1 member]

end Token.InOrder

theorem Source.tokens_inOrder {source : Source} {tokens : List Token} (read : source.tokens = .ok tokens) :
    Token.InOrder tokens := by
  have tiles : Tiles 0 source.body tokens := TokenStream.scan_tiles (Nat.lt_succ_self _) (Source.tokens_ok.1 read)
  exact ⟨tiles.ordered, fun t member => (tiles.bounds t member).2.1⟩

namespace Strewn

variable {α : Type} {G : List Token → α → Prop} {R : α → α → Prop} {ts : List Token} {parts : List α}

theorem pairwise (strewn : Strewn G ts parts)
    (behind : ∀ us vs a b, (us ++ vs).Sublist ts → G us a → G vs b → R a b) : parts.Pairwise R := by
  induction strewn with
  | nil => exact .nil
  | skip _ ih => exact ih fun us vs a b among => behind us vs a b (among.cons _)
  | @cons us ts part parts here strewn ih =>
      refine List.pairwise_cons.2 ⟨fun b member => ?_, ih fun us vs a b among => behind us vs a b ?_⟩
      · obtain ⟨vs, inside, there⟩ := strewn.exists_of_mem member
        exact behind us vs part b (inside.sublist.append_left us) here there
      · exact among.trans (List.sublist_append_right _ _)

end Strewn

namespace Covers

variable {source : Source} {ts us vs : List Token} {node a b : Node}

theorem exists_loc (covers : Covers source ts node) (ordered : Token.InOrder ts) :
    ∃ loc, node.loc = some loc ∧ (∃ first ∈ ts, loc.start = first.start) ∧ (∃ last ∈ ts, loc.stop = last.stop) ∧
      (∀ t ∈ ts, loc.start ≤ t.start) ∧ ∀ t ∈ ts, t.stop ≤ loc.stop := by
  obtain ⟨begins, ends, loc, -⟩ := covers
  exact ⟨_, loc, ⟨_, List.mem_of_head? begins, rfl⟩, ⟨_, List.mem_of_getLast? ends, rfl⟩, ordered.start_le begins,
    ordered.le_stop ends⟩

theorem precedes (first : Covers source us a) (second : Covers source vs b) (ordered : Token.InOrder (us ++ vs)) :
    a.Precedes b := by
  obtain ⟨loc, located, -, ⟨t, member, stop⟩, -⟩ := first.exists_loc (ordered.sublist (List.sublist_append_left us vs))
  obtain ⟨loc', located', ⟨t', member', start⟩, -⟩ :=
    second.exists_loc (ordered.sublist (List.sublist_append_right us vs))
  have apart := (List.pairwise_append.1 ordered.apart).2.2 t member t' member'
  exact ⟨loc, loc', located, located', by rwa [stop, start]⟩

theorem held (covers : Covers source us a) (ordered : Token.InOrder us) {loc : Location} (located : node.loc = some loc)
    (starts : ∀ t ∈ us, loc.start ≤ t.start) (stops : ∀ t ∈ us, t.stop ≤ loc.stop) : node.Holds a := by
  obtain ⟨loc', located', ⟨t, member, start⟩, ⟨t', member', stop⟩, first, -⟩ := covers.exists_loc ordered
  have width := ordered.wide t' member'
  refine ⟨loc, loc', located, located', start ▸ starts t member, ?_, stop ▸ stops t' member'⟩
  exact stop ▸ Nat.le_trans (first t' member') width

end Covers

theorem Strewn.nests {source : Source} {ts : List Token} {node : Node} {loc : Location}
    (strewn : Strewn (Covers source) ts node.children) (ordered : Token.InOrder ts) (located : node.loc = some loc)
    (starts : ∀ t ∈ ts, loc.start ≤ t.start) (stops : ∀ t ∈ ts, t.stop ≤ loc.stop) : node.Nests where
  inside child member := by
    obtain ⟨us, within, covers⟩ := strewn.exists_of_mem member
    have among := within.subset
    exact covers.held (ordered.sublist within.sublist) located (fun t here => starts t (among here))
      fun t here => stops t (among here)
  apart := strewn.pairwise fun us vs a b among first second => first.precedes second (ordered.sublist among)

namespace Covers

variable {source : Source} {ts tokens : List Token} {node part : Node}

theorem nests (covers : Covers source ts node) (ordered : Token.InOrder ts) : node.Nests := by
  obtain ⟨loc, located, -, -, starts, stops⟩ := covers.exists_loc ordered
  obtain ⟨-, -, -, strewn⟩ := covers
  exact strewn.nests ordered located starts stops

theorem spansTokens (covers : Covers source ts node) (among : ts <:+: tokens) : node.SpansTokens tokens := by
  have some := covers.ne_nil
  obtain ⟨begins, ends, loc, -⟩ := covers
  obtain ⟨front, back, rfl⟩ := among
  have length := List.length_pos_iff.2 some
  rw [List.head?_eq_getElem?] at begins
  rw [List.getLast?_eq_getElem?] at ends
  refine ⟨_, loc, front.length + 0, front.length + (ts.length - 1), _, _, by omega, ?_, ?_, rfl, rfl⟩
  · rw [List.append_assoc, List.getElem?_append_right (Nat.le_add_right _ _), Nat.add_sub_cancel_left,
      List.getElem?_append_left length, begins]
  · rw [List.append_assoc, List.getElem?_append_right (Nat.le_add_right _ _), Nat.add_sub_cancel_left,
      List.getElem?_append_left (by omega), ends]

theorem parts_nest (covers : Covers source ts node) (among : ts <:+: source.readable)
    (read : source.tokens = .ok tokens) (inside : node.IsPart part) : part.Nests ∧ part.SpansTokens tokens := by
  obtain ⟨us, within, covers'⟩ := covers.exists_of_isPart inside
  have among' := within.trans among
  rw [Source.readable_of_tokens read] at among'
  exact ⟨covers'.nests ((Source.tokens_inOrder read).sublist among'.sublist), covers'.spansTokens among'⟩

end Covers

section
variable {source : Source} {o : ParseOptions} {s s₁ s₂ : ParserState} {ts tokens : List Token}

theorem stop_of_passes (passes : Passes source ts s s₁) (ordered : Token.InOrder s.ahead)
    (ends : s₁ = s₂ ∨ s₁.token.kind = .endOfFile ∧ advance s₁ = .ok () s₂) :
    located s₂ .startOfFile = some ⟨source, 0, s₂.lastToken.stop, 0, 0⟩ ∧ ∀ t ∈ ts, t.stop ≤ s₂.lastToken.stop := by
  have ahead := passes.ahead
  have shown : located s₁ .startOfFile = some ⟨source, 0, s₁.lastToken.stop, 0, 0⟩ := by
    rw [located, passes.locations, passes.source]
    rfl
  obtain rfl | ⟨last, taken⟩ := ends
  · refine ⟨shown, fun t member => ?_⟩
    have some := List.getLast?_eq_getLast_of_ne_nil (List.ne_nil_of_mem member)
    have lastToken := passes.lastToken
    rw [some, Option.getD_some] at lastToken
    rw [lastToken]
    exact (ordered.sublist (ahead ▸ List.sublist_append_left ts _)).le_stop some t member
  · -- The end of the file was taken, and stands behind all others.
    have stands : s₁.Stands s₁.options s₁.depth := ⟨passes.toSettled, rfl, rfl⟩
    rw [advance_at_end stands last] at taken
    obtain ⟨-, rfl⟩ := EStateM.Result.ok.inj taken
    obtain ⟨rest, front⟩ := s₁.ahead_eq_cons
    rw [ahead, front] at ordered
    refine ⟨?_, fun t member => ?_⟩
    · rw [located, ended, passes.locations, passes.source]
      rfl
    · have apart := (List.pairwise_append.1 ordered.apart).2.2 t member s₁.token List.mem_cons_self
      exact Nat.le_trans apart (ordered.wide _ (List.mem_append_right _ List.mem_cons_self))

theorem document_nests {d : Document} (locations : o.noLocation = false) (returned : Document.parse source o = .ok d)
    (read : source.tokens = .ok tokens) : (Node.document d).Nests := by
  have ordered := Source.tokens_inOrder read
  obtain ⟨s, s', enters, taken⟩ := parse_enters document_start returned
  rw [← Source.readable_of_tokens read, ← enters.ahead] at ordered
  simp only [definitionsFrom, bind_ok, locationFrom_ok, pure_ok] at taken
  obtain ⟨definitions, s₁, taken, _, _, ⟨rfl, rfl⟩, rfl, rfl⟩ := taken
  obtain ⟨ts, s₂, passes, strewn, ends⟩ := oneOrMore_strewn definition_spans (enters.locates locations) taken
  obtain ⟨located, stops⟩ := stop_of_passes passes ordered ends
  exact Strewn.nests strewn (ordered.sublist (passes.ahead ▸ List.sublist_append_left ts _)) located
    (fun t _ => Nat.zero_le _) stops

end

/--
Parts span tokens and nest: the children of a part, in the order of its fields, lie in it one behind the other. Only a
document need not start where a token does.
-/
theorem parts_span_and_nest (source : Source) (o : ParseOptions) (locations : o.noLocation = false) :
    (∀ d, Document.parse source o = .ok d → ∃ tokens, source.tokens = .ok tokens ∧
      ∀ node, (Node.document d).IsPart node → node.Nests ∧ (node.isDocument = false → node.SpansTokens tokens)) ∧
    (∀ v, Value.parse source o = .ok v → ∃ tokens, source.tokens = .ok tokens ∧
      ∀ node, (Node.value v).IsPart node → node.Nests ∧ node.SpansTokens tokens) ∧
    ∀ t, TypeRef.parse source o = .ok t → ∃ tokens, source.tokens = .ok tokens ∧
      ∀ node, (Node.type t).IsPart node → node.Nests ∧ node.SpansTokens tokens := by
  refine ⟨fun d returned => ?_, fun v returned => ?_, fun t returned => ?_⟩
  · obtain ⟨ls, lexemes, -⟩ := document_accepts_iff.1 ⟨d, returned, rfl⟩
    obtain ⟨tokens, read⟩ := Source.tokens_of_lexemes lexemes
    refine ⟨tokens, read, fun node inside => ?_⟩
    obtain rfl | ⟨definition, member, inside⟩ := inside.eq_or_inside
    · exact ⟨document_nests locations returned read, nofun⟩
    · obtain ⟨ts, among, covers⟩ := document_covers locations returned definition member
      obtain ⟨nests, spans⟩ := covers.parts_nest among read inside
      exact ⟨nests, fun _ => spans⟩
  · obtain ⟨ls, lexemes, -⟩ := Value.accepts_iff.1 ⟨v, returned, rfl⟩
    obtain ⟨tokens, read⟩ := Source.tokens_of_lexemes lexemes
    obtain ⟨ts, among, covers⟩ := whole_covers value_spans locations returned
    exact ⟨tokens, read, fun node => covers.parts_nest among read⟩
  · obtain ⟨ls, lexemes, -⟩ := TypeRef.accepts_iff.1 ⟨t, returned, rfl⟩
    obtain ⟨tokens, read⟩ := Source.tokens_of_lexemes lexemes
    obtain ⟨ts, among, covers⟩ := whole_covers typeRef_spans locations returned
    exact ⟨tokens, read, fun node => covers.parts_nest among read⟩

namespace OptionalParts

def query : Source where
  body := "query($a: [T!] = []) \x7b b: c(d: $a)[!]? @e \x7b ...F \x7d \x7d fragment F on T \x7b ... \x7b g \x7d \x7d #"

def object : Source := { body := " \x7b a: [], b: [\x7b c: $d \x7d] \x7d," }

def list : Source := { body := "[ [A!] ]! #" }

theorem spans_and_nests :
    (∃ d tokens, Document.parse query = .ok d ∧ query.tokens = .ok tokens ∧ ∀ node, (Node.document d).IsPart node →
      node.Nests ∧ (node.isDocument = false → node.SpansTokens tokens)) ∧
    (∃ v tokens, Value.parse object = .ok v ∧ object.tokens = .ok tokens ∧ ∀ node, (Node.value v).IsPart node →
      node.Nests ∧ node.SpansTokens tokens) ∧
    ∃ t tokens, TypeRef.parse list = .ok t ∧ list.tokens = .ok tokens ∧ ∀ node, (Node.type t).IsPart node →
      node.Nests ∧ node.SpansTokens tokens := by
  obtain ⟨d, document⟩ := Run.exists_of_isOk (show (Document.parse query).isOk = true by decide +kernel)
  obtain ⟨v, value⟩ := Run.exists_of_isOk (show (Value.parse object).isOk = true by decide +kernel)
  obtain ⟨t, type⟩ := Run.exists_of_isOk (show (TypeRef.parse list).isOk = true by decide +kernel)
  obtain ⟨tokens, read, nests⟩ := (parts_span_and_nest query {} rfl).1 d document
  obtain ⟨tokens', read', nests'⟩ := (parts_span_and_nest object {} rfl).2.1 v value
  obtain ⟨tokens'', read'', nests''⟩ := (parts_span_and_nest list {} rfl).2.2 t type
  exact ⟨⟨d, tokens, document, read, nests⟩, ⟨v, tokens', value, read', nests'⟩, ⟨t, tokens'', type, read'', nests''⟩⟩

end OptionalParts

end QueryPlanner
