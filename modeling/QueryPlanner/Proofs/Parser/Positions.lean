import QueryPlanner.Proofs.Parser.Spans
import QueryPlanner.Proofs.Token.Position

namespace QueryPlanner
open QueryPlanner.Parser ParserState Run

theorem Node.IsPart.eq_or_inside {whole part : Node} (inside : whole.IsPart part) :
    part = whole ∨ ∃ child ∈ whole.children, child.IsPart part := by
  induction inside with
  | self => exact .inl rfl
  | child _ member ih =>
      obtain rfl | ⟨child, among, deeper⟩ := ih
      · exact .inr ⟨_, member, .self⟩
      · exact .inr ⟨child, among, .child deeper member⟩

section
variable {α : Type} {source : Source} {o : ParseOptions}

theorem ParserState.Enters.locates {s : ParserState} (enters : s.Enters source o) (locations : o.noLocation = false) :
    s.Locates source where
  toSettled := enters.toSettled
  source := enters.source
  locations := enters.options ▸ locations

theorem parse_enters {entry body : Parser α} {made : α}
    (opens : entry (start source o) = (expectToken .startOfFile >>= fun _ => body) (start source o))
    (returned : parse entry source o = .ok made) : ∃ s s', s.Enters source o ∧ body s = .ok made s' := by
  obtain ⟨s', read⟩ := parse_ok.1 returned
  rw [opens] at read
  obtain ⟨fault, s₁, -, taken⟩ | ⟨most, token, text, s₁, -, taken⟩ | ⟨s, enters, taken⟩ := enter source o
  · rw [Run.bind_of_error taken] at read
    contradiction
  · rw [Run.bind_of_error taken] at read
    contradiction
  · rw [Run.bind_of_ok taken] at read
    exact ⟨s, s', enters, read⟩

theorem whole_covers {p : Parser α} {node : α → Node} {made : α} (spans : Spans source p node)
    (locations : o.noLocation = false) (returned : parse (whole p) source o = .ok made) :
    ∃ ts, ts <:+: source.readable ∧ Covers source ts (node made) := by
  obtain ⟨s, s', enters, read⟩ := parse_enters (show whole p _ = (_ >>= fun _ => toEnd p) _ from rfl) returned
  simp only [toEnd, bind_ok, pure_ok] at read
  obtain ⟨_, s₁, read, _, _, -, rfl, -⟩ := read
  obtain ⟨ts, passes, covers⟩ := spans (enters.locates locations) read
  exact ⟨ts, enters.ahead ▸ passes.ahead ▸ (List.prefix_append ts _).isInfix, covers⟩

theorem document_covers {d : Document} (locations : o.noLocation = false) (returned : Document.parse source o = .ok d) :
    ∀ definition ∈ (Node.document d).children, ∃ ts, ts <:+: source.readable ∧ Covers source ts definition := by
  obtain ⟨s, s', enters, read⟩ := parse_enters document_start returned
  simp only [definitionsFrom, bind_ok, locationFrom_ok, pure_ok] at read
  obtain ⟨definitions, s₁, read, _, _, ⟨rfl, rfl⟩, rfl, rfl⟩ := read
  obtain ⟨ts, s₂, passes, strewn, -⟩ := oneOrMore_strewn definition_spans (enters.locates locations) read
  intro definition member
  obtain ⟨us, inside, covers⟩ := strewn.exists_of_mem member
  exact ⟨us, inside.trans (enters.ahead ▸ passes.ahead ▸ (List.prefix_append ts _).isInfix), covers⟩

end

def Node.IsPlacedIn (source : Source) (node : Node) : Prop :=
  ∃ loc, node.loc = some loc ∧ loc.source = source ∧ source.body.lineColumn loc.start = ⟨loc.line, loc.column⟩

theorem Source.readable_isPlacedIn (source : Source) : ∀ t ∈ source.readable, t.IsPlacedIn source.body :=
  TokenStream.ofText_isPlacedIn source.body

theorem Covers.isPlacedIn {source : Source} {ts : List Token} {whole part : Node} (covers : Covers source ts whole)
    (among : ts <:+: source.readable) (inside : whole.IsPart part) : part.IsPlacedIn source := by
  obtain ⟨us, within, ⟨begins, -, loc, -⟩⟩ := covers.exists_of_isPart inside
  have member := (within.trans among).subset (List.mem_of_head? begins)
  exact ⟨_, loc, rfl, (source.readable_isPlacedIn _ member).located⟩

/-- Tokens and the parts of a tree know the line and the column of their start. -/
theorem tokens_and_parts_are_placed :
    (∀ (source : Source) tokens, source.tokens = .ok tokens → ∀ t ∈ tokens, t.IsPlacedIn source.body) ∧
    ∀ (source : Source) (o : ParseOptions), o.noLocation = false →
      (∀ d, Document.parse source o = .ok d → ∀ node, (Node.document d).IsPart node → node.isDocument = false →
        node.IsPlacedIn source) ∧
      (∀ v, Value.parse source o = .ok v → ∀ node, (Node.value v).IsPart node → node.IsPlacedIn source) ∧
      ∀ t, TypeRef.parse source o = .ok t → ∀ node, (Node.type t).IsPart node → node.IsPlacedIn source := by
  refine ⟨fun source tokens read => ?_, fun source o locations => ⟨fun d returned node inside other => ?_, ?_, ?_⟩⟩
  · exact Source.readable_of_tokens read ▸ source.readable_isPlacedIn
  · obtain rfl | ⟨definition, member, inside⟩ := inside.eq_or_inside
    · contradiction
    · obtain ⟨ts, among, covers⟩ := document_covers locations returned definition member
      exact covers.isPlacedIn among inside
  · intro v returned node inside
    obtain ⟨ts, among, covers⟩ := whole_covers value_spans locations returned
    exact covers.isPlacedIn among inside
  · intro t returned node inside
    obtain ⟨ts, among, covers⟩ := whole_covers typeRef_spans locations returned
    exact covers.isPlacedIn among inside

namespace MixedLineEnds

def query : Source := { body := "\x7b a # b\r\n c(d: \"\"\"e\r\n\r\n\rf\"\"\", g: 1)\r h \n\r\n\x7d" }

def object : Source := { body := "\r\x7b a: [1,\r\n $b]\n \x7d" }

def list : Source := { body := "[\nA!\r]" }

theorem places_tokens_and_parts :
    (∃ tokens, query.tokens = .ok tokens ∧ ∀ t ∈ tokens, t.IsPlacedIn query.body) ∧
    (∃ d, Document.parse query = .ok d ∧ ∀ node, (Node.document d).IsPart node → node.isDocument = false →
      node.IsPlacedIn query) ∧
    (∃ v, Value.parse object = .ok v ∧ ∀ node, (Node.value v).IsPart node → node.IsPlacedIn object) ∧
    ∃ t, TypeRef.parse list = .ok t ∧ ∀ node, (Node.type t).IsPart node → node.IsPlacedIn list := by
  obtain ⟨tokens, read⟩ := Run.exists_of_isOk (show query.tokens.isOk = true by decide +kernel)
  obtain ⟨d, document⟩ := Run.exists_of_isOk (show (Document.parse query).isOk = true by decide +kernel)
  obtain ⟨v, value⟩ := Run.exists_of_isOk (show (Value.parse object).isOk = true by decide +kernel)
  obtain ⟨t, type⟩ := Run.exists_of_isOk (show (TypeRef.parse list).isOk = true by decide +kernel)
  obtain ⟨placesTokens, placesParts⟩ := tokens_and_parts_are_placed
  exact ⟨⟨tokens, read, placesTokens query tokens read⟩, ⟨d, document, (placesParts query {} rfl).1 d document⟩,
    ⟨v, value, (placesParts object {} rfl).2.1 v value⟩, ⟨t, type, (placesParts list {} rfl).2.2 t type⟩⟩

example : (query.tokens.toOption.map fun tokens => tokens.map fun t => (t.line, t.column)) = some
    [(1, 1), (1, 3), (2, 2), (2, 3), (2, 4), (2, 5), (2, 7), (5, 7), (5, 8), (5, 10), (5, 11), (6, 2), (8, 1), (8, 2)] := by
  decide +kernel

end MixedLineEnds

end QueryPlanner
