import QueryPlanner.Proofs.Parser.Derived
import QueryPlanner.Proofs.Token.Excerpt
import QueryPlanner.Proofs.Document.RoundTrip

namespace QueryPlanner
open Grammar QueryPlanner.Parser

namespace Node

variable {source : Source} {o : ParseOptions} {node : Node}

/-- What stands at the location of a value, a type or a definition is read as a part that is the same. -/
def IsReadAgain (source : Source) (o : ParseOptions) : Node → Prop
  | value v => ∃ loc v', v.loc = some loc ∧ Value.parse (source.excerpt loc.start loc.stop) o = .ok v' ∧
      (value v').equals (value v) = true
  | type t => ∃ loc t', t.loc = some loc ∧ TypeRef.parse (source.excerpt loc.start loc.stop) o = .ok t' ∧
      (type t').equals (type t) = true
  | definition d => ∃ loc made d', d.loc = some loc ∧ Document.parse (source.excerpt loc.start loc.stop) o = .ok made ∧
      made.definitions = [d'] ∧ (definition d').equals (definition d) = true
  | _ => True

theorem StandsOn.exists_excerpt {G : List Lexeme → Prop} (stands : node.StandsOn source G) {whole : List Lexeme}
    (lexemes : source.lexemes = .ok whole) (allowed : o.allows whole.length) :
    ∃ loc ls, node.loc = some loc ∧ (source.excerpt loc.start loc.stop).lexemes = .ok ls ∧ o.allows ls.length ∧ G ls := by
  obtain ⟨ts, among, ⟨begins, ends, loc, -⟩, holds⟩ := stands
  obtain ⟨tokens, read⟩ := Source.tokens_of_lexemes lexemes
  rw [Source.readable_of_tokens read] at among
  rw [Source.lexemes_of_tokens read, Except.ok.injEq] at lexemes
  rw [Token.flatMap_written_eq] at holds
  refine ⟨_, _, loc, Source.lexemes_excerpt read among begins ends, ParseOptions.allows_of_le allowed ?_, holds⟩
  rw [← lexemes]
  exact ((among.sublist.filter _).map _).length_le

theorem IsDerived.isReadAgain (derived : node.IsDerived source o) {whole : List Lexeme}
    (lexemes : source.lexemes = .ok whole) (allowed : o.allows whole.length) : node.IsReadAgain source o := by
  cases node with
  | value v =>
      rw [IsDerived] at derived
      obtain ⟨loc, ls, located, cut, fewer, derives, low⟩ := derived.exists_excerpt lexemes allowed
      obtain ⟨v', again, same⟩ := Value.accepts_iff.2 ⟨ls, cut, fewer, derives, low⟩
      exact ⟨loc, v', located, again, v'.toTree_hasBare.equals (same ▸ v.toTree_hasBare)⟩
  | type t =>
      rw [IsDerived] at derived
      obtain ⟨loc, ls, located, cut, fewer, derives, low⟩ := derived.exists_excerpt lexemes allowed
      obtain ⟨t', again, same⟩ := TypeRef.accepts_iff.2 ⟨ls, cut, fewer, derives, low⟩
      exact ⟨loc, t', located, again, t'.toTree_hasBare.equals (same ▸ t.toTree_hasBare)⟩
  | definition d =>
      rw [IsDerived] at derived
      obtain ⟨loc, ls, located, cut, fewer, derives, low⟩ := derived.exists_excerpt lexemes allowed
      have alone : Sequence (IsDefinition o.allowFragmentVariables) ls [d.bare] :=
        List.append_nil ls ▸ .cons derives .nil
      obtain ⟨made, again, same⟩ := document_accepts_iff.2
        ⟨ls, cut, fewer, .intro alone (List.cons_ne_nil _ _), Nat.max_le.2 ⟨low, Nat.zero_le _⟩⟩
      obtain ⟨d', only, same⟩ := List.map_eq_singleton_iff.1 (congrArg Document.definitions same)
      exact ⟨loc, made, d', located, again, only, d'.toTree_hasBare.equals (same ▸ d.toTree_hasBare)⟩
  | _ => trivial

end Node

/-- Locations cut out, of the source, the text of the part that is located: it is read again as the same part. -/
theorem excerpts_are_read_again (source : Source) (o : ParseOptions) (locations : o.noLocation = false) :
    (∀ d, Document.parse source o = .ok d → ∀ node, (Node.document d).IsPart node → node.IsReadAgain source o) ∧
    (∀ v, Value.parse source o = .ok v → ∀ node, (Node.value v).IsPart node → node.IsReadAgain source o) ∧
    ∀ t, TypeRef.parse source o = .ok t → ∀ node, (Node.type t).IsPart node → node.IsReadAgain source o := by
  refine ⟨fun d returned node inside => ?_, fun v returned node inside => ?_, fun t returned node inside => ?_⟩
  · obtain ⟨ls, lexemes, allowed, -⟩ := document_accepts_iff.1 ⟨d, returned, rfl⟩
    exact (document_derived locations returned node inside).isReadAgain lexemes allowed
  · obtain ⟨ls, lexemes, allowed, -⟩ := Value.accepts_iff.1 ⟨v, returned, rfl⟩
    exact (whole_derived value_finds locations returned node inside).isReadAgain lexemes allowed
  · obtain ⟨ls, lexemes, allowed, -⟩ := TypeRef.accepts_iff.1 ⟨t, returned, rfl⟩
    exact (whole_derived typeRef_finds locations returned node inside).isReadAgain lexemes allowed

namespace ClosePacked

def query : Source where
  body := "query($a:[T!]=[1\"\"2.5e1])\x7bb:c(d:$a,e:\x7bf:\"\"\"\n  g\"\"\"\x7d)@h#\n\x7d#\nfragment F on T\x7bi\x7d#"

def object : Source := { body := " \x7b a: [], b: [\x7b c: $d \x7d] \x7d," }

def list : Source := { body := "[ [A!] ]! #" }

theorem excerpts_read_again :
    (∃ d, Document.parse query = .ok d ∧ ∀ node, (Node.document d).IsPart node → node.IsReadAgain query {}) ∧
    (∃ v, Value.parse object = .ok v ∧ ∀ node, (Node.value v).IsPart node → node.IsReadAgain object {}) ∧
    ∃ t, TypeRef.parse list = .ok t ∧ ∀ node, (Node.type t).IsPart node → node.IsReadAgain list {} := by
  obtain ⟨d, document⟩ := Run.exists_of_isOk (show (Document.parse query).isOk = true by decide +kernel)
  obtain ⟨v, value⟩ := Run.exists_of_isOk (show (Value.parse object).isOk = true by decide +kernel)
  obtain ⟨t, type⟩ := Run.exists_of_isOk (show (TypeRef.parse list).isOk = true by decide +kernel)
  exact ⟨⟨d, document, (excerpts_are_read_again query {} rfl).1 d document⟩,
    ⟨v, value, (excerpts_are_read_again object {} rfl).2.1 v value⟩,
    ⟨t, type, (excerpts_are_read_again list {} rfl).2.2 t type⟩⟩

end ClosePacked

end QueryPlanner
