import QueryPlanner.Proofs.Document.Bare
import QueryPlanner.Proofs.Document.Written
import QueryPlanner.Proofs.Parser.Acceptance

namespace QueryPlanner
open Grammar

theorem Writes.source_lexemes {text : Text} {ls : List Lexeme} (writes : Writes text ls) (name : Text) :
    ({ body := text, name } : Source).lexemes = .ok ls := by
  have reads := writes.reads 0 [] .nil
  rw [Text.shift_zero, List.append_nil] at reads
  exact Reads.source_lexemes reads

theorem ParseOptions.allows_of_le {o : ParseOptions} {count fewer : Nat} (allowed : o.allows count) (le : fewer ≤ count) :
    o.allows fewer := by
  intro most limit
  have := allowed most limit
  omega

theorem accepts_render {α : Type} {parse : Source → Except Diagnostic α} {G : List Lexeme → α → Prop}
    {render : α → Text} {bare : α → α} {depth : α → Nat} {o : ParseOptions}
    (accepts : ∀ source tree, (∃ made, parse source = .ok made ∧ bare made = tree) ↔
      ∃ ls, source.lexemes = .ok ls ∧ o.allows ls.length ∧ G ls tree ∧ depth tree ≤ o.depthLimit.toNat)
    (written : Written render G) (same : ∀ made, render (bare made) = render made) {source : Source} {made : α}
    (returned : parse source = .ok made) (name : Text) :
    ∃ again, parse { body := render made, name } = .ok again ∧ bare again = bare made := by
  -- Printing meets parsing at the derivation of the bare tree.
  obtain ⟨ls, read, allowed, derives, low⟩ := (accepts source (bare made)).1 ⟨made, returned, rfl⟩
  obtain ⟨ls', derives', writes, fewer⟩ := written (Source.lexemes_proper read) derives
  rw [same] at writes
  exact (accepts _ (bare made)).2 ⟨ls', writes.source_lexemes name, ParseOptions.allows_of_le allowed fewer, derives', low⟩

/-- The text of what was read is read again, and yields the same up to locations. -/
theorem parses_render (source : Source) (o : ParseOptions) (name : Text) :
    (∀ d, Document.parse source o = .ok d → ∃ d', Document.parse { body := (Node.document d).render, name } o = .ok d' ∧
      (Node.document d').equals (.document d) = true) ∧
    (∀ v, Value.parse source o = .ok v → ∃ v', Value.parse { body := (Node.value v).render, name } o = .ok v' ∧
      (Node.value v').equals (.value v) = true) ∧
    ∀ t, TypeRef.parse source o = .ok t → ∃ t', TypeRef.parse { body := (Node.type t).render, name } o = .ok t' ∧
      (Node.type t').equals (.type t) = true := by
  refine ⟨fun d returned => ?_, fun v returned => ?_, fun t returned => ?_⟩
  · obtain ⟨d', again, same⟩ := accepts_render (fun _ _ => Parser.document_accepts_iff) (isDocument_written _)
      Document.render_bare returned name
    exact ⟨d', again, d'.toTree_hasBare.equals (same ▸ d.toTree_hasBare)⟩
  · obtain ⟨v', again, same⟩ := accepts_render (fun _ _ => Value.accepts_iff) (Writable.written (isValue_writable false))
      Value.render_bare returned name
    exact ⟨v', again, v'.toTree_hasBare.equals (same ▸ v.toTree_hasBare)⟩
  · obtain ⟨t', again, same⟩ := accepts_render (fun _ _ => TypeRef.accepts_iff) (Writable.written isTypeRef_writable)
      TypeRef.render_bare returned name
    exact ⟨t', again, t'.toTree_hasBare.equals (same ▸ t.toTree_hasBare)⟩

namespace Nested

def query : Source where
  body := "query Q($n: Int = 2) \x7b a \x7b b(text: \"\"\"\n  c\n    d\n\"\"\", first: $n, name: \"a name that is so long" ++
    " that it takes a line for itself\") \x7b e[?]! ...F \x7d \x7d \x7d fragment F on T \x7b g \x7d"

def object : Source := { body := "\x7b a: [1, $b], c: \"d\" \x7d" }

def list : Source := { body := "[A!]" }

theorem parses_render_again :
    (∃ d d', Document.parse query = .ok d ∧ Document.parse { body := (Node.document d).render } = .ok d' ∧
      (Node.document d').equals (.document d) = true) ∧
    (∃ v v', Value.parse object = .ok v ∧ Value.parse { body := (Node.value v).render } = .ok v' ∧
      (Node.value v').equals (.value v) = true) ∧
    ∃ t t', TypeRef.parse list = .ok t ∧ TypeRef.parse { body := (Node.type t).render } = .ok t' ∧
      (Node.type t').equals (.type t) = true := by
  obtain ⟨d, document⟩ := Run.exists_of_isOk (show (Document.parse query).isOk = true by decide +kernel)
  obtain ⟨v, value⟩ := Run.exists_of_isOk (show (Value.parse object).isOk = true by decide +kernel)
  obtain ⟨t, type⟩ := Run.exists_of_isOk (show (TypeRef.parse list).isOk = true by decide +kernel)
  obtain ⟨d', document', same⟩ := (parses_render query {} "GraphQL request").1 d document
  obtain ⟨v', value', same'⟩ := (parses_render object {} "GraphQL request").2.1 v value
  obtain ⟨t', type', same''⟩ := (parses_render list {} "GraphQL request").2.2 t type
  exact ⟨⟨d, d', document, document', same⟩, ⟨v, v', value, value', same'⟩, t, t', type, type', same''⟩

end Nested

end QueryPlanner
