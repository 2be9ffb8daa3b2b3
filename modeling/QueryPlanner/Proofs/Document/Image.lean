import QueryPlanner.Proofs.Document.RoundTrip
import QueryPlanner.Proofs.Document.Spelling
import QueryPlanner.Proofs.Syntax.Depth

namespace QueryPlanner
open Grammar

theorem Document.isWellFormed_of_parse {source : Source} {o : ParseOptions} {d : Document}
    (returned : Document.parse source o = .ok d) : d.IsWellFormed := by
  obtain ⟨ls, read, -, derives, -⟩ := Parser.document_accepts_iff.1 ⟨d, returned, rfl⟩
  exact ((Document.spelled_iff _ d).1 ⟨ls, Source.lexemes_proper read, derives⟩).1

theorem Document.parses_of_spelled {o : ParseOptions} {d : Document}
    (spelled : Spelled (IsDocument o.allowFragmentVariables) d.bare) (unlimited : o.maxTokens = none)
    (deep : d.depth ≤ o.depthLimit.toNat) (name : Text) :
    ∃ d', Document.parse { body := (Node.document d).render, name } o = .ok d' ∧ d'.bare = d.bare := by
  obtain ⟨ls, proper, derives⟩ := spelled
  obtain ⟨ls', derives', writes, -⟩ := isDocument_written _ proper derives
  rw [Document.render_bare] at writes
  exact Parser.document_accepts_iff.2
    ⟨ls', writes.source_lexemes name, Parser.allows_of_unlimited unlimited _, derives', d.depth_bare.symm ▸ deep⟩

/-- Every document that is read is well formed, and every well-formed document is read from its own text. -/
theorem parses_exactly_well_formed :
    (∀ source o d, Document.parse source o = .ok d → d.IsWellFormed) ∧
    ∀ d : Document, d.IsWellFormed → ∀ (o : ParseOptions) (name : Text), o.maxTokens = none →
      (∀ definition ∈ d.definitions, definition.Carries o.allowFragmentVariables) → d.depth ≤ o.depthLimit.toNat →
      ∃ d', Document.parse { body := (Node.document d).render, name } o = .ok d' ∧
        (Node.document d').equals (.document d) = true := by
  refine ⟨fun _ _ _ => Document.isWellFormed_of_parse, fun d wellFormed o name unlimited carries deep => ?_⟩
  obtain ⟨d', returned, same⟩ :=
    Document.parses_of_spelled ((Document.spelled_iff _ d).2 ⟨wellFormed, carries⟩) unlimited deep name
  exact ⟨d', returned, d'.toTree_hasBare.equals (same ▸ d.toTree_hasBare)⟩

namespace Crafted

def fragment : Fragment where
  name := { text := "F" }
  variableDefinitions := some
    [{ var := { name := { text := "x" } }, type := .nonNull (.list (.ofName "T") none) none,
       defaultValue := some (.list [.string "a\n  \"b\"" true none] none), directives := [] }]
  typeCondition := { name := { text := "T" } }
  directives := []
  selectionSet := ⟨[.field ⟨none, { text := "a" }, [⟨{ text := "b" }, .enum "on" none, none⟩],
    some (.optional (some (.list none none)) none), [], none, none⟩], none⟩

def document : Document := { definitions := [.fragment fragment] }

theorem isTidy_default : BlockString.IsTidy "a\n  \"b\"" where
  noReturn := by decide
  trimmed := {
    first := by decide
    last := by decide
    flush := fun _ => ⟨"a", by decide, by decide, by decide⟩ }

theorem isWellFormed_definition : ∀ d ∈ (fragment.variableDefinitions.getD []), d.IsWellFormed := by
  refine List.forall_mem_singleton.2 ⟨by decide, ⟨by decide, rfl, trivial⟩, ?_, nofun⟩
  rintro _ ⟨⟩
  exact ⟨⟨.of_all (List.all_eq_true.1 (by decide)), fun _ => .inr isTidy_default⟩, trivial⟩

theorem isWellFormed_document : document.IsWellFormed := by
  refine ⟨List.cons_ne_nil _ _, List.forall_mem_singleton.2 ?_, true, List.forall_mem_singleton.2 rfl⟩
  refine ⟨by decide, by decide, ?_, by decide, nofun, List.cons_ne_nil _ _, ?_, trivial⟩
  · rintro _ ⟨⟩
    exact isWellFormed_definition
  · refine ⟨nofun, by decide, List.forall_mem_singleton.2 ⟨by decide, ⟨by decide, by decide⟩⟩, ⟨?_, trivial⟩, nofun, trivial⟩
    rintro _ ⟨⟩
    rfl

theorem parses_exactly :
    (∃ d, Document.parse Nested.query = .ok d ∧ d.IsWellFormed) ∧
    ∃ d, Document.parse { body := (Node.document document).render } { maxDepth := some 2, allowFragmentVariables := true } =
      .ok d ∧ (Node.document d).equals (.document document) = true := by
  obtain ⟨d, returned⟩ := Run.exists_of_isOk (show (Document.parse Nested.query).isOk = true by decide +kernel)
  exact ⟨⟨d, returned, parses_exactly_well_formed.1 _ _ d returned⟩,
    parses_exactly_well_formed.2 document isWellFormed_document _ "GraphQL request" rfl (List.forall_mem_singleton.2 rfl)
      (by decide)⟩

end Crafted

end QueryPlanner
