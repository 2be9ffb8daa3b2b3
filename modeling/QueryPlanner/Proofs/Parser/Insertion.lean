import QueryPlanner.Proofs.Token.Insertion
import QueryPlanner.Proofs.Document.RoundTrip

namespace QueryPlanner
open QueryPlanner.Parser

variable {α : Type}

inductive ReadAlike (node : α → Node) : Except Diagnostic α → Except Diagnostic α → Prop
  | faults (d d' : Diagnostic) : ReadAlike node (.error d) (.error d')
  | parts {a b : α} : (node a).equals (node b) = true → ReadAlike node (.ok a) (.ok b)

theorem ReadAlike.of_accepts {node : α → Node} (bare : α → α) {x y : Except Diagnostic α}
    (same : ∀ a b, bare a = bare b → (node a).equals (node b) = true)
    (accepts : ∀ tree, (∃ made, x = .ok made ∧ bare made = tree) ↔ ∃ made, y = .ok made ∧ bare made = tree) :
    ReadAlike node x y := by
  cases x with
  | ok a =>
      obtain ⟨b, rfl, equal⟩ := (accepts (bare a)).1 ⟨a, rfl, rfl⟩
      exact .parts (same a b equal.symm)
  | error d =>
      cases y with
      | error d' => exact .faults d d'
      | ok b =>
          obtain ⟨a, returned, -⟩ := (accepts (bare b)).2 ⟨b, rfl, rfl⟩
          contradiction

theorem parsers_read_alike {source source' : Source} (lexemes : source'.lexemes = source.lexemes) (o : ParseOptions) :
    ReadAlike Node.document (Document.parse source o) (Document.parse source' o) ∧
    ReadAlike Node.value (Value.parse source o) (Value.parse source' o) ∧
    ReadAlike Node.type (TypeRef.parse source o) (TypeRef.parse source' o) := by
  refine ⟨.of_accepts Document.bare (fun a b equal => ?_) fun tree => ?_,
    .of_accepts Value.bare (fun a b equal => ?_) fun tree => ?_,
    .of_accepts TypeRef.bare (fun a b equal => ?_) fun tree => ?_⟩
  · exact a.toTree_hasBare.equals (equal ▸ b.toTree_hasBare)
  · rw [Document.parse, Document.parse, document_accepts_iff, document_accepts_iff, lexemes]
  · exact a.toTree_hasBare.equals (equal ▸ b.toTree_hasBare)
  · rw [Value.accepts_iff, Value.accepts_iff, lexemes]
  · exact a.toTree_hasBare.equals (equal ▸ b.toTree_hasBare)
  · rw [TypeRef.accepts_iff, TypeRef.accepts_iff, lexemes]

/-- Filler that is inserted where tokens start or end changes neither the tokens nor what parsers make of them. -/
theorem filler_is_insignificant (source : Source) (tokens : List Token) (read : source.tokens = .ok tokens)
    (added : Nat → Text) (apart : Token.SetApart added tokens) :
    (∃ tokens', (source.insert added).tokens = .ok tokens' ∧
      tokens'.map (fun t => (t.kind, t.value)) = tokens.map fun t => (t.kind, t.value)) ∧
    ∀ o, ReadAlike Node.document (Document.parse source o) (Document.parse (source.insert added) o) ∧
      ReadAlike Node.value (Value.parse source o) (Value.parse (source.insert added) o) ∧
      ReadAlike Node.type (TypeRef.parse source o) (TypeRef.parse (source.insert added) o) :=
  ⟨Source.tokens_insert read apart, parsers_read_alike (Source.lexemes_insert read apart)⟩

namespace TightQuery

def source : Source := { body := "\x7ba(b:-1.5,c:\"\")\r\x7d#x" }

def tokens : List Token := source.tokens.toOption.getD []

def added (offset : Nat) : Text :=
  if offset = 9 then [0x23, 0x0d, 0x0a]
  else if offset = 16 then [0x0a]
  else if offset = 19 then [0x2c, 0x23, 0x79, 0x0a]
  else []

theorem setApart : Token.SetApart added tokens where
  filler offset := by
    unfold added
    split_ifs
    · exact .comment ⟨[], rfl, rfl, List.forall_mem_nil _⟩ rfl (.unit (.inl rfl) .nil)
    · exact .unit (.inl rfl) .nil
    · exact .unit (.inr rfl) (.comment ⟨[0x79], rfl, rfl, .of_all rfl⟩ rfl .nil)
    · exact .nil
  between offset _ some := by
    unfold added at some
    split_ifs at some with number brace last
    · rw [number]
      decide +kernel
    · rw [brace]
      decide +kernel
    · rw [last]
      decide +kernel
    · contradiction

theorem keeps_tokens_and_parts :
    (∃ tokens', (source.insert added).tokens = .ok tokens' ∧
      tokens'.map (fun t => (t.kind, t.value)) = tokens.map fun t => (t.kind, t.value)) ∧
    ∃ d d', Document.parse source = .ok d ∧ Document.parse (source.insert added) = .ok d' ∧
      (Node.document d).equals (.document d') = true := by
  obtain ⟨found, read⟩ := Run.exists_of_isOk (show source.tokens.isOk = true by decide +kernel)
  have read : source.tokens = .ok tokens := by rw [tokens, read]; rfl
  obtain ⟨d, returned⟩ := Run.exists_of_isOk (show (Document.parse source).isOk = true by decide +kernel)
  obtain ⟨same, agree⟩ := filler_is_insignificant source tokens read added setApart
  have agree := (agree {}).1
  rw [returned] at agree
  generalize Document.parse (source.insert added) = result at agree ⊢
  cases agree with
  | @parts _ d' equal => exact ⟨same, d, d', returned, rfl, equal⟩

end TightQuery

end QueryPlanner
