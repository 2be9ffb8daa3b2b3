import QueryPlanner.Proofs.Operation.Choice
import QueryPlanner.Proofs.Operation.Unreached

namespace QueryPlanner

open Relation Run

variable {d : Document} {wanted : Option Text} {fragments : List (Placed Fragment)} {own : SelectionSet}

theorem prepare_expands {p : PreparedOperation} (prepared : d.prepare wanted = .ok p) :
    d.Selects wanted p.operation ∧
    (∀ set, p.operation.definition.selectionSet.Expands (definition? d.fragments) set ↔ set = p.selectionSet) ∧
    p.selectionSet.spreads = [] ∧
    (p.inlined = none ↔ p.operation.definition.selectionSet.spreads = []) ∧
    (p.selectionSet = p.operation.definition.selectionSet ↔ p.operation.definition.selectionSet.spreads = []) := by
  obtain ⟨selects, _, st, inlines⟩ := Document.of_prepare prepared
  have ends := inlineAll_ends d.fragments p.operation.definition.selectionSet
  rw [inlines] at ends
  obtain ⟨expands, same⟩ := ends
  have unique : ∀ set, p.operation.definition.selectionSet.Expands (definition? d.fragments) set ↔
      set = p.selectionSet :=
    fun set => ⟨fun other => other.unique expands, fun equal => equal ▸ expands⟩
  exact ⟨selects, unique, expands.spreads_eq_nil, same, expands.eq_self_iff⟩

namespace SharedFragment

def field (name : String) (selections : List Selection) : Selection :=
  .field ⟨none, { text := name }, [], none, [], if selections.isEmpty then none else some ⟨selections, none⟩, none⟩

def spread (name : String) : Selection := .spread { name := { text := name }, directives := [] }

def query (selections : List Selection) : Operation where
  type := .query
  name := none
  variableDefinitions := []
  directives := []
  selectionSet := ⟨selections, none⟩

def fragment (name : String) (selections : List Selection) : Definition :=
  .fragment ⟨{ text := name }, none, { name := { text := "T" } }, [], ⟨selections, none⟩, none⟩

def operation : Operation := query [field "a" [spread "A"], field "b" [spread "B", spread "A"]]

/-- `{ a { ...A } b { ...B ...A } } fragment B on T { c { ...A } } fragment A on T { x }` -/
def document : Document where
  definitions := [.operation operation, fragment "B" [field "c" [spread "A"]], fragment "A" [field "x" []]]

theorem expands : ∃ p, document.prepare none = .ok p ∧
    (∀ set, operation.selectionSet.Expands (definition? document.fragments) set ↔ set = p.selectionSet) ∧
    p.selectionSet.spreads = [] ∧ p.selectionSet ≠ operation.selectionSet := by
  obtain ⟨p, prepared⟩ := exists_of_isOk (show (document.prepare none).isOk = true by decide +kernel)
  obtain ⟨selects, unique, replaced, _, same⟩ := prepare_expands prepared
  obtain chosen : ⟨0, operation⟩ = p.operation := (List.cons.inj selects).1
  rw [← chosen] at unique same
  exact ⟨p, prepared, unique, replaced, mt same.1 (List.cons_ne_nil _ _)⟩

end SharedFragment

theorem inlineAll_ok_iff : (∃ r, Inliner.inlineAll fragments own = .ok r) ↔
    ∀ name, Reaches (definition? fragments) own name → (∃ f, definition? fragments name = some f) ∧
      ¬ TransGen (Spreads (definition? fragments)) name name := by
  have ends := inlineAll_ends fragments own
  constructor
  · rintro ⟨r, run⟩ name reaches
    rw [run] at ends
    obtain ⟨⟨f, _, found, _⟩, grounded⟩ := SelectionSet.Expands.reached ends.1 reaches
    exact ⟨⟨f, found⟩, grounded.not_cyclic⟩
  · intro sound
    cases run : Inliner.inlineAll fragments own with
    | ok r => exact ⟨r, rfl⟩
    | error e =>
        rw [run] at ends
        obtain ⟨name, reaches, undefined | cyclic⟩ := SpreadFault.exists_reached ends
        · obtain ⟨⟨f, found⟩, _⟩ := sound name reaches
          rw [undefined] at found
          contradiction
        · exact absurd cyclic (sound name reaches).2

theorem inlineAll_error_iff {fragments' : List (Placed Fragment)} (agree : ∀ name,
    Reaches (definition? fragments) own name → definition? fragments name = definition? fragments' name)
    {e : Diagnostic} : Inliner.inlineAll fragments own = .error e ↔ Inliner.inlineAll fragments' own = .error e :=
  (inlineAll_alike ⟨fun _ _ => id, agree⟩ (Nat.lt_succ_self _)).error_iff

section

variable {o : Placed Operation} (distinct : d.fragmentNames.Nodup) (selects : d.Selects wanted o)

include distinct selects

theorem Document.prepare_ok_iff :
    (∃ p, d.prepare wanted = .ok p) ↔ ∃ r, Inliner.inlineAll d.fragments o.definition.selectionSet = .ok r := by
  rw [prepare_eq distinct selects]
  cases Inliner.inlineAll d.fragments o.definition.selectionSet with
  | ok r => exact iff_of_true ⟨_, rfl⟩ ⟨r, rfl⟩
  | error => exact iff_of_false nofun nofun

theorem Document.prepare_error_iff {e : Diagnostic} :
    d.prepare wanted = .error e ↔ Inliner.inlineAll d.fragments o.definition.selectionSet = .error e := by
  rw [prepare_eq distinct selects]
  cases Inliner.inlineAll d.fragments o.definition.selectionSet with
  | ok => exact iff_of_false nofun nofun
  | error d => exact ⟨fun same => by rw [Except.error.inj same], fun same => by rw [Except.error.inj same]; rfl⟩

end

theorem prepare_ok_iff_acyclic {o : Placed Operation} (distinct : d.fragmentNames.Nodup) (selects : d.Selects wanted o) :
    -- More steps than fragments make no difference: replacing comes to an end by itself.
    (∀ fuel, d.fragments.length < fuel →
      StateT.run (o.definition.selectionSet.inlineWith (Inliner.inlineSpread d.fragments fuel [])) {} =
        Inliner.inlineAll d.fragments o.definition.selectionSet) ∧
    ((∃ p, d.prepare wanted = .ok p) ↔
      ∀ name, Reaches (definition? d.fragments) o.definition.selectionSet name →
        (∃ f, definition? d.fragments name = some f) ∧ ¬ TransGen (Spreads (definition? d.fragments)) name name) ∧
    (∀ e, d.prepare wanted = .error e → SpreadFault (definition? d.fragments) o.definition.selectionSet e) ∧
    -- Documents that define the reached fragments alike fail alike.
    ∀ (d' : Document) (wanted' : Option Text) (o' : Placed Operation),
      d'.fragmentNames.Nodup → d'.Selects wanted' o' →
      o'.definition.selectionSet = o.definition.selectionSet →
      (∀ name, Reaches (definition? d.fragments) o.definition.selectionSet name →
        definition? d.fragments name = definition? d'.fragments name) →
      ∀ e, d.prepare wanted = .error e ↔ d'.prepare wanted' = .error e := by
  refine ⟨fun fuel => inlineAll_of_fuel, ?_, ?_, ?_⟩
  · exact (Document.prepare_ok_iff distinct selects).trans inlineAll_ok_iff
  · intro e failed
    have ends := inlineAll_ends d.fragments o.definition.selectionSet
    rwa [(Document.prepare_error_iff distinct selects).1 failed] at ends
  · intro d' wanted' o' distinct' selects' same agree e
    rw [Document.prepare_error_iff distinct selects, Document.prepare_error_iff distinct' selects', same]
    exact inlineAll_error_iff agree

namespace ReturningSpread

open SharedFragment

def operation : Operation := query [field "a" [spread "A"], spread "B"]

/--
`{ a { ...A } ...B } fragment A on T { x } fragment B on T { ...A c { ...C } } fragment C on T { ...B }
fragment Unused on T { ...Missing }`
-/
def document : Document where
  definitions := [.operation operation, fragment "A" [field "x" []], fragment "B" [spread "A", field "c" [spread "C"]],
    fragment "C" [spread "B"], fragment "Unused" [spread "Missing"]]

theorem spread_fault : document.fragmentNames.Nodup ∧ document.Selects none ⟨0, operation⟩ ∧
    SpreadFault (definition? document.fragments) operation.selectionSet ⟨.cyclicFragment ["B", "C", "B"], {}⟩ := by
  have distinct : document.fragmentNames.Nodup := by decide
  have selects : document.Selects none ⟨0, operation⟩ := rfl
  obtain ⟨_, _, faults, _⟩ := prepare_ok_iff_acyclic distinct selects
  exact ⟨distinct, selects, faults _ rfl⟩

end ReturningSpread

end QueryPlanner
