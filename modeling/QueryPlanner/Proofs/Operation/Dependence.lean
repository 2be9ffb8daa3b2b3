import QueryPlanner.Proofs.Lookup
import QueryPlanner.Proofs.Operation.Preparation
import QueryPlanner.Proofs.Operation.Walk

namespace QueryPlanner

open Run

variable {d d' : Document} {wanted name : Text} {o : Placed Operation} {own : SelectionSet}

def Definition.operation? : Definition → Option Operation
  | .operation o => some o
  | .fragment _ => none

def Definition.fragment? : Definition → Option Fragment
  | .operation _ => none
  | .fragment f => some f

/-- An operation of another name, or of none, or a fragment that is not reached. -/
def Definition.IsAside (reached : Text → Prop) (wanted : Text) : Definition → Prop
  | .operation o => o.name.map (·.text) ≠ some wanted
  | .fragment f => ¬ reached f.name.text

def operationsNamed (wanted : Text) (definitions : List Definition) : List Operation :=
  (definitions.filterMap (·.operation?)).filter (·.name.map (·.text) = some wanted)

theorem operationsNamed_append (front back : List Definition) :
    operationsNamed wanted (front ++ back) = operationsNamed wanted front ++ operationsNamed wanted back := by
  rw [operationsNamed, List.filterMap_append, List.filter_append, operationsNamed, operationsNamed]

theorem operationsNamed_of_aside {reached : Text → Prop} {definitions : List Definition}
    (aside : ∀ definition ∈ definitions, definition.IsAside reached wanted) :
    operationsNamed wanted definitions = [] := by
  refine List.filter_eq_nil_iff.2 fun o member => ?_
  obtain ⟨definition, inside, same⟩ := List.mem_filterMap.1 member
  cases definition with
  | fragment => contradiction
  | operation =>
      obtain rfl := Option.some.inj same
      rw [decide_eq_true_eq]
      exact aside _ inside

theorem operationsNamed_perm {definitions definitions' : List Definition} (perm : definitions.Perm definitions')
    (wanted : Text) : (operationsNamed wanted definitions).Perm (operationsNamed wanted definitions') :=
  (perm.filterMap _).filter _

namespace Document

/-- The definitions are the same, in any order, up to some in either document that are aside. -/
def SameUpTo (aside : Definition → Prop) (d d' : Document) : Prop :=
  ∃ shared extra extra', d.definitions.Perm (shared ++ extra) ∧ d'.definitions.Perm (shared ++ extra') ∧
    ∀ definition ∈ extra ++ extra', aside definition

theorem map_placed : d.placed.map (·.definition) = d.definitions := by
  rw [placed, List.map_map]
  exact List.zipIdx_map_fst 0 d.definitions

theorem map_operations : d.operations.map (·.definition) = d.definitions.filterMap (·.operation?) := by
  rw [operations, List.map_filterMap, ← map_placed, List.filterMap_map]
  refine List.filterMap_congr fun placed _ => ?_
  obtain ⟨index, definition⟩ := placed
  cases definition <;> rfl

theorem map_fragments : d.fragments.map (·.definition) = d.definitions.filterMap (·.fragment?) := by
  rw [fragments, List.map_filterMap, ← map_placed, List.filterMap_map]
  refine List.filterMap_congr fun placed _ => ?_
  obtain ⟨index, definition⟩ := placed
  cases definition <;> rfl

theorem mem_fragments {f : Fragment} : f ∈ d.fragments.map (·.definition) ↔ .fragment f ∈ d.definitions := by
  rw [map_fragments, List.mem_filterMap]
  constructor
  · rintro ⟨definition, member, same⟩
    cases definition with
    | operation => contradiction
    | fragment => exact Option.some.inj same ▸ member
  · exact fun member => ⟨_, member, rfl⟩

theorem definition?_eq_some_iff (distinct : d.fragmentNames.Nodup) {f : Fragment} :
    definition? d.fragments name = some f ↔ .fragment f ∈ d.definitions ∧ f.name.text = name := by
  rw [← mem_fragments, definition?, Option.map_eq_some_iff]
  constructor
  · rintro ⟨placed, found, rfl⟩
    obtain ⟨inside, named⟩ := (find?_eq_some_iff_of_nodup distinct).1 found
    exact ⟨List.mem_map_of_mem inside, named⟩
  · rintro ⟨member, named⟩
    obtain ⟨placed, inside, rfl⟩ := List.mem_map.1 member
    exact ⟨placed, (find?_eq_some_iff_of_nodup distinct).2 ⟨inside, named⟩, rfl⟩

theorem map_operations_filter :
    (d.operations.filter (·.definition.name.map (·.text) = some wanted)).map (·.definition) =
      operationsNamed wanted d.definitions := by
  rw [operationsNamed, ← map_operations, List.filter_map]
  rfl

theorem operationsNamed_of_selects (once : (operationsNamed wanted d.definitions).length ≤ 1)
    (selects : d.Selects (some wanted) o) : operationsNamed wanted d.definitions = [o.definition] := by
  obtain ⟨before, split⟩ := List.getLast?_eq_some_iff.1 selects
  rw [← map_operations_filter, split, List.map_append] at once ⊢
  rw [List.length_append, List.map_singleton, List.length_singleton] at once
  rw [List.eq_nil_of_length_eq_zero (Nat.le_zero.1 (Nat.le_of_succ_le_succ once)), List.nil_append, List.map_singleton]

theorem exists_selects {definition : Operation} (alone : operationsNamed wanted d.definitions = [definition]) :
    ∃ o, d.Selects (some wanted) o ∧ o.definition = definition := by
  obtain ⟨o, alone, same⟩ := List.map_eq_singleton_iff.1 (map_operations_filter.trans alone)
  exact ⟨o, congrArg List.getLast? alone, same⟩

namespace SameUpTo

variable {reached : Text → Prop}

theorem operationsNamed_eq (same : d.SameUpTo (Definition.IsAside reached wanted) d') {definition : Operation}
    (alone : operationsNamed wanted d.definitions = [definition]) :
    operationsNamed wanted d'.definitions = [definition] := by
  obtain ⟨shared, extra, extra', perm, perm', aside⟩ := same
  obtain ⟨aside, aside'⟩ := List.forall_mem_append.1 aside
  have perm := operationsNamed_perm perm wanted
  have perm' := operationsNamed_perm perm' wanted
  rw [operationsNamed_append, operationsNamed_of_aside aside, List.append_nil] at perm
  rw [operationsNamed_append, operationsNamed_of_aside aside', List.append_nil] at perm'
  rw [← List.perm_singleton, ← alone]
  exact perm'.trans perm.symm

theorem definition?_eq (same : d.SameUpTo (Definition.IsAside reached wanted) d') (distinct : d.fragmentNames.Nodup)
    (distinct' : d'.fragmentNames.Nodup) (reaches : reached name) (defined : ∃ f, definition? d.fragments name = some f) :
    definition? d.fragments name = definition? d'.fragments name := by
  obtain ⟨shared, extra, extra', perm, perm', aside⟩ := same
  obtain ⟨f, found⟩ := defined
  obtain ⟨member, rfl⟩ := (definition?_eq_some_iff distinct).1 found
  rw [found, eq_comm, definition?_eq_some_iff distinct', perm'.mem_iff]
  refine ⟨List.mem_append_left _ ?_, rfl⟩
  obtain both | only := List.mem_append.1 (perm.mem_iff.1 member)
  · exact both
  · exact absurd reaches (aside _ (List.mem_append_left _ only))

end SameUpTo

end Document

theorem inlineAll_of_agree {fragments fragments' : List (Placed Fragment)} {inlined : Option SelectionSet}
    {st : Inlining} (agree : Agree (·.definition) own fragments fragments')
    (run : Inliner.inlineAll fragments own = .ok (inlined, st)) :
    ∃ st', Inliner.inlineAll fragments' own = .ok (inlined, st') ∧
      st'.used.map (·.definition) = st.used.map (·.definition) := by
  have alike := inlineAll_alike agree (Nat.lt_succ_self fragments'.length)
  rw [run, ← Inliner.inlineAll] at alike
  cases run' : Inliner.inlineAll fragments' own with
  | error =>
      rw [run'] at alike
      contradiction
  | ok r =>
      rw [run'] at alike
      obtain ⟨rfl, same⟩ := alike
      exact ⟨r.2, rfl, same.used.symm⟩

theorem Document.inlineAll_of_prepare {p : PreparedOperation} {wanted : Option Text}
    (prepared : d.prepare wanted = .ok p) : ∃ st,
      Inliner.inlineAll d.fragments p.operation.definition.selectionSet = .ok (p.inlined, st) ∧ p.fragments = st.used := by
  obtain ⟨selects, distinct, st, run⟩ := of_prepare prepared
  rw [prepare_eq distinct selects, run] at prepared
  exact ⟨st, run, congrArg (·.fragments) (Except.ok.inj prepared).symm⟩

theorem Document.SameUpTo.prepare {p : PreparedOperation} (once : (operationsNamed wanted d.definitions).length ≤ 1)
    (prepared : d.prepare (some wanted) = .ok p) (distinct' : d'.fragmentNames.Nodup)
    (same : d.SameUpTo (Definition.IsAside
      (Reaches (definition? d.fragments) p.operation.definition.selectionSet) wanted) d') :
    ∃ p', d'.prepare (some wanted) = .ok p' ∧ p'.operation.definition = p.operation.definition ∧
      p'.inlined = p.inlined ∧ p'.fragments.map (·.definition) = p.fragments.map (·.definition) := by
  obtain ⟨selects, distinct, -⟩ := of_prepare prepared
  obtain ⟨st, run, used⟩ := inlineAll_of_prepare prepared
  obtain ⟨o', selects', define⟩ := exists_selects (same.operationsNamed_eq (operationsNamed_of_selects once selects))
  have sound := inlineAll_ok_iff.1 ⟨_, run⟩
  obtain ⟨st', run', used'⟩ := inlineAll_of_agree
    ⟨fun _ _ => id, fun name reaches => same.definition?_eq distinct distinct' reaches (sound name reaches).1⟩ run
  rw [prepare_eq distinct' selects', define, run']
  exact ⟨_, rfl, define, rfl, by rw [used, used']⟩

theorem prepare_depends_on_reached {p : PreparedOperation} (once : (operationsNamed wanted d.definitions).length ≤ 1)
    (prepared : d.prepare (some wanted) = .ok p) :
    (∀ d' : Document, d'.fragmentNames.Nodup → d.SameUpTo (Definition.IsAside
        (Reaches (definition? d.fragments) p.operation.definition.selectionSet) wanted) d' →
      ∃ p', d'.prepare (some wanted) = .ok p' ∧ p'.name = p.name ∧ p'.type = p.type ∧
        p'.variableDefinitions = p.variableDefinitions ∧ p'.selectionSet = p.selectionSet ∧
        p'.fragments.map (·.definition) = p.fragments.map (·.definition)) ∧
    -- The fragments are those reached, each with its definition and once,
    p.fragmentNames.Nodup ∧
    (∀ name, name ∈ p.fragmentNames ↔ Reaches (definition? d.fragments) p.operation.definition.selectionSet name) ∧
    (∀ f ∈ p.fragments, definition? d.fragments f.definition.name.text = some f.definition) ∧
    -- in the order of the walk that goes into each of them at its first spread.
    (∀ names, Walks (definition? d.fragments) [] p.operation.definition.selectionSet.spreads names ↔
      names = p.fragmentNames) := by
  refine ⟨fun d' distinct' same => ?_, ?_⟩
  · obtain ⟨p', prepared', define, inlined, fragments⟩ := same.prepare once prepared distinct'
    refine ⟨p', prepared', ?_, ?_, ?_, ?_, fragments⟩
    · rw [PreparedOperation.name, define, PreparedOperation.name]
    · rw [PreparedOperation.type, define, PreparedOperation.type]
    · rw [PreparedOperation.variableDefinitions, define, PreparedOperation.variableDefinitions]
    · rw [PreparedOperation.selectionSet, define, inlined, PreparedOperation.selectionSet]
  · obtain ⟨st, run, used⟩ := Document.inlineAll_of_prepare prepared
    obtain ⟨accounts, walk⟩ := inlineAll_walks run
    have names : p.fragmentNames = st.names := by rw [PreparedOperation.fragmentNames, used, Inlining.names]
    rw [names, used]
    refine ⟨walk.distinct .nil, fun _ => walk.mem_iff_reaches, accounts.defined, fun _ => ⟨?_, ?_⟩⟩
    · exact fun other => other.unique walk
    · rintro rfl
      exact walk

namespace ReorderedDefinitions

open SharedFragment

def operation : Operation := { query [field "a" [spread "B"], spread "A"] with name := some { text := "Q" } }

def shared : List Definition := [fragment "A" [field "x" []], .operation operation, fragment "B" [spread "A"]]

def unused : List Definition := [.operation (query [field "y" []]), fragment "Unused" [spread "Q"]]

/-- `fragment A on T { x } query Q { a { ...B } ...A } fragment B on T { ...A } { y } fragment Unused on T { ...Q }` -/
def document : Document where
  definitions := shared ++ unused

/-- `fragment B on T { ...A } query Q { a { ...B } ...A } fragment A on T { x }` -/
def other : Document where
  definitions := shared.reverse

theorem prepares_alike : ∃ p p', document.prepare (some "Q") = .ok p ∧ other.prepare (some "Q") = .ok p' ∧
    p'.selectionSet = p.selectionSet ∧ p.fragmentNames = ["B", "A"] := by
  have once : (operationsNamed "Q" document.definitions).length ≤ 1 := by decide
  obtain ⟨p, prepared⟩ := exists_of_isOk (show (document.prepare (some "Q")).isOk = true by decide +kernel)
  obtain ⟨alike, _, reached, _, walked⟩ := prepare_depends_on_reached once prepared
  have selected : p.operation.definition = operation :=
    (List.cons.inj (Document.operationsNamed_of_selects once (Document.of_prepare prepared).1)).1.symm
  rw [selected] at alike reached walked
  have walk : Walks (definition? document.fragments) [] operation.selectionSet.spreads ["B", "A"] := by
    exact .enter (by decide) rfl (.enter (by decide) rfl .nil .nil) (.again (by decide) .nil)
  have names := (walked _).1 walk
  have aside : ∀ definition ∈ unused ++ [], definition.IsAside
      (Reaches (definition? document.fragments) operation.selectionSet) "Q" := by
    refine List.forall_mem_cons.2 ⟨nofun, List.forall_mem_singleton.2 (mt (reached "Unused").2 ?_)⟩
    rw [← names]
    decide
  have perm : other.definitions.Perm (shared ++ []) := by
    rw [List.append_nil]
    exact shared.reverse_perm
  obtain ⟨p', prepared', _, _, _, same, _⟩ := alike other (by decide) ⟨shared, unused, [], .refl _, perm, aside⟩
  exact ⟨p, p', prepared, prepared', same, names.symm⟩

end ReorderedDefinitions

end QueryPlanner
