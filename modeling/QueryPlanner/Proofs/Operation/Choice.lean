import QueryPlanner.Proofs.Operation.Expansion
import QueryPlanner.Proofs.Run
import Mathlib.Data.List.Nodup

namespace QueryPlanner

open Run

def Placed.operation? : Placed Definition → Option (Placed Operation)
  | ⟨index, .operation o⟩ => some ⟨index, o⟩
  | ⟨_, .fragment _⟩ => none

def Placed.fragment? : Placed Definition → Option (Placed Fragment)
  | ⟨_, .operation _⟩ => none
  | ⟨index, .fragment f⟩ => some ⟨index, f⟩

def Document.operations (d : Document) : List (Placed Operation) := d.placed.filterMap (·.operation?)

def Document.fragments (d : Document) : List (Placed Fragment) := d.placed.filterMap (·.fragment?)

def Document.fragmentNames (d : Document) : List Text := d.fragments.map (·.definition.name.text)

/-- The only operation if no name is wanted, else the last one of the name. -/
def Chosen (operations : List (Placed Operation)) (chosen : Option (Placed Operation)) : Option Text → Prop
  | none => operations = chosen.toList
  | some name => (operations.filter (·.definition.name.map (·.text) = some name)).getLast? = chosen

theorem Chosen.unique {operations : List (Placed Operation)} {chosen chosen' : Option (Placed Operation)}
    {wanted : Option Text} (first : Chosen operations chosen wanted) (second : Chosen operations chosen' wanted) :
    chosen = chosen' := by
  cases wanted with
  | none =>
      have same := congrArg List.head? (Eq.trans first.symm second)
      rwa [Option.head?_toList, Option.head?_toList] at same
  | some name => exact Eq.trans first.symm second

def Document.Selects (d : Document) (wanted : Option Text) (o : Placed Operation) : Prop :=
  Chosen d.operations (some o) wanted

namespace Choice

variable {wanted : Option Text} {c c' : Choice} {operations : List (Placed Operation)} {o : Placed Operation}
  {f : Placed Fragment}

theorem addOperation_ok (chosen : Chosen operations c.operation wanted) (run : c.addOperation wanted o = .ok c') :
    Chosen (operations ++ [o]) c'.operation wanted ∧ c'.fragments = c.fragments := by
  cases wanted with
  | none =>
      simp only [addOperation] at run
      split at run
      case isTrue => contradiction
      case isFalse empty =>
        obtain rfl := Except.ok.inj run
        rw [Option.not_isSome_iff_eq_none] at empty
        rw [empty] at chosen
        obtain rfl : operations = [] := chosen
        exact ⟨rfl, rfl⟩
  | some name =>
      obtain rfl := Except.ok.inj run
      simp only [Chosen] at chosen ⊢
      rw [List.filter_append]
      split
      case isTrue named =>
        simp only [List.filter_cons, named, decide_true, if_true, List.filter_nil]
        exact ⟨List.getLast?_concat, trivial⟩
      case isFalse named =>
        simp only [List.filter_cons, named, decide_false, Bool.false_eq_true, if_false, List.filter_nil]
        rw [List.append_nil]
        exact ⟨chosen, trivial⟩

theorem addOperation_returns (chosen : Chosen operations c.operation wanted) (only : wanted = none → operations = []) :
    ∃ c', c.addOperation wanted o = .ok c' := by
  cases wanted with
  | none =>
      rw [only rfl] at chosen
      obtain empty : c.operation = none := Option.toList_eq_nil_iff.1 chosen.symm
      exact ⟨_, by rw [addOperation, empty]; rfl⟩
  | some name => exact ⟨_, rfl⟩

theorem addFragment_ok_iff :
    c.addFragment f = .ok c' ↔ f.definition.name.text ∉ c.fragments.map (·.definition.name.text) ∧
      c' = { c with fragments := c.fragments ++ [f] } := by
  simp only [addFragment]
  rw [← findFragment?_isSome]
  split
  case isTrue known => exact iff_of_false nofun fun absent => absent.1 known
  case isFalse absent => exact ⟨fun run => ⟨absent, (Except.ok.inj run).symm⟩, by rintro ⟨_, rfl⟩; rfl⟩

structure Met (wanted : Option Text) (definitions : List (Placed Definition)) (c : Choice) : Prop where
  chosen : Chosen (definitions.filterMap (·.operation?)) c.operation wanted
  fragments : c.fragments = definitions.filterMap (·.fragment?)
  distinct : (c.fragments.map (·.definition.name.text)).Nodup

theorem Met.add {definitions : List (Placed Definition)} {d : Placed Definition} (met : Met wanted definitions c)
    (run : c.add wanted d = .ok c') : Met wanted (definitions ++ [d]) c' := by
  obtain ⟨index, o | f⟩ := d
  · obtain ⟨chosen, same⟩ := addOperation_ok met.chosen run
    refine ⟨?_, ?_, same ▸ met.distinct⟩
    · rwa [List.filterMap_append]
    · rw [List.filterMap_append, same, met.fragments]
      exact (List.append_nil _).symm
  · obtain ⟨absent, rfl⟩ := addFragment_ok_iff.1 run
    refine ⟨?_, ?_, ?_⟩
    · rw [List.filterMap_append]
      exact (List.append_nil (definitions.filterMap _)).symm ▸ met.chosen
    · rw [List.filterMap_append, met.fragments]
      rfl
    · rw [List.map_append]
      exact List.concat_eq_append ▸ met.distinct.concat absent

theorem Met.returns {front back : List (Placed Definition)} {d : Placed Definition} (met : Met wanted front c)
    (only : wanted = none → ((front ++ d :: back).filterMap (·.operation?)).length ≤ 1)
    (distinct : (((front ++ d :: back).filterMap (·.fragment?)).map (·.definition.name.text)).Nodup) :
    ∃ c', c.add wanted d = .ok c' := by
  obtain ⟨index, o | f⟩ := d
  · refine addOperation_returns met.chosen fun none => List.eq_nil_of_length_eq_zero ?_
    have bound := only none
    rw [List.filterMap_append, List.length_append] at bound
    change _ + (_ + 1) ≤ 1 at bound
    omega
  · refine ⟨_, addFragment_ok_iff.2 ⟨fun member => ?_, rfl⟩⟩
    rw [List.filterMap_append, List.map_append, ← met.fragments] at distinct
    exact List.disjoint_of_nodup_append distinct member List.mem_cons_self

end Choice

namespace Document

variable {d : Document} {wanted : Option Text}

theorem met_nil : Choice.Met wanted [] {} := ⟨by cases wanted <;> rfl, rfl, List.nodup_nil⟩

theorem met_of_choice {c : Choice} (run : d.placed.foldlM (Choice.add wanted) {} = .ok c) :
    Choice.Met wanted d.placed c :=
  foldlM_ok (Choice.Met wanted) (fun _ _ _ _ => .add) met_nil run

theorem exists_choice {o : Placed Operation} (distinct : d.fragmentNames.Nodup)
    (selects : d.Selects wanted o) : ∃ c, d.placed.foldlM (Choice.add wanted) {} = .ok c := by
  have only : wanted = none → d.operations.length ≤ 1 := by
    rintro rfl
    exact Nat.le_of_eq (congrArg List.length selects)
  refine exists_foldlM_ok (Choice.Met wanted) (fun _ _ _ _ => .add) (fun front _ back _ split met => ?_) met_nil
  replace split : d.placed = front ++ _ :: back := split
  rw [operations, split] at only
  rw [fragmentNames, Document.fragments, split] at distinct
  exact met.returns only distinct

theorem of_prepare {p : PreparedOperation} (prepared : d.prepare wanted = .ok p) :
    d.Selects wanted p.operation ∧ d.fragmentNames.Nodup ∧
      ∃ st, Inliner.inlineAll d.fragments p.operation.definition.selectionSet = .ok (p.inlined, st) := by
  obtain ⟨c, run, rest⟩ := except_bind_ok.1 prepared
  obtain ⟨selects, fragments, distinct⟩ := met_of_choice run
  split at rest
  case h_1 => contradiction
  case h_2 o chosen =>
    obtain ⟨⟨inlined, st⟩, inlines, rest⟩ := except_bind_ok.1 rest
    obtain rfl := Except.ok.inj rest
    rw [fragments] at inlines distinct
    rw [chosen] at selects
    exact ⟨selects, distinct, st, inlines⟩

theorem prepare_eq {o : Placed Operation} (distinct : d.fragmentNames.Nodup)
    (selects : d.Selects wanted o) :
    d.prepare wanted = (Inliner.inlineAll d.fragments o.definition.selectionSet).map fun r =>
      { document := d, operation := o, fragments := r.2.used, inlined := r.1 } := by
  obtain ⟨⟨operation, met⟩, run⟩ := exists_choice distinct selects
  obtain ⟨chosen, fragments, -⟩ := met_of_choice run
  obtain rfl : operation = some o := chosen.unique selects
  obtain rfl : met = d.fragments := fragments
  change (d.placed.foldlM (Choice.add wanted) {} >>= _) = _
  rw [run]
  change (Inliner.inlineAll d.fragments o.definition.selectionSet >>= _) = _
  cases Inliner.inlineAll d.fragments o.definition.selectionSet <;> rfl

end Document

end QueryPlanner
