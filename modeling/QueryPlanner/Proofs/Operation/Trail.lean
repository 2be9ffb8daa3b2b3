import QueryPlanner.Proofs.Operation.Expansion
import Mathlib.Data.List.Chain
import Mathlib.Data.List.Nodup

/-!
# Trails

The ways into fragments along their spreads, as the inliner goes them: each trail is a list of different names,
outermost first, and the selection set come to. What the inliner refuses at the end of a trail is a cycle of reached
fragments or the spread of an undefined one.
-/

namespace QueryPlanner

open Relation

variable {fragment? : Text → Option Fragment} {own set : SelectionSet} {path : List Text} {s : FragmentSpread}

inductive Trail (fragment? : Text → Option Fragment) (own : SelectionSet) : List Text → SelectionSet → Prop
  | start : Trail fragment? own [] own
  | enter {path : List Text} {set : SelectionSet} {s : FragmentSpread} {f : Fragment} : Trail fragment? own path set →
      s ∈ set.spreads → s.name.text ∉ path → fragment? s.name.text = some f →
      Trail fragment? own (path ++ [s.name.text]) f.selectionSet

namespace Trail

theorem reaches (trail : Trail fragment? own path set) (member : s ∈ set.spreads) :
    Reaches fragment? own s.name.text := by
  induction trail generalizing s with
  | start => exact .direct member
  | enter _ outside _ found ih => exact .step (ih outside) ⟨_, found, s, member, rfl⟩

theorem distinct (trail : Trail fragment? own path set) : path.Nodup := by
  induction trail with
  | start => exact .nil
  | enter _ _ offPath _ ih => exact List.concat_eq_append ▸ ih.concat offPath

theorem reached (trail : Trail fragment? own path set) : ∀ name ∈ path, Reaches fragment? own name := by
  induction trail with
  | start => nofun
  | enter outer outside _ _ ih =>
      exact List.forall_mem_append.2 ⟨ih, List.forall_mem_singleton.2 (outer.reaches outside)⟩

theorem defined (trail : Trail fragment? own path set) : ∀ name ∈ path, (fragment? name).isSome := by
  induction trail with
  | start => nofun
  | enter _ _ _ found ih => exact List.forall_mem_append.2 ⟨ih, List.forall_mem_singleton.2 (by rw [found]; rfl)⟩

theorem innermost (trail : Trail fragment? own path set) :
    path = [] ∧ set = own ∨
      ∃ last f, path.getLast? = some last ∧ fragment? last = some f ∧ set = f.selectionSet := by
  cases trail with
  | start => exact .inl ⟨rfl, rfl⟩
  | enter _ _ _ found => exact .inr ⟨_, _, List.getLast?_concat, found, rfl⟩

theorem chained (trail : Trail fragment? own path set) (member : s ∈ set.spreads) :
    (path ++ [s.name.text]).IsChain (Spreads fragment?) := by
  induction trail generalizing s with
  | start => exact .singleton _
  | @enter path _ outer f _ outside _ found ih =>
      refine List.isChain_append.2 ⟨ih outside, .singleton _, ?_⟩
      simp only [List.getLast?_concat, List.head?_cons, Option.mem_some_iff]
      rintro _ rfl _ rfl
      exact ⟨f, found, s, member, rfl⟩

end Trail

def refusal? (fragment? : Text → Option Fragment) (path : List Text) (s : FragmentSpread) : Option Diagnostic :=
  if path.contains s.name.text then some ⟨.cyclicFragment (Inliner.cycleOf path s.name.text), .ofLocation? s.loc⟩
  else if (fragment? s.name.text).isNone then some ⟨.fragmentNotFound s.name.text, .ofLocation? s.loc⟩
  else none

theorem refusal?_eq_none_iff :
    refusal? fragment? path s = none ↔ s.name.text ∉ path ∧ (fragment? s.name.text).isSome := by
  unfold refusal?
  split <;> cases fragment? s.name.text <;> simp_all

theorem find?_of_refused {spreads : List FragmentSpread} {d : Diagnostic}
    (found : spreads.findSome? (refusal? fragment? path) = some d) :
    ∃ s, spreads.find? (·.name.text = s.name.text) = some s ∧ refusal? fragment? path s = some d := by
  obtain ⟨before, s, after, rfl, refused, earlier⟩ := List.findSome?_eq_some_iff.1 found
  refine ⟨s, List.find?_eq_some_iff_append.2 ⟨decide_eq_true rfl, before, after, rfl, fun s' member => ?_⟩, refused⟩
  have replaced := refusal?_eq_none_iff.1 (earlier s' member)
  suffices s'.name.text ≠ s.name.text by simpa
  intro same
  rw [same, ← refusal?_eq_none_iff, refused] at replaced
  contradiction

def Refuses (fragment? : Text → Option Fragment) (own : SelectionSet) (d : Diagnostic) : Prop :=
  ∃ path set, Trail fragment? own path set ∧ set.spreads.findSome? (refusal? fragment? path) = some d

/-- Fragments that each spread the next, and the spread in the last of them that comes back to the first. -/
structure IsCycle (fragment? : Text → Option Fragment) (own : SelectionSet) (first : Text) (others : List Text)
    (closing : FragmentSpread) : Prop where
  distinct : (first :: others).Nodup
  reached : ∀ name ∈ first :: others, Reaches fragment? own name
  chained : (first :: others ++ [first]).IsChain (Spreads fragment?)
  closed : ∃ last f, (first :: others).getLast? = some last ∧ fragment? last = some f ∧
    f.selectionSet.spreads.find? (·.name.text = first) = some closing

theorem IsCycle.transGen {first : Text} {others : List Text} {closing : FragmentSpread}
    (cycle : IsCycle fragment? own first others closing) : TransGen (Spreads fragment?) first first := by
  have chain := List.isChain_iff_pairwise.1 (cycle.chained.imp fun _ _ spreads => TransGen.single spreads)
  exact List.rel_of_pairwise_cons chain (List.mem_append_right _ (List.mem_singleton_self first))

inductive SpreadFault (fragment? : Text → Option Fragment) (own : SelectionSet) : Diagnostic → Prop
  | cyclic {first : Text} {others : List Text} {closing : FragmentSpread} :
      IsCycle fragment? own first others closing →
      SpreadFault fragment? own ⟨.cyclicFragment (first :: others ++ [first]), .ofLocation? closing.loc⟩
  | dangling {set : SelectionSet} {s : FragmentSpread} :
      set = own ∨ (∃ outer f, Reaches fragment? own outer ∧ fragment? outer = some f ∧ set = f.selectionSet) →
      set.spreads.find? (·.name.text = s.name.text) = some s → fragment? s.name.text = none →
      SpreadFault fragment? own ⟨.fragmentNotFound s.name.text, .ofLocation? s.loc⟩

theorem cycleOf_of_mem {name : Text} (member : name ∈ path) :
    ∃ before others, path = before ++ name :: others ∧ Inliner.cycleOf path name = name :: others ++ [name] := by
  obtain ⟨before, others, rfl, absent⟩ := List.eq_append_cons_of_mem member
  refine ⟨before, others, rfl, ?_⟩
  rw [Inliner.cycleOf, List.dropWhile_append_of_pos, List.dropWhile_cons_of_neg] <;> grind

namespace Trail

theorem cycle (trail : Trail fragment? own path set) (onPath : s.name.text ∈ path)
    (first : set.spreads.find? (·.name.text = s.name.text) = some s) :
    ∃ others, Inliner.cycleOf path s.name.text = s.name.text :: others ++ [s.name.text] ∧
      IsCycle fragment? own s.name.text others s := by
  obtain ⟨before, others, rfl, same⟩ := cycleOf_of_mem onPath
  have chain := trail.chained (List.mem_of_find?_eq_some first)
  rw [List.append_assoc] at chain
  refine ⟨others, same, ?_, ?_, chain.right_of_append, ?_⟩
  · exact trail.distinct.of_append_right
  · exact fun name member => trail.reached name (List.mem_append_right _ member)
  · obtain ⟨empty, _⟩ | ⟨last, f, final, found, rfl⟩ := trail.innermost
    · simp at empty
    · exact ⟨last, f, by simpa using final, found, first⟩

end Trail

theorem Refuses.fault {d : Diagnostic} (refuses : Refuses fragment? own d) : SpreadFault fragment? own d := by
  obtain ⟨path, set, trail, stopped⟩ := refuses
  obtain ⟨s, first, refused⟩ := find?_of_refused stopped
  unfold refusal? at refused
  split at refused
  case isTrue onPath =>
    obtain ⟨others, same, cycle⟩ := trail.cycle (List.contains_iff_mem.1 onPath) first
    obtain rfl := Option.some.inj refused
    rw [same]
    exact .cyclic cycle
  case isFalse =>
    split at refused
    case isFalse => contradiction
    case isTrue undefined =>
      obtain rfl := Option.some.inj refused
      refine .dangling ?_ first (Option.isNone_iff_eq_none.1 undefined)
      obtain ⟨_, rfl⟩ | ⟨last, f, final, found, rfl⟩ := trail.innermost
      · exact .inl rfl
      · exact .inr ⟨last, f, trail.reached last (List.mem_of_getLast? final), found, rfl⟩

theorem SpreadFault.exists_reached {d : Diagnostic} (fault : SpreadFault fragment? own d) :
    ∃ name, Reaches fragment? own name ∧ (fragment? name = none ∨ TransGen (Spreads fragment?) name name) := by
  cases fault with
  | cyclic cycle => exact ⟨_, cycle.reached _ List.mem_cons_self, .inr cycle.transGen⟩
  | @dangling set s outer first undefined =>
      have member := List.mem_of_find?_eq_some first
      refine ⟨s.name.text, ?_, .inl undefined⟩
      obtain rfl | ⟨outer, f, reaches, found, rfl⟩ := outer
      · exact .direct member
      · exact .step reaches ⟨f, found, s, member, rfl⟩

end QueryPlanner
