import QueryPlanner.Proofs.Operation.Trail
import QueryPlanner.Proofs.Run
import Mathlib.Data.List.Perm.Subperm

namespace QueryPlanner

open Run

variable {fragment? : Text → Option Fragment} {refuse : FragmentSpread → Option Diagnostic}
  {deeper : Diagnostic → Prop} {α β : Type}

def Inlining.Sound (fragment? : Text → Option Fragment) (s : Inlining) : Prop :=
  ∀ name set, s.inlined.lookup name = some set → ∃ f, fragment? name = some f ∧ f.selectionSet.Expands fragment? set

/-- Spreads are replaced one after the other up to the first that is refused, if nothing fails deeper. -/
def Replaces (fragment? : Text → Option Fragment) (refuse : FragmentSpread → Option Diagnostic)
    (deeper : Diagnostic → Prop) (spreads : List FragmentSpread) (expands : α → Prop) (p : Inliner α) : Prop :=
  ∀ s : Inlining, s.Sound fragment? →
    Ends (fun a s' => s'.Sound fragment? ∧ spreads.findSome? refuse = none ∧ expands a)
      (fun d => spreads.findSome? refuse = some d ∨ deeper d) (p.run s)

namespace Replaces

theorem pure {expands : α → Prop} {a : α} (holds : expands a) :
    Replaces fragment? refuse deeper [] expands (Pure.pure a) :=
  fun _ sound => ⟨sound, rfl, holds⟩

theorem bind {front back : List FragmentSpread} {expands : α → Prop} {expands' : β → Prop} {p : Inliner α}
    {f : α → Inliner β} (first : Replaces fragment? refuse deeper front expands p)
    (next : ∀ a, expands a → Replaces fragment? refuse deeper back expands' (f a)) :
    Replaces fragment? refuse deeper (front ++ back) expands' (p >>= f) := by
  intro s sound
  rw [List.findSome?_append]
  refine (first s sound).bind (fun d failed => failed.imp_left fun refused => by rw [refused]; rfl) ?_
  rintro a s' ⟨sound', none, holds⟩
  rw [none]
  exact next a holds s' sound'

theorem map {spreads : List FragmentSpread} {expands : α → Prop} {expands' : β → Prop} {p : Inliner α} {f : α → β}
    (replaces : Replaces fragment? refuse deeper spreads expands p) (next : ∀ a, expands a → expands' (f a)) :
    Replaces fragment? refuse deeper spreads expands' (do return f (← p)) := by
  rw [← List.append_nil spreads]
  exact replaces.bind fun a holds => .pure (next a holds)

end Replaces

def Replaced (spreads : List FragmentSpread) (expands : α → Prop) (own : α) (r : Option α) : Prop :=
  expands (r.getD own) ∧ (r = none ↔ spreads = [])

theorem Replaced.map {spreads : List FragmentSpread} {expands : α → Prop} {expands' : β → Prop} {own : α}
    {r : Option α} {f : α → β} (replaced : Replaced spreads expands own r) (holds : ∀ a, expands a → expands' (f a)) :
    Replaced spreads expands' (f own) (r.map f) := by
  refine ⟨?_, Option.map_eq_none_iff.trans replaced.2⟩
  rw [Option.getD_map]
  exact holds _ replaced.1

def ReplacesEach (fragment? : Text → Option Fragment) (refuse : FragmentSpread → Option Diagnostic)
    (deeper : Diagnostic → Prop) (spreads : List FragmentSpread) (spread : FragmentSpread → Inliner InlineFragment) :
    Prop :=
  ∀ s ∈ spreads, Replaces fragment? refuse deeper [s]
    (fun inline => (Selection.spread s).Expands fragment? (.inline inline)) (spread s)

section Traversal

variable {spread : FragmentSpread → Inliner InlineFragment}

mutual

theorem SelectionSet.inlineWith_replaces : (set : SelectionSet) →
    ReplacesEach fragment? refuse deeper set.spreads spread →
    Replaces fragment? refuse deeper set.spreads (Replaced set.spreads (set.Expands fragment?) set)
      (set.inlineWith spread)
  | ⟨selections, _⟩ => fun each => by
      unfold SelectionSet.inlineWith
      exact (inlineSelections_replaces selections each).map fun _ replaced => replaced.map fun _ => .intro

theorem Selection.inlineWith_replaces : (selection : Selection) →
    ReplacesEach fragment? refuse deeper selection.spreads spread →
    Replaces fragment? refuse deeper selection.spreads
      (Replaced selection.spreads (selection.Expands fragment?) selection) (selection.inlineWith spread)
  | .field ⟨_, _, _, _, _, none, _⟩ => fun _ => .pure ⟨.leaf, iff_of_true rfl rfl⟩
  | .field ⟨_, _, _, _, _, some set, _⟩ => fun each => by
      unfold Selection.inlineWith
      exact (set.inlineWith_replaces each).map fun _ replaced => replaced.map fun _ => .field
  | .inline ⟨_, _, set, _⟩ => fun each => by
      unfold Selection.inlineWith
      exact (set.inlineWith_replaces each).map fun _ replaced => replaced.map fun _ => .inline
  | .spread s => fun each => by
      unfold Selection.inlineWith
      exact (each s (List.mem_singleton_self s)).map fun _ expands => ⟨expands, iff_of_false nofun nofun⟩

theorem inlineSelections_replaces : (selections : List Selection) →
    ReplacesEach fragment? refuse deeper (spreadsIn selections) spread →
    Replaces fragment? refuse deeper (spreadsIn selections)
      (Replaced (spreadsIn selections) (ExpandsAll fragment? selections) selections)
      (inlineSelections spread selections)
  | [] => fun _ => .pure ⟨.nil, iff_of_true rfl rfl⟩
  | s :: rest => fun each => by
      obtain ⟨eachFirst, eachOther⟩ := List.forall_mem_append.1 each
      have first := s.inlineWith_replaces eachFirst
      have others := inlineSelections_replaces rest eachOther
      unfold inlineSelections
      refine first.bind fun a ⟨expands, same⟩ => others.map fun b ⟨expandsRest, sameRest⟩ => ?_
      rw [Replaced, spreadsIn, List.append_eq_nil_iff, ← same, ← sameRest]
      cases a <;> cases b <;> exact ⟨.cons expands expandsRest, by simp⟩

end

end Traversal

section Fragment

variable {replace : FragmentSpread → Inliner InlineFragment} {f : Placed Fragment} {st : Inlining}

theorem inlineFragment_remembered {set : SelectionSet}
    (remembered : st.inlined.lookup f.definition.name.text = some set) :
    (Inliner.inlineFragment replace f).run st = .ok (set, st) := by
  unfold Inliner.inlineFragment
  simp only [StateT.run_bind, StateT.run_get, pure_bind, remembered]
  rfl

theorem inlineFragment_new (new : st.inlined.lookup f.definition.name.text = none) :
    (Inliner.inlineFragment replace f).run st =
      StateT.run (do
        let r ← f.definition.selectionSet.inlineWith replace
        Inliner.recordInlined f.definition.name.text (r.getD f.definition.selectionSet)
        return r.getD f.definition.selectionSet) { st with used := st.used ++ [f] } := by
  unfold Inliner.inlineFragment
  simp [new, Inliner.recordUse]

theorem Inlining.Sound.recordInlined {name : Text} {definition : Fragment} {set : SelectionSet}
    (sound : st.Sound fragment?) (found : fragment? name = some definition)
    (expands : definition.selectionSet.Expands fragment? set) :
    Sound fragment? { st with inlined := (name, set) :: st.inlined } := by
  intro other set' found'
  rw [List.lookup_cons] at found'
  split at found'
  case h_1 same =>
    obtain rfl := Option.some.inj found'
    exact ⟨definition, by rwa [← eq_of_beq same] at found, expands⟩
  case h_2 => exact sound other set' found'

theorem inlineFragment_ends (found : fragment? f.definition.name.text = some f.definition)
    (each : ReplacesEach fragment? refuse deeper f.definition.selectionSet.spreads replace)
    (sound : st.Sound fragment?) :
    Ends (fun set st' => st'.Sound fragment? ∧ f.definition.selectionSet.Expands fragment? set)
      (fun d => f.definition.selectionSet.spreads.findSome? refuse = some d ∨ deeper d)
      ((Inliner.inlineFragment replace f).run st) := by
  cases known : st.inlined.lookup f.definition.name.text with
  | some set =>
      obtain ⟨definition, found', expands⟩ := sound _ set known
      obtain rfl := Option.some.inj (found.symm.trans found')
      rw [inlineFragment_remembered known]
      exact ⟨sound, expands⟩
  | none =>
      rw [inlineFragment_new known]
      refine (f.definition.selectionSet.inlineWith_replaces each _ (by exact sound)).bind (fun _ => id) ?_
      rintro r st' ⟨sound', _, expands, _⟩
      exact ⟨sound'.recordInlined found expands, expands⟩

end Fragment

section Spread

variable {fragments : List (Placed Fragment)} {own set : SelectionSet} {path : List Text} {fuel : Nat}
  {s : FragmentSpread}

theorem length_le_of_defined (distinct : path.Nodup) (defined : ∀ name ∈ path, (definition? fragments name).isSome) :
    path.length ≤ fragments.length := by
  rw [← fragments.length_map (·.definition.name.text)]
  exact (distinct.subperm fun name member => definition?_isSome.1 (defined name member)).length_le

theorem inlineSpread_refused {d : Diagnostic} (refused : refusal? (definition? fragments) path s = some d)
    (st : Inlining) : (Inliner.inlineSpread fragments (fuel + 1) path s).run st = .error d := by
  unfold refusal? definition? at refused
  unfold Inliner.inlineSpread
  dsimp only
  split at refused
  case isTrue onPath =>
    rw [if_pos (List.contains_iff_mem.1 onPath)]
    exact congrArg Except.error (Option.some.inj refused)
  case isFalse offPath =>
    rw [if_neg (mt List.contains_iff_mem.2 offPath)]
    cases found : Inliner.findFragment? fragments s.name.text with
    | none =>
        rw [found] at refused
        exact congrArg Except.error (Option.some.inj refused)
    | some f =>
        rw [found] at refused
        contradiction

theorem inlineSpread_of_found {f : Placed Fragment} (offPath : s.name.text ∉ path)
    (found : Inliner.findFragment? fragments s.name.text = some f) :
    Inliner.inlineSpread fragments (fuel + 1) path s = do
      let set ← Inliner.inlineFragment (Inliner.inlineSpread fragments fuel (path ++ [s.name.text])) f
      return ⟨some f.definition.typeCondition, s.directives, set, s.loc⟩ := by
  rw [Inliner.inlineSpread, if_neg offPath, found]

theorem inlineSpread_replaces (trail : Trail (definition? fragments) own path set)
    (enough : fragments.length < fuel + path.length) :
    ReplacesEach (definition? fragments) (refusal? (definition? fragments) path) (Refuses (definition? fragments) own)
      set.spreads (Inliner.inlineSpread fragments fuel path) := by
  -- Each step enters one more fragment, so without steps left the trail would be longer than there are fragments.
  induction fuel generalizing path set with
  | zero =>
      have bounded := length_le_of_defined trail.distinct trail.defined
      omega
  | succ fuel ih =>
      intro s member st sound
      rw [List.findSome?_singleton]
      cases refused : refusal? (definition? fragments) path s with
      | some d =>
          rw [inlineSpread_refused refused]
          exact .inl rfl
      | none =>
          obtain ⟨offPath, defined⟩ := refusal?_eq_none_iff.1 refused
          obtain ⟨f, found⟩ := exists_of_definition? defined
          obtain ⟨defines, same⟩ := definition?_eq_some found
          have inner := trail.enter member offPath defines
          have longer : (path ++ [s.name.text]).length = path.length + 1 := List.length_append
          rw [inlineSpread_of_found offPath found]
          refine (inlineFragment_ends (by rwa [same]) (ih inner (by omega)) sound).bind ?_ ?_
          · rintro d (refused' | deeper)
            · exact .inr ⟨_, _, inner, refused'⟩
            · exact .inr deeper
          · rintro set' st' ⟨sound', expands⟩
            exact ⟨sound', rfl, .spread defines expands⟩

theorem inlineAll_ends (fragments : List (Placed Fragment)) (own : SelectionSet) :
    Ends (fun r _ => Replaced own.spreads (own.Expands (definition? fragments)) own r)
      (SpreadFault (definition? fragments) own) (Inliner.inlineAll fragments own) := by
  have replaces := own.inlineWith_replaces (inlineSpread_replaces .start (Nat.lt_succ_self fragments.length))
  refine (replaces {} nofun).imp (fun r _ ends => ends.2.2) ?_
  rintro d (refused | refuses)
  · exact Refuses.fault ⟨[], own, .start, refused⟩
  · exact refuses.fault

end Spread

end QueryPlanner
