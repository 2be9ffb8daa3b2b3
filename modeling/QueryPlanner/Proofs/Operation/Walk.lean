import QueryPlanner.Proofs.Operation.Inlining

namespace QueryPlanner

variable {fragment? : Text → Option Fragment} {spreads : List FragmentSpread} {seen seen' : List Text} {name : Text}

/--
A walk along spreads, from the names seen before to those seen behind. A fragment is entered at its first spread, and
what is spread in it comes before the spreads that follow.
-/
inductive Walks (fragment? : Text → Option Fragment) : List Text → List FragmentSpread → List Text → Prop
  | nil {seen : List Text} : Walks fragment? seen [] seen
  | again {seen seen' : List Text} {s : FragmentSpread} {rest : List FragmentSpread} : s.name.text ∈ seen →
      Walks fragment? seen rest seen' → Walks fragment? seen (s :: rest) seen'
  | enter {seen inner seen' : List Text} {s : FragmentSpread} {f : Fragment} {rest : List FragmentSpread} :
      s.name.text ∉ seen → fragment? s.name.text = some f →
      Walks fragment? (seen ++ [s.name.text]) f.selectionSet.spreads inner → Walks fragment? inner rest seen' →
      Walks fragment? seen (s :: rest) seen'

namespace Walks

theorem append {front back : List FragmentSpread} {inner : List Text} (first : Walks fragment? seen front inner)
    (others : Walks fragment? inner back seen') : Walks fragment? seen (front ++ back) seen' := by
  induction first with
  | nil => exact others
  | again known _ ih => exact .again known (ih others)
  | enter new found inside _ _ ih => exact .enter new found inside (ih others)

theorem unique {seen'' : List Text} (walk : Walks fragment? seen spreads seen')
    (other : Walks fragment? seen spreads seen'') : seen' = seen'' := by
  induction walk generalizing seen'' with
  | nil => cases other; rfl
  | again known _ ih =>
      cases other with
      | again _ rest => exact ih rest
      | enter new => exact absurd known new
  | enter new found _ _ ihInside ih =>
      cases other with
      | again known => exact absurd known new
      | enter _ found' inside rest =>
          obtain rfl := Option.some.inj (found.symm.trans found')
          obtain rfl := ihInside inside
          exact ih rest

theorem distinct (walk : Walks fragment? seen spreads seen') (before : seen.Nodup) : seen'.Nodup := by
  induction walk with
  | nil => exact before
  | again _ _ ih => exact ih before
  | enter new _ _ _ ihInside ih => exact ih (ihInside (List.concat_eq_append ▸ before.concat new))

theorem keeps (walk : Walks fragment? seen spreads seen') : seen ⊆ seen' := by
  induction walk with
  | nil => exact List.Subset.refl _
  | again _ _ ih => exact ih
  | enter _ _ _ _ ihInside ih => exact fun name member => ih (ihInside (List.mem_append_left _ member))

theorem meets (walk : Walks fragment? seen spreads seen') : ∀ s ∈ spreads, s.name.text ∈ seen' := by
  induction walk with
  | nil => nofun
  | again known rest ih => exact List.forall_mem_cons.2 ⟨rest.keeps known, ih⟩
  | enter _ _ inside rest _ ih =>
      have entered := inside.keeps (List.mem_append_right _ (List.mem_singleton_self _))
      exact List.forall_mem_cons.2 ⟨rest.keeps entered, ih⟩

theorem closed (walk : Walks fragment? seen spreads seen') {outer : Text} (member : outer ∈ seen') (new : outer ∉ seen)
    (spread : Spreads fragment? outer name) : name ∈ seen' := by
  induction walk with
  | nil => exact absurd member new
  | again _ _ ih => exact ih member new
  | @enter seen inner seen' s f _ _ found inside rest ihInside ih =>
      by_cases within : outer ∈ inner
      case neg => exact ih member within
      case pos =>
        apply rest.keeps
        by_cases entered : outer = s.name.text
        case neg => exact ihInside within (by simp [new, entered])
        case pos =>
          obtain ⟨f', found', t, inner, rfl⟩ := spread
          rw [entered, found] at found'
          obtain rfl := Option.some.inj found'
          exact inside.meets t inner

theorem reached {own : SelectionSet} (walk : Walks fragment? seen spreads seen')
    (before : ∀ name ∈ seen, Reaches fragment? own name) (along : ∀ s ∈ spreads, Reaches fragment? own s.name.text) :
    ∀ name ∈ seen', Reaches fragment? own name := by
  induction walk with
  | nil => exact before
  | again _ _ ih => exact ih before (List.forall_mem_cons.1 along).2
  | enter _ found _ _ ihInside ih =>
      obtain ⟨here, others⟩ := List.forall_mem_cons.1 along
      refine ih (ihInside ?_ fun t inside => .step here ⟨_, found, t, inside, rfl⟩) others
      exact List.forall_mem_append.2 ⟨before, List.forall_mem_singleton.2 here⟩

theorem mem_iff_reaches {own : SelectionSet} (walk : Walks fragment? [] own.spreads seen) :
    name ∈ seen ↔ Reaches fragment? own name := by
  constructor
  · exact walk.reached nofun (fun _ => .direct) name
  · intro reaches
    induction reaches with
    | direct member => exact walk.meets _ member
    | step _ spread ih => exact walk.closed ih nofun spread

end Walks

def Inlining.names (st : Inlining) : List Text := st.used.map (·.definition.name.text)

/-- The fragments used so far are the replaced ones and those on the path that is being gone. -/
structure Inlining.Accounts (st : Inlining) (fragment? : Text → Option Fragment) (path : List Text) : Prop where
  mem_names : ∀ name, name ∈ st.names ↔ (st.inlined.lookup name).isSome ∨ name ∈ path
  defined : ∀ f ∈ st.used, fragment? f.definition.name.text = some f.definition

def GoesAlong (fragment? : Text → Option Fragment) (path : List Text) (spreads : List FragmentSpread) {α : Type}
    (p : Inliner α) : Prop :=
  ∀ st a st', st.Accounts fragment? path → p.run st = .ok (a, st') →
    st'.Accounts fragment? path ∧ Walks fragment? st.names spreads st'.names

namespace GoesAlong

variable {α β : Type} {path : List Text}

theorem pure (a : α) : GoesAlong fragment? path [] (Pure.pure a) := by
  rintro st _ _ accounts ⟨⟩
  exact ⟨accounts, .nil⟩

theorem bind {front back : List FragmentSpread} {p : Inliner α} {f : α → Inliner β}
    (first : GoesAlong fragment? path front p) (next : ∀ a, GoesAlong fragment? path back (f a)) :
    GoesAlong fragment? path (front ++ back) (p >>= f) := by
  intro st b st' accounts run
  rw [StateT.run_bind] at run
  obtain ⟨⟨a, middle⟩, started, rest⟩ := Run.except_bind_ok.1 run
  obtain ⟨accounts', walk⟩ := first st a middle accounts started
  obtain ⟨accounts'', walk'⟩ := next a middle b st' accounts' rest
  exact ⟨accounts'', walk.append walk'⟩

theorem map {p : Inliner α} {f : α → β} (goes : GoesAlong fragment? path spreads p) :
    GoesAlong fragment? path spreads (do return f (← p)) := by
  rw [← List.append_nil spreads]
  exact goes.bind fun a => pure (f a)

end GoesAlong

section Traversal

variable {spread : FragmentSpread → Inliner InlineFragment} {path : List Text}

mutual

theorem SelectionSet.inlineWith_goesAlong : (set : SelectionSet) →
    (∀ s ∈ set.spreads, GoesAlong fragment? path [s] (spread s)) →
    GoesAlong fragment? path set.spreads (set.inlineWith spread)
  | ⟨selections, _⟩ => fun each => by
      unfold SelectionSet.inlineWith
      exact (inlineSelections_goesAlong selections each).map

theorem Selection.inlineWith_goesAlong : (selection : Selection) →
    (∀ s ∈ selection.spreads, GoesAlong fragment? path [s] (spread s)) →
    GoesAlong fragment? path selection.spreads (selection.inlineWith spread)
  | .field ⟨_, _, _, _, _, none, _⟩ => fun _ => .pure none
  | .field ⟨_, _, _, _, _, some set, _⟩ => fun each => by
      unfold Selection.inlineWith
      exact (set.inlineWith_goesAlong each).map
  | .inline ⟨_, _, set, _⟩ => fun each => by
      unfold Selection.inlineWith
      exact (set.inlineWith_goesAlong each).map
  | .spread s => fun each => by
      unfold Selection.inlineWith
      exact (each s (List.mem_singleton_self s)).map

theorem inlineSelections_goesAlong : (selections : List Selection) →
    (∀ s ∈ spreadsIn selections, GoesAlong fragment? path [s] (spread s)) →
    GoesAlong fragment? path (spreadsIn selections) (inlineSelections spread selections)
  | [] => fun _ => .pure none
  | s :: rest => fun each => by
      obtain ⟨eachFirst, eachOther⟩ := List.forall_mem_append.1 each
      have others := inlineSelections_goesAlong rest eachOther
      unfold inlineSelections
      exact (s.inlineWith_goesAlong eachFirst).bind fun _ => others.map

end

end Traversal

section Spread

variable {replace : FragmentSpread → Inliner InlineFragment} {f : Placed Fragment} {st : Inlining} {path : List Text}

theorem Inlining.Accounts.recordUse (accounts : st.Accounts fragment? path)
    (found : fragment? f.definition.name.text = some f.definition) :
    Accounts { st with used := st.used ++ [f] } fragment? (path ++ [f.definition.name.text]) where
  mem_names name := by
    unfold Inlining.names
    rw [List.map_append, List.mem_append, List.mem_append, ← or_assoc]
    exact or_congr (accounts.mem_names name) Iff.rfl
  defined := List.forall_mem_append.2 ⟨accounts.defined, List.forall_mem_singleton.2 found⟩

theorem Inlining.Accounts.recordInlined (accounts : st.Accounts fragment? (path ++ [name])) (set : SelectionSet) :
    Accounts { st with inlined := (name, set) :: st.inlined } fragment? path where
  mem_names other := by
    refine (accounts.mem_names other).trans ?_
    rw [List.lookup_cons, List.mem_append, List.mem_singleton]
    cases same : other == name with
    | true =>
        rw [eq_of_beq same]
        exact iff_of_true (.inr (.inr rfl)) (.inl rfl)
    | false => simp only [ne_of_beq_false same, or_false]
  defined := accounts.defined

theorem inlineFragment_goesAlong {s : FragmentSpread} (named : f.definition.name.text = s.name.text)
    (found : fragment? s.name.text = some f.definition) (offPath : s.name.text ∉ path)
    (inside : GoesAlong fragment? (path ++ [s.name.text]) f.definition.selectionSet.spreads
      (f.definition.selectionSet.inlineWith replace)) :
    GoesAlong fragment? path [s] (Inliner.inlineFragment replace f) := by
  intro st set st' accounts run
  cases known : st.inlined.lookup f.definition.name.text with
  | some remembered =>
      rw [inlineFragment_remembered known] at run
      obtain ⟨⟩ := run
      have seen := (accounts.mem_names s.name.text).2 (.inl (by rw [← named, known]; rfl))
      exact ⟨accounts, .again seen .nil⟩
  | none =>
      have new : s.name.text ∉ st.names := by
        rw [accounts.mem_names, ← named, known, named]
        exact not_or.2 ⟨nofun, offPath⟩
      rw [inlineFragment_new known, StateT.run_bind] at run
      obtain ⟨⟨r, middle⟩, replaced, rest⟩ := Run.except_bind_ok.1 run
      obtain ⟨⟩ := rest
      obtain ⟨accounts', walk⟩ := inside _ r middle (named ▸ accounts.recordUse (named ▸ found)) replaced
      have entered : Inlining.names { st with used := st.used ++ [f] } = st.names ++ [s.name.text] := by
        rw [Inlining.names, List.map_append, List.map_singleton, named, Inlining.names]
      rw [entered] at walk
      exact ⟨(named ▸ accounts').recordInlined _, .enter new found walk .nil⟩

variable {fragments : List (Placed Fragment)}

theorem inlineSpread_goesAlong (fuel : Nat) (path : List Text) (s : FragmentSpread) :
    GoesAlong (definition? fragments) path [s] (Inliner.inlineSpread fragments fuel path s) := by
  induction fuel generalizing path s with
  | zero => exact fun _ _ _ _ => nofun
  | succ fuel ih =>
      cases refused : refusal? (definition? fragments) path s with
      | some d =>
          intro st _ _ _ run
          rw [inlineSpread_refused refused] at run
          contradiction
      | none =>
          obtain ⟨offPath, defined⟩ := refusal?_eq_none_iff.1 refused
          obtain ⟨f, found⟩ := exists_of_definition? defined
          obtain ⟨defines, named⟩ := definition?_eq_some found
          rw [inlineSpread_of_found offPath found]
          exact (inlineFragment_goesAlong named defines offPath
            (f.definition.selectionSet.inlineWith_goesAlong fun t _ => ih _ t)).map

theorem inlineAll_walks {own : SelectionSet} {inlined : Option SelectionSet}
    (run : Inliner.inlineAll fragments own = .ok (inlined, st)) :
    st.Accounts (definition? fragments) [] ∧ Walks (definition? fragments) [] own.spreads st.names := by
  have start : Inlining.Accounts {} (definition? fragments) [] := ⟨fun _ => by simp [Inlining.names], nofun⟩
  exact own.inlineWith_goesAlong (fun s _ => inlineSpread_goesAlong _ [] s) {} inlined st start run

end Spread

end QueryPlanner
