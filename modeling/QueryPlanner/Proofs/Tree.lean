import QueryPlanner.Tree
import Mathlib.Data.List.Forall2
import Mathlib.Data.List.Nodup
import Mathlib.Tactic.SplitIfs

namespace QueryPlanner.Tree

mutual

def bare : Tree → Tree
  | undefined => undefined
  | null => null
  | boolean b => boolean b
  | number n => number n
  | text t => text t
  | array items => array (bareItems items)
  | object entries => object (bareEntries entries)

def bareItems : List Tree → List Tree
  | [] => []
  | t :: rest => t.bare :: bareItems rest

def bareEntries : List (Text × Tree) → List (Text × Tree)
  | [] => []
  | (key, t) :: rest => if key = locationKey then bareEntries rest else (key, t.bare) :: bareEntries rest

end

theorem bareItems_eq_map (items : List Tree) : bareItems items = items.map bare := by
  induction items with
  | nil => rfl
  | cons t rest ih => rw [bareItems, ih, List.map_cons]

theorem isUndefined_bare (t : Tree) : t.bare.isUndefined = t.isUndefined := by cases t <;> rfl

theorem length_significant_bareEntries (entries : List (Text × Tree)) :
    (significant (bareEntries entries)).length = (significant entries).length := by
  induction entries with
  | nil => rfl
  | cons entry rest ih =>
      obtain ⟨key, t⟩ := entry
      unfold significant at ih ⊢
      by_cases located : key = locationKey
      · rw [bareEntries, if_pos located, List.filter_cons_of_neg (by simp [located]), ih]
      · rw [bareEntries, if_neg located, List.filter_cons, List.filter_cons]
        dsimp only
        rw [isUndefined_bare]
        split_ifs
        · rw [List.length_cons, List.length_cons, ih]
        · exact ih

theorem lookup_bareEntries {key : Text} (apart : key ≠ locationKey) (entries : List (Text × Tree)) :
    (bareEntries entries).lookup key = (entries.lookup key).map bare := by
  induction entries with
  | nil => rfl
  | cons entry rest ih =>
      obtain ⟨key', t⟩ := entry
      rw [bareEntries, List.lookup_cons]
      by_cases same : key = key'
      · subst same
        rw [if_neg apart, List.lookup_cons, beq_self_eq_true]
        rfl
      · have differ : (key == key') = false := beq_eq_false_iff_ne.2 same
        rw [differ]
        split_ifs
        · exact ih
        · rw [List.lookup_cons, differ]
          exact ih

mutual

theorem equals_bare : ∀ t u : Tree, t.bare.equals u.bare = t.equals u
  | undefined, u | null, u | boolean _, u | number _, u | text _, u => by cases u <;> rfl
  | array as, u => by
      cases u with
      | array bs => exact equalItems_bare as bs
      | _ => rfl
  | object as, u => by
      cases u with
      | object bs =>
          -- Leaving out locations keeps the significant entries and what is found under their keys.
          change (_ && _) = (_ && _)
          rw [length_significant_bareEntries, length_significant_bareEntries, matchEntries_bare as bs]
      | _ => rfl

theorem equalItems_bare : ∀ as bs : List Tree, equalItems (bareItems as) (bareItems bs) = equalItems as bs
  | [], bs => by cases bs <;> rfl
  | a :: as, [] => rfl
  | a :: as, b :: bs => by rw [bareItems, bareItems, equalItems, equals_bare a b, equalItems_bare as bs, equalItems]

theorem matchEntries_bare : ∀ as bs : List (Text × Tree),
    matchEntries (bareEntries as) (bareEntries bs) = matchEntries as bs
  | [], _ => rfl
  | (key, a) :: as, bs => by
      rw [bareEntries, matchEntries]
      split_ifs with located
      · rw [matchEntries_bare as bs]
        simp [located]
      · rw [matchEntries, lookup_bareEntries located, Option.any_map, isUndefined_bare, matchEntries_bare as bs]
        congr 3
        funext b
        exact equals_bare a b

end

inductive Distinct : Tree → Prop
  | undefined : Distinct undefined
  | null : Distinct null
  | boolean (b : Bool) : Distinct (boolean b)
  | number (n : Rat) : Distinct (number n)
  | text (t : Text) : Distinct (text t)
  | array {items : List Tree} : (∀ t ∈ items, Distinct t) → Distinct (array items)
  | object {entries : List (Text × Tree)} : (entries.map Prod.fst).Nodup → (∀ entry ∈ entries, Distinct entry.2) →
      Distinct (object entries)

theorem lookup_of_mem {entries : List (Text × Tree)} (nodup : (entries.map Prod.fst).Nodup) {key : Text} {t : Tree}
    (member : (key, t) ∈ entries) : entries.lookup key = some t := by
  obtain ⟨before, after, rfl⟩ := List.append_of_mem member
  rw [List.map_append, List.map_cons, List.nodup_middle, List.nodup_cons] at nodup
  rw [List.lookup_eq_some_iff]
  refine ⟨before, after, rfl, fun entry inside => ?_⟩
  rw [bne_iff_ne]
  intro same
  rw [same] at nodup
  exact nodup.1 (List.mem_append_left _ (List.mem_map.2 ⟨entry, inside, rfl⟩))

theorem equalItems_self {items : List Tree} (equals : ∀ t ∈ items, t.equals t = true) : equalItems items items = true := by
  induction items with
  | nil => rfl
  | cons t rest ih =>
      rw [List.forall_mem_cons] at equals
      rw [equalItems, equals.1, ih equals.2]
      rfl

theorem matchEntries_of_forall {as bs : List (Text × Tree)}
    (found : ∀ entry ∈ as, (bs.lookup entry.1).any entry.2.equals = true) : matchEntries as bs = true := by
  induction as with
  | nil => rfl
  | cons entry rest ih =>
      rw [List.forall_mem_cons] at found
      rw [matchEntries, found.1, ih found.2, Bool.or_true]
      rfl

theorem Distinct.equals_self {t : Tree} (distinct : t.Distinct) : t.equals t = true := by
  induction distinct with
  | undefined | null => rfl
  | boolean | number | text => exact beq_self_eq_true _
  | array _ ih => exact equalItems_self ih
  | object nodup _ ih =>
      rw [equals, beq_self_eq_true, Bool.true_and]
      refine matchEntries_of_forall fun entry member => ?_
      rw [lookup_of_mem nodup member]
      exact ih entry member

structure HasBare (t u : Tree) : Prop where
  distinct : t.Distinct
  bare : t.bare = u

theorem HasBare.equals {t t' u : Tree} (first : t.HasBare u) (second : t'.HasBare u) : t.equals t' = true := by
  rw [← equals_bare, second.bare, ← first.bare, equals_bare]
  exact first.distinct.equals_self

theorem HasBare.text (s : Text) : (text s).HasBare (text s) := ⟨.text s, rfl⟩

theorem HasBare.boolean (b : Bool) : (boolean b).HasBare (boolean b) := ⟨.boolean b, rfl⟩

theorem HasBare.array {items items' : List Tree} (all : List.Forall₂ HasBare items items') :
    (array items).HasBare (array items') := by
  suffices (∀ t ∈ items, t.Distinct) ∧ items.map Tree.bare = items' from
    ⟨.array this.1, congrArg Tree.array ((bareItems_eq_map items).trans this.2)⟩
  induction all with
  | nil => exact ⟨nofun, rfl⟩
  | cons first _ ih => exact ⟨List.forall_mem_cons.2 ⟨first.distinct, ih.1⟩, by rw [List.map_cons, first.bare, ih.2]⟩

inductive BareEntries : List Text → List (Text × Option Tree) → List (Text × Option Tree) → Prop
  | nil : BareEntries [] [] []
  | cons {key : Text} {t u : Option Tree} {keys : List Text} {entries entries' : List (Text × Option Tree)} :
      Option.Rel HasBare t u → BareEntries keys entries entries' →
      BareEntries (key :: keys) ((key, t) :: entries) ((key, u) :: entries')

variable {keys : List Text} {entries entries' : List (Text × Option Tree)} {location : Option Tree}

theorem BareEntries.keys_eq (matched : BareEntries keys entries entries') : entries.map Prod.fst = keys := by
  induction matched with
  | nil => rfl
  | cons _ _ ih => rw [List.map_cons, ih]

theorem BareEntries.distinct (matched : BareEntries keys entries entries') :
    ∀ entry ∈ entries, ∀ t ∈ entry.2, t.Distinct := by
  induction matched with
  | nil => nofun
  | cons same _ ih =>
      refine List.forall_mem_cons.2 ⟨fun t present => ?_, ih⟩
      cases same with
      | none => contradiction
      | some same => exact Option.some.inj present ▸ same.distinct

theorem BareEntries.bare (matched : BareEntries keys entries entries') (apart : locationKey ∉ keys) :
    (ofEntries (entries ++ [(locationKey, location)])).bare = ofEntries (entries' ++ [(locationKey, none)]) := by
  change object _ = object _
  congr 1
  induction matched with
  | nil =>
      cases location with
      | none => rfl
      | some location => exact if_pos rfl
  | @cons key t u _ _ _ same _ ih =>
      rw [List.mem_cons, not_or] at apart
      cases same with
      | none => exact ih apart.2
      | @some t u same =>
          change bareEntries ((key, t) :: _) = (key, u) :: _
          rw [bareEntries, if_neg (Ne.symm apart.1), same.bare]
          exact congrArg _ (ih apart.2)

theorem Distinct.ofEntries {entries : List (Text × Option Tree)} (nodup : (entries.map Prod.fst).Nodup)
    (distinct : ∀ entry ∈ entries, ∀ t ∈ entry.2, t.Distinct) : (Tree.ofEntries entries).Distinct := by
  refine .object (nodup.sublist ?_) fun entry member => ?_
  · clear nodup distinct
    induction entries with
    | nil => exact .slnil
    | cons entry rest ih =>
        obtain ⟨key, t⟩ := entry
        cases t with
        | none => exact ih.cons key
        | some t => exact ih.cons_cons key
  · obtain ⟨⟨key, found⟩, inside, written⟩ := List.mem_filterMap.1 member
    obtain ⟨t, present, rfl⟩ := Option.map_eq_some_iff.1 written
    exact distinct _ inside t present

theorem HasBare.ofEntries (matched : BareEntries keys entries entries') (nodup : (keys ++ [locationKey]).Nodup)
    (located : ∀ t ∈ location, t.Distinct) :
    (Tree.ofEntries (entries ++ [(locationKey, location)])).HasBare (Tree.ofEntries (entries' ++ [(locationKey, none)])) where
  distinct := by
    refine .ofEntries (by rwa [List.map_append, matched.keys_eq]) ?_
    rw [List.forall_mem_append]
    exact ⟨matched.distinct, List.forall_mem_singleton.2 located⟩
  bare := matched.bare fun member => (List.nodup_append.1 nodup).2.2 _ member _ (List.mem_singleton_self _) rfl

end QueryPlanner.Tree
