import QueryPlanner.Proofs.Lookup
import QueryPlanner.Proofs.Tree
import Mathlib.Data.List.Perm.Subperm

namespace QueryPlanner.Tree

def sortEntries (entries : List (Text × Tree)) : List (Text × Tree) := entries.mergeSort fun a b => a.1 ≤ b.1

mutual

def normal : Tree → Tree
  | undefined => undefined
  | null => null
  | boolean b => boolean b
  | number n => number n
  | text t => text t
  | array items => array (normalItems items)
  | object entries => object (sortEntries (normalEntries entries))

def normalItems : List Tree → List Tree
  | [] => []
  | t :: rest => t.normal :: normalItems rest

def normalEntries : List (Text × Tree) → List (Text × Tree)
  | [] => []
  | (key, t) :: rest =>
    if key = locationKey || t.isUndefined then normalEntries rest else (key, t.normal) :: normalEntries rest

end

theorem significant_cons (key : Text) (t : Tree) (rest : List (Text × Tree)) :
    significant ((key, t) :: rest) =
      if key = locationKey || t.isUndefined then significant rest else (key, t) :: significant rest := by
  rw [significant, List.filter_cons]
  by_cases located : key = locationKey <;> cases t.isUndefined <;> simp [located, significant]

theorem mem_significant {entries : List (Text × Tree)} {entry : Text × Tree} :
    entry ∈ significant entries ↔ entry ∈ entries ∧ entry.1 ≠ locationKey ∧ entry.2.isUndefined = false := by
  simp [significant]

theorem normalEntries_eq_map (entries : List (Text × Tree)) :
    normalEntries entries = (significant entries).map fun entry => (entry.1, entry.2.normal) := by
  induction entries with
  | nil => rfl
  | cons entry rest ih =>
      rw [normalEntries, significant_cons, ih]
      split_ifs <;> rfl

theorem isUndefined_of_equals {t u : Tree} (equal : t.equals u = true) : u.isUndefined = t.isUndefined := by
  cases t <;> cases u <;> first | rfl | contradiction

variable {as bs : List (Text × Tree)}

theorem matchEntries_iff : matchEntries as bs = true ↔
    ∀ entry ∈ significant as, ∃ t, bs.lookup entry.1 = some t ∧ entry.2.equals t = true := by
  induction as with
  | nil => simp [matchEntries, significant]
  | cons entry rest ih =>
      obtain ⟨key, a⟩ := entry
      rw [matchEntries, Bool.and_eq_true, ih, significant_cons]
      split_ifs with skipped
      · simp [skipped]
      · rw [List.forall_mem_cons, eq_false_of_ne_true skipped, Bool.false_or, Option.any_eq_true]

theorem nodup_normalEntries (nodup : (as.map Prod.fst).Nodup) : ((normalEntries as).map Prod.fst).Nodup := by
  rw [normalEntries_eq_map, List.map_map]
  exact nodup.sublist (List.filter_sublist.map _)

theorem sortEntries_perm (entries : List (Text × Tree)) : (sortEntries entries).Perm entries :=
  List.mergeSort_perm _ _

theorem sortEntries_sorted (entries : List (Text × Tree)) : (sortEntries entries).Pairwise (·.1 ≤ ·.1) := by
  let le (a b : Text × Tree) : Bool := a.1 ≤ b.1
  have le_trans (a b c : Text × Tree) (first : le a b) (second : le b c) : le a c :=
    decide_eq_true (List.le_trans (of_decide_eq_true first) (of_decide_eq_true second))
  have le_total (a b : Text × Tree) : (le a b || le b a) = true := by
    simpa [le] using List.le_total a.1 b.1
  exact (List.pairwise_mergeSort le_trans le_total entries).imp of_decide_eq_true

theorem sortEntries_eq_iff (nodup : (bs.map Prod.fst).Nodup) : sortEntries as = sortEntries bs ↔ as.Perm bs := by
  constructor
  · intro same
    exact (sortEntries_perm as).symm.trans (same ▸ sortEntries_perm bs)
  · intro perm
    refine List.Perm.eq_of_pairwise ?_ (sortEntries_sorted as) (sortEntries_sorted bs)
      ((sortEntries_perm as).trans (perm.trans (sortEntries_perm bs).symm))
    intro a b inside inside' le ge
    have left : a ∈ bs := perm.mem_iff.1 ((sortEntries_perm as).mem_iff.1 inside)
    have right : b ∈ bs := (sortEntries_perm bs).mem_iff.1 inside'
    exact List.inj_on_of_nodup_map nodup left right (List.le_antisymm le ge)

theorem equalItems_iff {as bs : List Tree}
    (each : ∀ a ∈ as, ∀ b ∈ bs, a.equals b = true ↔ a.normal = b.normal) :
    equalItems as bs = true ↔ normalItems as = normalItems bs := by
  induction as generalizing bs with
  | nil => cases bs <;> simp [equalItems, normalItems]
  | cons a as ih =>
      cases bs with
      | nil => simp [equalItems, normalItems]
      | cons b bs =>
          have first := each a List.mem_cons_self b List.mem_cons_self
          have others := ih fun a inside b inside' => each a (.tail _ inside) b (.tail _ inside')
          rw [equalItems, Bool.and_eq_true, first, others, normalItems, normalItems, List.cons.injEq]

theorem entries_equal_iff (nodup : (as.map Prod.fst).Nodup) (nodup' : (bs.map Prod.fst).Nodup)
    (each : ∀ a ∈ as, ∀ b ∈ bs, a.2.equals b.2 = true ↔ a.2.normal = b.2.normal) :
    ((significant as).length = (significant bs).length ∧ matchEntries as bs = true) ↔
      (normalEntries as).Perm (normalEntries bs) := by
  rw [matchEntries_iff]
  constructor
  · rintro ⟨lengths, found⟩
    -- All entries of the one side are among those of the other, which are no more.
    have inside : normalEntries as ⊆ normalEntries bs := by
      intro made member
      rw [normalEntries_eq_map] at member ⊢
      obtain ⟨entry, counts, rfl⟩ := List.mem_map.1 member
      obtain ⟨t, lookup, equal⟩ := found entry counts
      obtain ⟨present, apart, defined⟩ := mem_significant.1 counts
      have partner : (entry.1, t) ∈ bs := mem_of_lookup lookup
      have same := (each entry present _ partner).1 equal
      refine List.mem_map.2 ⟨(entry.1, t), mem_significant.2 ⟨partner, apart, ?_⟩, by rw [same]⟩
      rw [isUndefined_of_equals equal, defined]
    refine ((nodup_normalEntries nodup).of_map.subperm inside).perm_of_length_le ?_
    rw [normalEntries_eq_map, normalEntries_eq_map, List.length_map, List.length_map]
    exact Nat.le_of_eq lengths.symm
  · intro perm
    rw [normalEntries_eq_map, normalEntries_eq_map] at perm
    refine ⟨by simpa using perm.length_eq, fun entry counts => ?_⟩
    obtain ⟨partner, counts', same⟩ := List.mem_map.1 (perm.mem_iff.1 (List.mem_map_of_mem counts))
    obtain ⟨key, normal⟩ := Prod.mk.inj same
    have present := (mem_significant.1 counts).1
    have present' := (mem_significant.1 counts').1
    refine ⟨partner.2, key ▸ lookup_of_mem nodup' present', ?_⟩
    exact (each entry present partner present').2 normal.symm

theorem Distinct.equals_iff {a b : Tree} (distinct : a.Distinct) (distinct' : b.Distinct) :
    a.equals b = true ↔ a.normal = b.normal := by
  induction distinct generalizing b with
  | undefined | null => cases b <;> simp [equals, normal]
  | boolean | number | text => cases b <;> simp [equals, normal]
  | array _ ih =>
      cases distinct' with
      | array items =>
          rw [equals, normal, normal, array.injEq]
          exact equalItems_iff fun a inside b inside' => ih a inside (items b inside')
      | _ => simp [equals, normal]
  | object nodup _ ih =>
      cases distinct' with
      | object nodup' entries =>
          rw [equals, normal, normal, object.injEq, Bool.and_eq_true, beq_iff_eq,
            sortEntries_eq_iff (nodup_normalEntries nodup')]
          exact entries_equal_iff nodup nodup' fun a inside b inside' => ih a inside (entries b inside')
      | _ => simp [equals, normal]

abbrev Data := { t : Tree // t.Distinct }

/-- Structural equality is equality of normal forms, and so an equivalence. -/
theorem equals_iff_same_normal :
    (∀ a b : Data, a.1.equals b.1 = true ↔ a.1.normal = b.1.normal) ∧
      Equivalence fun a b : Data => a.1.equals b.1 = true := by
  have by_normal (a b : Data) := a.2.equals_iff b.2
  refine ⟨by_normal, fun a => (by_normal a a).2 rfl, fun {a b} equal => ?_, fun {a b c} first second => ?_⟩
  · exact (by_normal b a).2 ((by_normal a b).1 equal).symm
  · exact (by_normal a c).2 (((by_normal a b).1 first).trans ((by_normal b c).1 second))

example : (object [("kind", text "Name"), ("loc", null), ("value", text "a")]).equals
    (object [("value", text "a"), ("alias", undefined), ("kind", text "Name")]) = true := by decide

end QueryPlanner.Tree
