import QueryPlanner.Text

namespace QueryPlanner.Text

variable {p : CodeUnit → Bool} {run after text : Text} {u v : CodeUnit}

def Stops (p : CodeUnit → Bool) (text : Text) : Prop := ∀ u ∈ text.head?, p u = false

theorem Stops.imp {q : CodeUnit → Bool} (stops : text.Stops q) (weaker : ∀ u, p u = true → q u = true) : text.Stops p := by
  intro u first
  have := weaker u
  rw [stops u first] at this
  simpa using this

theorem Stops.nil : Stops p [] := by
  intro u first
  simp at first

theorem Stops.cons {rest : Text} (other : p u = false) : Stops p (u :: rest) := by
  intro v first
  rwa [← Option.some.inj first]

theorem takeWhile_append_of_stops (all : ∀ u ∈ run, p u = true) (stops : after.Stops p) :
    (run ++ after).takeWhile p = run := by
  rw [List.takeWhile_append_of_pos all]
  cases after with
  | nil => simp
  | cons u rest => simp [stops u rfl]

theorem dropWhile_append_of_stops (all : ∀ u ∈ run, p u = true) (stops : after.Stops p) :
    (run ++ after).dropWhile p = after := by
  rw [List.dropWhile_append_of_pos all]
  cases after with
  | nil => rfl
  | cons u rest => simp [stops u rfl]

theorem WellFormed.nil : WellFormed [] := rfl

theorem WellFormed.scalar {rest : Text} (single : u.isScalar = true) : WellFormed (u :: rest) ↔ rest.WellFormed := by
  rw [WellFormed, isWellFormed.eq_def, WellFormed]
  simp [single]

theorem isScalar_of_pair (pair : isPair u v = true) : u.isScalar = false ∧ v.isScalar = false := by
  simp only [isPair, CodeUnit.isLeadingSurrogate, CodeUnit.isTrailingSurrogate, CodeUnit.isScalar, Bool.and_eq_true,
    decide_eq_true_eq] at pair ⊢
  have top : u ≤ 0xdfff := UInt16.le_trans pair.1.2 (by decide)
  have bottom : 0xd800 ≤ v := UInt16.le_trans (by decide) pair.2.1
  simp [pair.1.1, top, bottom, pair.2.2]

theorem WellFormed.pair {rest : Text} (pair : isPair u v = true) : WellFormed (u :: v :: rest) ↔ rest.WellFormed := by
  rw [WellFormed, isWellFormed.eq_def, WellFormed]
  simp [(isScalar_of_pair pair).1, pair]

inductive AreCharacters : Text → Prop
  | nil : AreCharacters []
  | scalar {u : CodeUnit} {rest : Text} : u.isScalar = true → AreCharacters rest → AreCharacters (u :: rest)
  | pair {u v : CodeUnit} {rest : Text} : isPair u v = true → AreCharacters rest → AreCharacters (u :: v :: rest)

theorem WellFormed.characters {text : Text} (wellFormed : text.WellFormed) : AreCharacters text := by
  induction text using isWellFormed.induct with
  | case1 => exact .nil
  | case2 u rest single ih => exact .scalar single (ih ((WellFormed.scalar single).1 wellFormed))
  | case3 u double v rest ih =>
      rw [WellFormed, isWellFormed.eq_def] at wellFormed
      simp [double] at wellFormed
      exact .pair wellFormed.1 (ih wellFormed.2)
  | case4 u double =>
      rw [WellFormed, isWellFormed.eq_def] at wellFormed
      simp [double] at wellFormed

theorem WellFormed.append {a b : Text} (first : a.WellFormed) (second : b.WellFormed) : (a ++ b).WellFormed := by
  induction first.characters with
  | nil => exact second
  | scalar single _ ih => exact (WellFormed.scalar single).2 (ih ((WellFormed.scalar single).1 first))
  | pair both _ ih => exact (WellFormed.pair both).2 (ih ((WellFormed.pair both).1 first))

theorem WellFormed.of_all {a : Text} (all : ∀ u ∈ a, u.isScalar = true) : a.WellFormed := by
  induction a with
  | nil => exact .nil
  | cons u rest ih =>
      rw [List.forall_mem_cons] at all
      exact (WellFormed.scalar all.1).2 (ih all.2)

theorem WellFormed.of_append_scalars {a b : Text} (all : ∀ u ∈ a, u.isScalar = true) (both : (a ++ b).WellFormed) :
    b.WellFormed := by
  induction a with
  | nil => exact both
  | cons u rest ih =>
      rw [List.forall_mem_cons] at all
      exact ih all.2 ((WellFormed.scalar all.1).1 both)

theorem WellFormed.around {a b : Text} (single : u.isScalar = true) (whole : (a ++ u :: b).WellFormed) :
    a.WellFormed ∧ b.WellFormed := by
  generalize split : a ++ u :: b = text at whole
  induction whole.characters generalizing a with
  | nil => simp at split
  | @scalar v rest scalar _ ih =>
      have inside := (WellFormed.scalar scalar).1 whole
      obtain ⟨rfl, same⟩ | ⟨a, rfl, behind⟩ := List.append_eq_cons_iff.1 split
      · obtain ⟨rfl, rfl⟩ := List.cons.inj same
        exact ⟨.nil, inside⟩
      · obtain ⟨left, right⟩ := ih behind.symm inside
        exact ⟨(WellFormed.scalar scalar).2 left, right⟩
  | @pair v w rest both _ ih =>
      have halves := isScalar_of_pair both
      obtain ⟨rfl, same⟩ | ⟨a, rfl, behind⟩ := List.append_eq_cons_iff.1 split
      · obtain ⟨rfl, -⟩ := List.cons.inj same
        simp [halves.1] at single
      · obtain ⟨rfl, same⟩ | ⟨a, rfl, beyond⟩ := List.append_eq_cons_iff.1 behind.symm
        · obtain ⟨rfl, -⟩ := List.cons.inj same
          simp [halves.2] at single
        · obtain ⟨left, right⟩ := ih beyond.symm ((WellFormed.pair both).1 whole)
          exact ⟨(WellFormed.pair both).2 left, right⟩

end QueryPlanner.Text
