import QueryPlanner.Proofs.Text.Lines
import Mathlib.Data.List.TakeWhile

namespace QueryPlanner.Text
open CodeUnit

variable {a b rest text : Text} {u : CodeUnit} {offset : Nat}

/-- No line end reaches from the first text into the second. -/
def Apart (a b : Text) : Prop := a.getLast? = some carriageReturn → b.head? ≠ some lineFeed

theorem Apart.of_line (line : IsLine a) : Apart a b := by
  intro last
  have := line _ (List.mem_of_getLast? last)
  contradiction

theorem Apart.nil : Apart [] b := nofun

theorem Apart.tail (apart : Apart (u :: a) b) : Apart a b := by
  intro last
  exact apart (by rw [List.getLast?_cons, last]; rfl)

theorem Apart.of_append (apart : Apart a (b ++ rest)) : Apart a b := by
  intro last first
  exact apart last (by rw [List.head?_append, first]; rfl)

theorem Apart.append (first : Apart a (b ++ rest)) (second : Apart b rest) : Apart (a ++ b) rest := by
  cases b with
  | nil => rwa [List.append_nil]
  | cons u b =>
      intro last
      rw [List.getLast?_append_of_ne_nil _ (List.cons_ne_nil u b)] at last
      exact second last

theorem lineEnds_plain (plain : isLineEnd u = false) : lineEnds (u :: rest) offset = lineEnds rest (offset + 1) := by
  simp only [isLineEnd, Bool.or_eq_false_iff, beq_eq_false_iff_ne] at plain
  rw [lineEnds.eq_def]
  simp [plain]

theorem lineEnds_return (next : rest.head? ≠ some lineFeed) :
    lineEnds (carriageReturn :: rest) offset = (offset, 1) :: lineEnds rest (offset + 1) := by
  rw [lineEnds]
  rintro after rfl
  exact next rfl

theorem lineEnds_line (line : IsLine text) : lineEnds text offset = [] := by
  induction text generalizing offset with
  | nil => rfl
  | cons u rest ih =>
      obtain ⟨first, others⟩ := List.forall_mem_cons.1 line
      rw [lineEnds_plain first, ih others]

theorem lineEnds_append (apart : Apart a b) :
    lineEnds (a ++ b) offset = lineEnds a offset ++ lineEnds b (offset + a.length) := by
  fun_induction lineEnds a offset with
  | case1 => rfl
  | case2 rest offset ih => simp [lineEnds, ih apart.tail, Nat.add_assoc, Nat.add_comm 1]
  | case3 rest offset ih => simp [lineEnds, ih apart.tail.tail, Nat.add_assoc, Nat.add_comm 2]
  | case4 rest offset single ih =>
      have next : (rest ++ b).head? ≠ some lineFeed := by
        cases rest with
        | nil => exact apart rfl
        | cons v rest => exact fun first => single rest (by rw [Option.some.inj first])
      rw [List.cons_append, lineEnds_return next, ih apart.tail]
      simp [Nat.add_assoc, Nat.add_comm 1]
  | case5 u rest offset notFeed _ notReturn ih =>
      rw [List.cons_append, lineEnds_plain (isLineEnd_of_ne notFeed notReturn), ih apart.tail]
      simp [Nat.add_assoc, Nat.add_comm 1]

theorem lineEnds_bounds (text : Text) (offset : Nat) :
    ∀ lineEnd ∈ lineEnds text offset,
      offset ≤ lineEnd.1 ∧ lineEnd.1 < lineEnd.1 + lineEnd.2 ∧ lineEnd.1 + lineEnd.2 ≤ offset + text.length := by
  fun_induction lineEnds text offset with
  | case1 => exact List.forall_mem_nil _
  | case2 rest offset ih | case4 rest offset _ ih =>
      refine List.forall_mem_cons.2 ⟨⟨Nat.le_refl _, by simp, by simp⟩, fun lineEnd member => ?_⟩
      have := ih lineEnd member
      rw [List.length_cons]
      omega
  | case3 rest offset ih =>
      refine List.forall_mem_cons.2 ⟨⟨Nat.le_refl _, by simp, by simp⟩, fun lineEnd member => ?_⟩
      have := ih lineEnd member
      simp only [List.length_cons]
      omega
  | case5 u rest offset _ _ _ ih =>
      intro lineEnd member
      have := ih lineEnd member
      rw [List.length_cons]
      omega

def lineEndsBefore (text : Text) (offset : Nat) : List (Nat × Nat) :=
  (text.lineEnds 0).filter fun lineEnd => lineEnd.1 + lineEnd.2 ≤ offset

def lastLineStart (start : Nat) (lineEnds : List (Nat × Nat)) : Nat :=
  (lineEnds.getLast?.map fun lineEnd => lineEnd.1 + lineEnd.2).getD start

variable {body : Text}

theorem lineEndsBefore_append (apart : Apart a b) : (a ++ b).lineEndsBefore a.length = a.lineEnds 0 := by
  have front := lineEnds_bounds a 0
  have back := lineEnds_bounds b (0 + a.length)
  rw [lineEndsBefore, lineEnds_append apart, List.filter_append, List.filter_eq_self.2, List.filter_eq_nil_iff.2,
    List.append_nil]
  · intro lineEnd member
    have := back lineEnd member
    simp
    omega
  · intro lineEnd member
    have := front lineEnd member
    simp
    omega

theorem lineColumn_append (apart : Apart a b) : (a ++ b).lineColumn a.length =
    ⟨1 + (a.lineEnds 0).length, 1 + (a.length : Int) - lastLineStart 0 (a.lineEnds 0)⟩ := by
  have front := lineEnds_bounds a 0
  have back := lineEnds_bounds b (0 + a.length)
  have before : ((a ++ b).lineEnds 0).takeWhile (fun lineEnd => decide ((lineEnd.1 : Int) < a.length)) = a.lineEnds 0 := by
    rw [lineEnds_append apart, List.takeWhile_append_of_pos, List.takeWhile_eq_nil_iff.2, List.append_nil]
    · intro some
      have := back _ (List.getElem_mem some)
      simp only [List.get_eq_getElem, decide_eq_true_eq]
      omega
    · intro lineEnd member
      have := front lineEnd member
      simp
      omega
  rw [lineColumn, before, Nat.add_comm, Int.add_comm, lastLineStart]

end QueryPlanner.Text
