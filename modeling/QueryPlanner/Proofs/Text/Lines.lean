import QueryPlanner.Text.Lines
import QueryPlanner.Proofs.Text.WellFormed
import Mathlib.Data.List.Basic

namespace QueryPlanner.Text
open CodeUnit

variable {n : Nat} {a b text : Text}

def IsLine (text : Text) : Prop := ∀ u ∈ text, isLineEnd u = false

theorem isLineEnd_of_ne {u : CodeUnit} (feed : u ≠ lineFeed) (ret : u ≠ carriageReturn) : isLineEnd u = false := by
  simp [isLineEnd, feed, ret]

theorem IsLine.of_all (all : text.all (!isLineEnd ·) = true) : IsLine text := by
  simpa [IsLine] using all

theorem lineFeed_text : ((("\n" : String) : Text)) = [lineFeed] := by decide

def unlines (lines : List Text) : Text := join [lineFeed] lines

@[simp] theorem unlines_nil : unlines [] = [] := rfl

@[simp] theorem unlines_singleton (line : Text) : unlines [line] = line := by
  rw [unlines, join, List.intercalate_singleton]

@[simp] theorem unlines_cons_cons (line next : Text) (lines : List Text) :
    unlines (line :: next :: lines) = line ++ lineFeed :: unlines (next :: lines) := by
  rw [unlines, join, List.intercalate_cons_cons, List.append_assoc, List.singleton_append]
  rfl

theorem unlines_nil_cons {lines : List Text} (some : lines ≠ []) : unlines ([] :: lines) = lineFeed :: unlines lines := by
  cases lines with
  | nil => contradiction
  | cons line rest => rw [unlines_cons_cons, List.nil_append]

theorem unlines_append_cons (start line : Text) (lines : List Text) :
    unlines ((start ++ line) :: lines) = start ++ unlines (line :: lines) := by
  cases lines with
  | nil => rw [unlines_singleton, unlines_singleton]
  | cons next lines => rw [unlines_cons_cons, unlines_cons_cons, List.append_assoc]

theorem wellFormed_unlines {lines : List Text} : (unlines lines).WellFormed ↔ ∀ line ∈ lines, line.WellFormed := by
  induction lines with
  | nil => exact iff_of_true .nil (List.forall_mem_nil _)
  | cons line rest ih =>
      rw [List.forall_mem_cons]
      cases rest with
      | nil => simp
      | cons next rest =>
          rw [unlines_cons_cons, ← ih]
          exact ⟨WellFormed.around rfl, fun ⟨left, right⟩ => left.append ((WellFormed.scalar rfl).2 right)⟩

theorem linesFrom_cons {u : CodeUnit} (current rest : Text) (inside : isLineEnd u = false) :
    linesFrom current (u :: rest) = linesFrom (u :: current) rest := by
  simp only [isLineEnd, Bool.or_eq_false_iff, beq_eq_false_iff_ne] at inside
  rw [linesFrom.eq_def]
  simp [inside]

theorem linesFrom_ne_nil (current text : Text) : linesFrom current text ≠ [] := by
  fun_induction linesFrom current text with
  | case5 _ _ _ _ _ _ ih => exact ih
  | _ => exact List.cons_ne_nil _ _

theorem linesFrom_line (current : Text) (line : IsLine text) : linesFrom current text = [current.reverse ++ text] := by
  induction text generalizing current with
  | nil => simp [linesFrom]
  | cons u rest ih =>
      rw [linesFrom_cons _ _ (line u List.mem_cons_self), ih (u :: current) fun v member => line v (List.mem_cons_of_mem u member),
        List.reverse_cons, List.append_assoc, List.singleton_append]

theorem linesFrom_append (current rest : Text) (line : IsLine text) :
    linesFrom current (text ++ lineFeed :: rest) = (current.reverse ++ text) :: linesFrom [] rest := by
  induction text generalizing current with
  | nil => simp [linesFrom]
  | cons u tail ih =>
      rw [List.cons_append, linesFrom_cons _ _ (line u List.mem_cons_self),
        ih (u :: current) fun v member => line v (List.mem_cons_of_mem u member), List.reverse_cons, List.append_assoc,
        List.singleton_append]

theorem lines_unlines {lines : List Text} (some : lines ≠ []) (plain : ∀ line ∈ lines, IsLine line) :
    (unlines lines).lines = lines := by
  induction lines with
  | nil => contradiction
  | cons line rest ih =>
      rw [List.forall_mem_cons] at plain
      cases rest with
      | nil => rw [unlines_singleton, Text.lines, linesFrom_line [] plain.1]; rfl
      | cons next rest =>
          have ih := ih (List.cons_ne_nil next rest) plain.2
          rw [unlines_cons_cons, Text.lines, linesFrom_append [] _ plain.1]
          rw [Text.lines] at ih
          rw [ih]
          rfl

def shift (n : Nat) (text : Text) : Text := text.flatMap fun u => if u = lineFeed then u :: spaces n else [u]

@[simp] theorem shift_nil (n : Nat) : shift n [] = [] := rfl

@[simp] theorem shift_append (n : Nat) (a b : Text) : shift n (a ++ b) = shift n a ++ shift n b := List.flatMap_append

@[simp] theorem shift_lineFeed (n : Nat) (text : Text) : shift n (lineFeed :: text) = lineFeed :: (spaces n ++ shift n text) := by
  simp [shift]

@[simp] theorem shift_cons {u : CodeUnit} (n : Nat) (text : Text) (inside : u ≠ lineFeed) :
    shift n (u :: text) = u :: shift n text := by
  simp [shift, inside]

@[simp] theorem shift_zero (text : Text) : shift 0 text = text := by
  induction text with
  | nil => rfl
  | cons u rest ih => by_cases feed : u = lineFeed <;> simp [feed, ih, spaces]

theorem shift_eq_self (n : Nat) (line : lineFeed ∉ text) : shift n text = text := by
  induction text with
  | nil => rfl
  | cons u rest ih =>
      rw [List.mem_cons, not_or] at line
      rw [shift_cons n rest (Ne.symm line.1), ih line.2]

theorem IsLine.lineFeed_not_mem (line : IsLine text) : lineFeed ∉ text := fun member => by
  have := line lineFeed member
  contradiction

theorem shift_spaces (n m : Nat) : shift n (spaces m) = spaces m := by
  apply shift_eq_self
  rw [spaces, List.mem_replicate]
  rintro ⟨-, same⟩
  contradiction

@[simp] theorem shift_shift (n m : Nat) (text : Text) : shift n (shift m text) = shift (n + m) text := by
  induction text with
  | nil => rfl
  | cons u rest ih =>
      by_cases feed : u = lineFeed
      · subst feed
        rw [shift_lineFeed, shift_lineFeed, shift_append, shift_spaces, ih, shift_lineFeed, ← List.append_assoc, spaces,
          spaces, spaces, List.replicate_add]
      · rw [shift_cons m rest feed, shift_cons n _ feed, ih, shift_cons (n + m) rest feed]

@[simp] theorem shift_eq_nil_iff : shift n text = [] ↔ text = [] := by
  cases text with
  | nil => simp
  | cons u rest => by_cases feed : u = lineFeed <;> simp [feed]

theorem indent_eq (some : text ≠ []) : indent text = spaces 2 ++ shift 2 text := by
  have two : ((("  " : String) : Text)) = spaces 2 := by decide
  unfold indent wrap
  rw [two, if_neg, List.append_nil]
  · rfl
  · exact mt (shift_eq_nil_iff (n := 2)).1 some

theorem shift_unlines (n : Nat) {first : Text} {others : List Text} (line : IsLine first)
    (plain : ∀ line ∈ others, IsLine line) :
    shift n (unlines (first :: others)) = unlines (first :: others.map (spaces n ++ ·)) := by
  induction others generalizing first with
  | nil => rw [List.map_nil, unlines_singleton, shift_eq_self n line.lineFeed_not_mem]
  | cons next others ih =>
      rw [List.forall_mem_cons] at plain
      have ih := ih plain.1 plain.2
      rw [unlines_cons_cons, shift_append, shift_lineFeed, ih, shift_eq_self n line.lineFeed_not_mem, List.map_cons,
        unlines_cons_cons, unlines_append_cons]

end QueryPlanner.Text
