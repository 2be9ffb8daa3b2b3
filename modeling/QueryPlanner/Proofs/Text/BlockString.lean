import QueryPlanner.Text.BlockString
import QueryPlanner.Proofs.Text.Lines
import QueryPlanner.Proofs.Text.WellFormed
import Mathlib.Data.List.TakeWhile

namespace QueryPlanner.BlockString
open CodeUnit
open Text (spaces IsLine)

variable {line : Text} {lines others : List Text} {n : Nat}

def IsFlush (line : Text) : Prop := isBlankLine line = false ∧ beginsBlank line = false

structure Trimmed (lines : List Text) : Prop where
  first : ∀ line ∈ lines.head?, isBlankLine line = false
  last : ∀ line ∈ lines.getLast?, isBlankLine line = false
  flush : 1 < lines.length → ∃ line ∈ lines, IsFlush line

theorem dropBlankEnds_of_blank (blank : ∀ line ∈ lines, isBlankLine line = true) : dropBlankEnds lines = [] := by
  rw [dropBlankEnds, List.dropWhile_eq_nil_iff.2 blank]
  rfl

theorem dropBlankEnds_append {before after : List Text} (above : ∀ line ∈ before, isBlankLine line = true)
    (below : ∀ line ∈ after, isBlankLine line = true) (first : ∀ line ∈ lines.head?, isBlankLine line = false)
    (last : ∀ line ∈ lines.getLast?, isBlankLine line = false) : dropBlankEnds (before ++ lines ++ after) = lines := by
  rw [dropBlankEnds, List.append_assoc, List.dropWhile_append_of_pos above]
  cases lines with
  | nil =>
      rw [List.nil_append, List.dropWhile_eq_nil_iff.2 below]
      rfl
  | cons line rest =>
      rw [List.cons_append, List.dropWhile_cons_of_neg (by simp [first line rfl]), ← List.cons_append,
        List.reverse_append, List.dropWhile_append_of_pos (by simpa using below)]
      cases reversed : (line :: rest).reverse with
      | nil => simp at reversed
      | cons bottom tail =>
          have := last bottom (by rw [← List.head?_reverse, reversed]; rfl)
          rw [List.dropWhile_cons_of_neg (by simp [this]), ← reversed, List.reverse_reverse]

theorem dropBlankEnds_spec (lines : List Text) : ∃ before after, lines = before ++ dropBlankEnds lines ++ after ∧
    (∀ line ∈ before, isBlankLine line = true) ∧ (∀ line ∈ after, isBlankLine line = true) := by
  refine ⟨lines.takeWhile isBlankLine, ((lines.dropWhile isBlankLine).reverse.takeWhile isBlankLine).reverse, ?_,
    fun _ member => List.mem_takeWhile_imp member, fun _ member => List.mem_takeWhile_imp (List.mem_reverse.1 member)⟩
  rw [dropBlankEnds, List.append_assoc, ← List.reverse_append, List.takeWhile_append_dropWhile, List.reverse_reverse,
    List.takeWhile_append_dropWhile]

theorem mem_dropBlankEnds (member : line ∈ lines) (filled : isBlankLine line = false) : line ∈ dropBlankEnds lines := by
  obtain ⟨before, after, split, above, below⟩ := dropBlankEnds_spec lines
  rw [split, List.mem_append, List.mem_append] at member
  obtain (upper | inside) | lower := member
  · simp [above line upper] at filled
  · exact inside
  · simp [below line lower] at filled

theorem mem_of_mem_dropBlankEnds (member : line ∈ dropBlankEnds lines) : line ∈ lines := by
  obtain ⟨before, after, split, -, -⟩ := dropBlankEnds_spec lines
  rw [split]
  simp [member]

theorem dropBlankEnds_last : ∀ line ∈ (dropBlankEnds lines).getLast?, isBlankLine line = false := by
  intro line last
  rw [dropBlankEnds, List.getLast?_reverse] at last
  have := List.head?_dropWhile_not isBlankLine (lines.dropWhile isBlankLine).reverse
  rw [last] at this
  simpa using this

theorem dropBlankEnds_first : ∀ line ∈ (dropBlankEnds lines).head?, isBlankLine line = false := by
  intro line first
  have inside := List.head?_dropWhile_not isBlankLine lines
  -- What is dropped below stands behind the first line that is kept.
  have kept : (dropBlankEnds lines) <+: lines.dropWhile isBlankLine := by
    refine ⟨((lines.dropWhile isBlankLine).reverse.takeWhile isBlankLine).reverse, ?_⟩
    rw [dropBlankEnds, ← List.reverse_append, List.takeWhile_append_dropWhile, List.reverse_reverse]
  obtain ⟨rest, split⟩ := kept
  rw [← split, List.head?_append, first] at inside
  simpa using inside

def indentOf (line : Text) : Nat := (line.takeWhile isBlank).length

theorem commonIndent_eq : commonIndent lines = ((lines.filter (!isBlankLine ·)).map indentOf).min?.getD 0 := rfl

theorem commonIndent_le (member : line ∈ lines) (filled : isBlankLine line = false) : commonIndent lines ≤ indentOf line := by
  have member : indentOf line ∈ (lines.filter (!isBlankLine ·)).map indentOf :=
    List.mem_map_of_mem (List.mem_filter.2 ⟨member, by simp [filled]⟩)
  rw [commonIndent_eq]
  cases least : ((lines.filter (!isBlankLine ·)).map indentOf).min? with
  | none => exact Nat.zero_le _
  | some k => exact (List.min?_eq_some_iff.1 least).2 _ member

theorem commonIndent_attained (member : line ∈ lines) (filled : isBlankLine line = false) :
    ∃ least ∈ lines, isBlankLine least = false ∧ indentOf least = commonIndent lines := by
  rw [commonIndent_eq]
  cases least : ((lines.filter (!isBlankLine ·)).map indentOf).min? with
  | none =>
      rw [List.min?_eq_none_iff, List.map_eq_nil_iff, List.filter_eq_nil_iff] at least
      simp only [Bool.not_eq_true', Bool.not_eq_false] at least
      have := least line member
      simp [filled] at this
  | some k =>
      obtain ⟨least, found, same⟩ := List.mem_map.1 (List.min?_eq_some_iff.1 least).1
      obtain ⟨found, filled⟩ := List.mem_filter.1 found
      exact ⟨least, found, by simpa using filled, same⟩

theorem drop_indentOf (line : Text) : line.drop (indentOf line) = line.dropWhile isBlank := by
  have split : line.takeWhile isBlank ++ line.dropWhile isBlank = line := List.takeWhile_append_dropWhile
  rw [indentOf]
  exact (congrArg (List.drop _) split.symm).trans List.drop_left

theorem isFlush_drop_indentOf (filled : isBlankLine line = false) : IsFlush (line.drop (indentOf line)) := by
  rw [drop_indentOf]
  constructor
  · rw [isBlankLine, ← List.takeWhile_append_dropWhile (p := isBlank) (l := line), List.all_append, List.all_takeWhile,
      Bool.true_and] at filled
    exact filled
  · have := List.head?_dropWhile_not isBlank line
    rw [beginsBlank]
    cases first : (line.dropWhile isBlank).head? with
    | none => rfl
    | some u =>
        rw [first] at this
        simpa using this

theorem isBlank_of_mem_take {k : Nat} {u : CodeUnit} (within : k ≤ indentOf line) (member : u ∈ line.take k) :
    isBlank u = true := by
  have split : line.takeWhile isBlank ++ line.dropWhile isBlank = line := List.takeWhile_append_dropWhile
  rw [← split, List.take_append_of_le_length within] at member
  exact List.mem_takeWhile_imp (List.mem_of_mem_take member)

theorem isBlankLine_drop (blank : isBlankLine line = true) (k : Nat) : isBlankLine (line.drop k) = true := by
  rw [isBlankLine, List.all_eq_true] at blank ⊢
  exact fun u member => blank u (List.mem_of_mem_drop member)

theorem isBlankLine_of_mem_dropped {k : Nat} (blank : ∀ line ∈ lines, isBlankLine line = true) :
    ∀ line ∈ lines.map (·.drop k), isBlankLine line = true := by
  intro _ member
  obtain ⟨line, found, rfl⟩ := List.mem_map.1 member
  exact isBlankLine_drop (blank line found) k

theorem dedent_of_blank (blank : ∀ line ∈ lines, isBlankLine line = true) : dedent lines = [] := by
  cases lines with
  | nil => rfl
  | cons first others =>
      rw [List.forall_mem_cons] at blank
      exact dropBlankEnds_of_blank (List.forall_mem_cons.2 ⟨blank.1, isBlankLine_of_mem_dropped blank.2⟩)

theorem dedent_single (filled : isBlankLine line = false) (blank : ∀ line ∈ others, isBlankLine line = true) :
    dedent (line :: others) = [line] := by
  have filled : ∀ first ∈ some line, isBlankLine first = false := by
    rintro _ ⟨⟩
    exact filled
  change dropBlankEnds ([] ++ [line] ++ _) = [line]
  exact dropBlankEnds_append nofun (isBlankLine_of_mem_dropped blank) filled filled

theorem dedent_trimmed (lines : List Text) : Trimmed (dedent lines) := by
  cases lines with
  | nil => exact ⟨by simp [dedent], by simp [dedent], by simp [dedent]⟩
  | cons first others =>
      refine ⟨dropBlankEnds_first, dropBlankEnds_last, fun several => ?_⟩
      by_cases blank : ∀ line ∈ others, isBlankLine line = true
      · -- At most the first line is kept.
        cases filled : isBlankLine first with
        | true =>
            rw [dedent_of_blank (List.forall_mem_cons.2 ⟨filled, blank⟩)] at several
            contradiction
        | false =>
            rw [dedent_single filled blank] at several
            contradiction
      · -- The line with the common indentation is flush without it.
        simp only [not_forall, Bool.not_eq_true] at blank
        obtain ⟨line, member, filled⟩ := blank
        obtain ⟨least, found, filled, same⟩ := commonIndent_attained member filled
        have flush := isFlush_drop_indentOf filled
        rw [same] at flush
        exact ⟨_, mem_dropBlankEnds (List.mem_cons_of_mem _ (List.mem_map_of_mem found)) flush.1, flush⟩

def IsPlain (line : Text) : Prop := line.WellFormed ∧ IsLine line

theorem isScalar_of_isBlank {u : CodeUnit} (blank : isBlank u = true) : u.isScalar = true := by
  rw [isBlank, Bool.or_eq_true, beq_iff_eq, beq_iff_eq] at blank
  obtain rfl | rfl := blank <;> rfl

theorem IsPlain.of_append {a : Text} (plain : IsPlain (a ++ line)) (scalars : ∀ u ∈ a, u.isScalar = true) : IsPlain line :=
  ⟨plain.1.of_append_scalars scalars, fun u member => plain.2 u (List.mem_append_right a member)⟩

theorem IsPlain.drop {k : Nat} (plain : IsPlain line) (within : isBlankLine line = true ∨ k ≤ indentOf line) :
    IsPlain (line.drop k) := by
  refine ⟨?_, fun u member => plain.2 u (List.mem_of_mem_drop member)⟩
  obtain blank | within := within
  · apply Text.WellFormed.of_all
    have blank := isBlankLine_drop blank k
    rw [isBlankLine, List.all_eq_true] at blank
    exact fun u member => isScalar_of_isBlank (blank u member)
  · have both := plain.1
    rw [← List.take_append_drop k line] at both
    exact both.of_append_scalars fun u member => isScalar_of_isBlank (isBlank_of_mem_take within member)

theorem dedent_plain (plain : ∀ line ∈ lines, IsPlain line) : ∀ line ∈ dedent lines, IsPlain line := by
  cases lines with
  | nil => exact plain
  | cons first others =>
      rw [List.forall_mem_cons] at plain
      intro line member
      have member := mem_of_mem_dropBlankEnds member
      rw [List.mem_cons] at member
      obtain rfl | member := member
      · exact plain.1
      · obtain ⟨line, found, rfl⟩ := List.mem_map.1 member
        refine (plain.2 line found).drop ?_
        cases filled : isBlankLine line with
        | true => exact .inl rfl
        | false => exact .inr (commonIndent_le found filled)

theorem isBlankLine_spaces (n : Nat) : isBlankLine (spaces n) = true := by
  rw [isBlankLine, List.all_eq_true]
  intro u member
  rw [List.eq_of_mem_replicate member]
  rfl

theorem isBlankLine_indented (n : Nat) (line : Text) : isBlankLine (spaces n ++ line) = isBlankLine line := by
  have blank := isBlankLine_spaces n
  rw [isBlankLine] at blank ⊢
  rw [List.all_append, blank, Bool.true_and]
  rfl

theorem indentOf_indented (n : Nat) (line : Text) : indentOf (spaces n ++ line) = n + indentOf line := by
  have blank := isBlankLine_spaces n
  rw [isBlankLine, List.all_eq_true] at blank
  rw [indentOf, List.takeWhile_append_of_pos blank, List.length_append, spaces, List.length_replicate, indentOf]

theorem IsFlush.indentOf_eq (flush : IsFlush line) : indentOf line = 0 := by
  have opening := flush.2
  cases line with
  | nil => rfl
  | cons u rest => simp [indentOf, show isBlank u = false from opening]

theorem commonIndent_indented (flush : ∃ line ∈ lines, IsFlush line) (n : Nat) :
    commonIndent (lines.map (spaces n ++ ·) ++ [spaces n]) = n := by
  obtain ⟨line, member, flush⟩ := flush
  have found : spaces n ++ line ∈ lines.map (spaces n ++ ·) ++ [spaces n] :=
    List.mem_append_left _ (List.mem_map_of_mem member)
  have filled : isBlankLine (spaces n ++ line) = false := (isBlankLine_indented n line).trans flush.1
  apply Nat.le_antisymm
  · have := commonIndent_le found filled
    rw [indentOf_indented, flush.indentOf_eq] at this
    exact this
  · obtain ⟨least, found, filled, same⟩ := commonIndent_attained found filled
    rw [← same]
    rw [List.mem_append, List.mem_singleton] at found
    obtain found | rfl := found
    · obtain ⟨line, -, rfl⟩ := List.mem_map.1 found
      rw [indentOf_indented]
      exact Nat.le_add_right n _
    · simp [isBlankLine_spaces] at filled

theorem dedent_indented (trimmed : Trimmed lines) (flush : ∃ line ∈ lines, IsFlush line) (n : Nat) :
    dedent ([] :: (lines.map (spaces n ++ ·) ++ [spaces n])) = lines := by
  have dropped : (lines.map (spaces n ++ ·) ++ [spaces n]).map (·.drop n) = lines ++ [[]] := by
    have exact (line : Text) : (spaces n ++ line).drop n = line := List.drop_left' List.length_replicate
    have alone := exact []
    rw [List.append_nil] at alone
    simp [exact, alone, Function.comp_def]
  -- The flush line has no blanks of its own, so exactly the added ones are taken off.
  rw [dedent, commonIndent_indented flush, dropped]
  have kept : dropBlankEnds ([[]] ++ lines ++ [[]]) = lines :=
    dropBlankEnds_append (by simp [isBlankLine]) (by simp [isBlankLine]) trimmed.first trimmed.last
  rw [List.append_assoc] at kept
  exact kept

end QueryPlanner.BlockString
