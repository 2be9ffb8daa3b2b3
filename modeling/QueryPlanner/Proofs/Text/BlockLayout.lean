import QueryPlanner.Proofs.Text.BlockString
import Mathlib.Tactic.Tauto

namespace QueryPlanner.BlockString
open CodeUnit
open Text (spaces unlines IsLine)

variable {a b rest text : Text} {u : CodeUnit}

theorem escape_cons (single : ∀ r, u :: rest ≠ quote :: quote :: quote :: r) : escape (u :: rest) = u :: escape rest := by
  rw [escape.eq_2]
  rintro r rfl rfl
  exact single r rfl

theorem escape_cons_of_ne (other : u ≠ quote) : escape (u :: rest) = u :: escape rest :=
  escape_cons fun _ same => other (List.cons.inj same).1

theorem escape_append_of_ne (other : u ≠ quote) : escape (a ++ u :: b) = escape a ++ u :: escape b := by
  fun_induction escape a with
  | case1 r ih =>
      rw [List.cons_append, List.cons_append, List.cons_append, escape, ih, List.append_assoc]
  | case2 v r single ih =>
      rw [List.cons_append, escape_cons, ih, List.cons_append]
      rintro s same
      match r, same with
      | [], same => exact other (List.cons.inj (List.cons.inj same).2).1
      | [x], same =>
          simp only [List.cons_append, List.nil_append, List.cons.injEq] at same
          exact other same.2.2.1
      | x :: y :: r, same =>
          simp only [List.cons_append, List.cons.injEq] at same
          exact single r same.1 (by rw [same.2.1, same.2.2.1])
  | case3 => rw [List.nil_append, escape_cons_of_ne other, List.nil_append]

theorem escape_unlines (lines : List Text) : escape (unlines lines) = unlines (lines.map escape) := by
  induction lines with
  | nil => rfl
  | cons line rest ih =>
      cases rest with
      | nil => rw [List.map_singleton, Text.unlines_singleton, Text.unlines_singleton]
      | cons next rest =>
          rw [Text.unlines_cons_cons, escape_append_of_ne (by decide), ih]
          exact (Text.unlines_cons_cons _ _ _).symm

theorem escape_isLine (line : IsLine a) : IsLine (escape a) := by
  fun_induction escape a with
  | case1 r ih =>
      have tail : IsLine r := fun v member => line v (by simp [member])
      intro v member
      rw [List.mem_append] at member
      obtain member | member := member
      · exact IsLine.of_all (by decide) v member
      · exact ih tail v member
  | case2 v r single ih =>
      have tail : IsLine r := fun w member => line w (List.mem_cons_of_mem v member)
      exact List.forall_mem_cons.2 ⟨line v List.mem_cons_self, ih tail⟩
  | case3 => exact line

theorem escape_spaces (n : Nat) (a : Text) : escape (spaces n ++ a) = spaces n ++ escape a := by
  induction n with
  | zero => rfl
  | succ n ih =>
      have split : spaces (n + 1) = space :: spaces n := List.replicate_succ
      rw [split, List.cons_append, escape_cons_of_ne (by decide), ih, List.cons_append]

/-- The last unit of the text neither closes it nor escapes the quotes behind it. -/
def Closable (text : Text) : Prop := text.getLast? ≠ some quote ∧ text.getLast? ≠ some backslash

theorem Closable.of_cons (closable : Closable (u :: rest)) : Closable rest := by
  cases rest with
  | nil => exact ⟨nofun, nofun⟩
  | cons v rest => exact closable

inductive Layout (lines : List Text) : List Text → Prop
  | behind : lines.length ≤ 1 → Closable (unlines lines) → Layout lines [unlines lines]
  | above {line : Text} : lines = [line] → Layout lines [line, []]
  | between : (∃ line ∈ lines, IsFlush line) → Layout lines ([] :: (lines ++ [[]]))

theorem lines_escape {lines : List Text} (some : lines ≠ []) (plain : ∀ line ∈ lines, IsLine line) :
    (escape (unlines lines)).lines = lines.map escape := by
  rw [escape_unlines]
  apply Text.lines_unlines
  · simpa using some
  · intro _ member
    obtain ⟨line, found, rfl⟩ := List.mem_map.1 member
    exact escape_isLine (plain line found)

theorem quotes_text : tripleQuote = [quote, quote, quote] := by decide

theorem escapedTripleQuote_text : escapedTripleQuote = [backslash, quote, quote, quote] := by decide

def enclosed (leading trailing : Bool) (text : Text) : Text :=
  tripleQuote ++ (if leading then [lineFeed] else []) ++ escape text ++ (if trailing then [lineFeed] else []) ++ tripleQuote

theorem unlines_append_empty (lines : List Text) (some : lines ≠ []) :
    unlines (lines ++ [[]]) = unlines lines ++ [lineFeed] := by
  induction lines with
  | nil => contradiction
  | cons line rest ih =>
      cases rest with
      | nil =>
          rw [Text.unlines_singleton]
          exact Text.unlines_cons_cons line [] []
      | cons next rest =>
          have ih := ih (List.cons_ne_nil next rest)
          rw [List.cons_append] at ih
          rw [List.cons_append, List.cons_append, Text.unlines_cons_cons, ih, Text.unlines_cons_cons, List.append_assoc,
            List.cons_append]

theorem render_single (short : (escape text).lines.length = 1) : ∃ leading trailing,
    render text = enclosed leading trailing text ∧ (trailing = false → leading = false ∧ Closable text) ∧
      (trailing = true → leading = !beginsBlank text) := by
  have feed : (("\n" : String) : Text) = [lineFeed] := Text.lineFeed_text
  unfold render enclosed
  simp only [short, BEq.rfl, Bool.not_true, Bool.false_and, Bool.or_false, Bool.false_or, Bool.true_and, feed]
  refine ⟨_, _, rfl, fun single => ?_, fun several => ?_⟩
  · obtain ⟨inline, ends⟩ := Bool.or_eq_false_iff.1 single
    obtain ⟨-, unended⟩ := Bool.or_eq_false_iff.1 inline
    simp only [Bool.or_eq_false_iff, Bool.and_eq_false_iff, Bool.not_eq_false', beq_eq_false_iff_ne] at ends
    exact ⟨by rw [inline, Bool.false_and], ends.1.resolve_right (by simp [unended]), ends.2⟩
  · have several : (decide (text.length > maxLineLength) ||
        (text.getLast? == some quote && !escapedTripleQuote.isSuffixOf (escape text) || text.getLast? == some backslash) ||
          escapedTripleQuote.isSuffixOf (escape text)) = true := by
      simp only [Bool.or_eq_true] at several ⊢
      tauto
    rw [several, Bool.true_and]

theorem render_several (several : 1 < (escape text).lines.length) : render text = enclosed true true text := by
  have several : ((escape text).lines.length == 1) = false := by
    rw [beq_eq_false_iff_ne]
    omega
  have feed : (("\n" : String) : Text) = [lineFeed] := Text.lineFeed_text
  unfold render enclosed
  simp only [several, feed]
  simp

theorem enclosed_between {lines : List Text} (some : lines ≠ []) :
    enclosed true true (unlines lines) = tripleQuote ++ unlines (([] :: (lines ++ [[]])).map escape) ++ tripleQuote := by
  have below : ((lines ++ [[]]).map escape) = lines.map escape ++ [[]] := by rw [List.map_append, List.map_singleton, escape]
  have first : unlines ([] :: (lines.map escape ++ [[]])) = lineFeed :: unlines (lines.map escape ++ [[]]) :=
    Text.unlines_nil_cons (by simp)
  rw [enclosed, List.map_cons, below, escape, first, unlines_append_empty _ (by simpa using some), escape_unlines]
  simp

theorem render_layout {lines : List Text} (trimmed : Trimmed lines) (plain : ∀ line ∈ lines, IsLine line) :
    ∃ content, Layout lines content ∧ render (unlines lines) = tripleQuote ++ unlines (content.map escape) ++ tripleQuote := by
  cases lines with
  | nil => exact ⟨[[]], .behind (Nat.zero_le 1) ⟨nofun, nofun⟩, by decide⟩
  | cons line rest =>
      have split := lines_escape (List.cons_ne_nil line rest) plain
      cases rest with
      | nil =>
          rw [Text.unlines_singleton] at split ⊢
          have filled := trimmed.first line rfl
          have short : (escape line).lines.length = 1 := by
            rw [split]
            rfl
          obtain ⟨leading, trailing, written, single, several⟩ := render_single short
          -- A single line moves to a line of its own where it could not stand between the quotes.
          cases trailing with
          | false =>
              obtain ⟨rfl, closable⟩ := single rfl
              have behind : Layout [line] [unlines [line]] := .behind (Nat.le_refl 1) (by rwa [Text.unlines_singleton])
              rw [Text.unlines_singleton] at behind
              refine ⟨[line], behind, ?_⟩
              rw [written, enclosed]
              simp
          | true =>
              cases blank : beginsBlank line with
              | true =>
                  refine ⟨[line, []], .above rfl, ?_⟩
                  rw [written, several rfl, blank, enclosed]
                  simp [escape]
              | false =>
                  refine ⟨_, .between ⟨line, List.mem_singleton_self line, filled, blank⟩, ?_⟩
                  rw [written, several rfl, blank, ← enclosed_between (List.cons_ne_nil line []), Text.unlines_singleton]
                  rfl
      | cons next rest =>
          have flush := trimmed.flush (by simp)
          refine ⟨_, .between flush, ?_⟩
          rw [render_several (by rw [split]; simp), enclosed_between (List.cons_ne_nil line _)]

end QueryPlanner.BlockString
