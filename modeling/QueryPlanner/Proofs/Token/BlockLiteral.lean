import QueryPlanner.Token.BlockLiteral
import QueryPlanner.Proofs.Text.BlockLayout

namespace QueryPlanner.BlockString

def Normal (text : Text) : Prop := ∃ lines, text = Text.unlines lines ∧ Trimmed lines ∧ ∀ line ∈ lines, IsPlain line

end QueryPlanner.BlockString

namespace QueryPlanner.BlockLiteral
open CodeUnit BlockString
open Text (spaces unlines IsLine)

variable {start n : Nat} {r : Reading} {u v : CodeUnit} {rest text tail after line : Text}

namespace Reading

def Plain (r : Reading) : Prop := (∀ line ∈ r.before, IsPlain line) ∧ IsPlain r.current.reverse

theorem Plain.push {units : Text} (plain : r.Plain) (size : Nat) (more : IsPlain units) : (r.push units size).Plain := by
  refine ⟨plain.1, ?_⟩
  have current : (r.push units size).current.reverse = r.current.reverse ++ units := by simp [Reading.push]
  rw [current]
  refine ⟨plain.2.1.append more.1, fun u member => ?_⟩
  rw [List.mem_append] at member
  exact member.elim (plain.2.2 u) (more.2 u)

theorem Plain.endLine (plain : r.Plain) (size : Nat) : (r.endLine size).Plain :=
  ⟨List.forall_mem_cons.2 ⟨plain.2, plain.1⟩, Text.WellFormed.nil, nofun⟩

theorem Plain.lines (plain : r.Plain) : ∀ line ∈ r.lines, IsPlain line := by
  intro line member
  rw [Reading.lines, List.mem_reverse, List.mem_cons] at member
  obtain rfl | member := member
  · exact plain.2
  · exact plain.1 line member

end Reading

theorem isPlain_tripleQuote : IsPlain tripleQuote := by
  rw [quotes_text]
  exact ⟨by decide, IsLine.of_all (by decide)⟩

theorem isPlain_scalar (single : u.isScalar = true) (inside : u.isLineEnd = false) : IsPlain [u] :=
  ⟨(Text.WellFormed.scalar single).2 .nil, by simpa [IsLine] using inside⟩

theorem isLineEnd_of_surrogate (half : u.isScalar = false) : u.isLineEnd = false := by
  simp only [isLineEnd, Bool.or_eq_false_iff, beq_eq_false_iff_ne]
  constructor <;> rintro rfl <;> contradiction

theorem isPlain_pair (pair : Text.isPair u v = true) : IsPlain [u, v] := by
  obtain ⟨lead, trail⟩ := Text.isScalar_of_pair pair
  refine ⟨(Text.WellFormed.pair pair).2 .nil, ?_⟩
  simp [IsLine, isLineEnd_of_surrogate lead, isLineEnd_of_surrogate trail]

theorem characters_normal {scanned : Scanned} (h : characters start text r = .ok scanned) (plain : r.Plain) :
    Normal scanned.value := by
  fun_induction characters start text r with
  | case1 => contradiction
  | case2 rest r =>
      obtain rfl := Except.ok.inj h
      refine ⟨dedent r.lines, ?_, dedent_trimmed r.lines, dedent_plain plain.lines⟩
      rw [BlockString.ofLines, Text.lineFeed_text]
      rfl
  | case3 rest r ih => exact ih h (plain.push 4 isPlain_tripleQuote)
  | case4 rest r ih => exact ih h (plain.endLine 1)
  | case5 rest r ih => exact ih h (plain.endLine 2)
  | case6 rest r _ ih => exact ih h (plain.endLine 1)
  | case7 => contradiction
  | case8 u v rest r _ _ feed _ back single ih =>
      have inside : u.isLineEnd = false := by
        simp only [isLineEnd, Bool.or_eq_false_iff, beq_eq_false_iff_ne]
        exact ⟨feed, back⟩
      exact ih h (plain.push 1 (isPlain_scalar single inside))
  | case9 u v rest r _ _ _ _ _ _ pair ih => exact ih h (plain.push 2 (isPlain_pair pair))
  | case10 => contradiction

def ReadsAs (text units rest : Text) : Prop := ∀ start r, ∃ offset,
  characters start text r = characters start rest { r with offset, current := units.reverse ++ r.current }

theorem readsAs_scalar (some : rest ≠ []) (single : u.isScalar = true) (inside : u.isLineEnd = false)
    (open' : ∀ t, u = quote → rest ≠ quote :: quote :: t) (escaped : ∀ t, u = backslash → rest ≠ quote :: quote :: quote :: t) :
    ReadsAs (u :: rest) [u] rest := by
  intro start r
  refine ⟨r.offset + 1, ?_⟩
  simp only [isLineEnd, Bool.or_eq_false_iff, beq_eq_false_iff_ne] at inside
  cases rest with
  | nil => contradiction
  | cons v rest =>
      rw [characters.eq_8]
      · rw [if_pos single]
        rfl
      · rintro t rfl rfl rfl
        exact open' t rfl rfl
      · rintro t rfl rfl rfl
        exact escaped t rfl rfl
      · exact inside.1
      · exact fun back _ => inside.2 back
      · exact inside.2

theorem readsAs_pair (pair : Text.isPair u v = true) : ReadsAs (u :: v :: rest) [u, v] rest := by
  intro start r
  refine ⟨r.offset + 2, ?_⟩
  obtain ⟨lead, -⟩ := Text.isScalar_of_pair pair
  rw [characters.eq_8]
  · rw [if_neg (by simp [lead]), if_pos pair]
    rfl
  all_goals intros; subst_vars; contradiction

theorem readsAs_tripleQuote (rest : Text) :
    ReadsAs (backslash :: quote :: quote :: quote :: rest) [quote, quote, quote] rest := by
  intro start r
  refine ⟨r.offset + 4, ?_⟩
  rw [characters, quotes_text]
  rfl

theorem escape_append_ne_quote (other : ∀ t, rest ≠ quote :: t) (closable : Closable (quote :: rest)) :
    ∀ t, escape rest ++ tail ≠ quote :: t := by
  intro t
  cases rest with
  | nil => exact absurd rfl closable.1
  | cons a rest =>
      have other : a ≠ quote := fun same => other rest (by rw [same])
      rw [escape_cons_of_ne other, List.cons_append, ne_eq, List.cons.injEq, not_and]
      exact fun same => (other same).elim

theorem escape_append_ne_quotes (other : ∀ t, rest ≠ quote :: quote :: t) (closable : Closable (quote :: rest)) :
    ∀ t, escape rest ++ tail ≠ quote :: quote :: t := by
  intro t
  cases rest with
  | nil => exact absurd rfl closable.1
  | cons a rest =>
      by_cases quoted : a = quote
      · subst quoted
        have single (t : Text) : rest ≠ quote :: t := fun same => other t (by rw [same])
        rw [escape_cons (by rintro t ⟨⟩; exact single _ rfl), List.cons_append, ne_eq, List.cons.injEq, not_and]
        exact fun _ => escape_append_ne_quote single closable.of_cons t
      · rw [escape_cons_of_ne quoted, List.cons_append, ne_eq, List.cons.injEq, not_and]
        exact fun same => (quoted same).elim

theorem escape_append_ne_tripleQuote (closable : Closable (backslash :: rest)) :
    ∀ t, escape rest ++ tail ≠ quote :: quote :: quote :: t := by
  intro t
  fun_cases escape rest with
  | case1 r =>
      rw [escapedTripleQuote_text]
      rintro ⟨⟩
  | case2 a r single =>
      rw [List.cons_append, ne_eq, List.cons.injEq, not_and]
      rintro rfl
      have other (t : Text) : r ≠ quote :: quote :: t := fun same => single t rfl same
      exact escape_append_ne_quotes other closable.of_cons _
  | case3 => exact absurd rfl closable.2

theorem escape_append_ne_lineFeed (other : ∀ t, rest ≠ lineFeed :: t) (after : Text) :
    ∀ t, escape rest ++ (tripleQuote ++ after) ≠ lineFeed :: t := by
  intro t
  fun_cases escape rest with
  | case1 r =>
      rw [escapedTripleQuote_text]
      rintro ⟨⟩
  | case2 a r single =>
      rw [List.cons_append, ne_eq, List.cons.injEq, not_and]
      rintro rfl
      exact absurd rfl (other r)
  | case3 =>
      rw [quotes_text]
      rintro ⟨⟩

def Yields (result : Except LexicalFault Scanned) (value rest : Text) : Prop :=
  ∃ stop lineEnds lineStart, result = .ok ⟨value, stop, lineEnds, lineStart, rest⟩

theorem ReadsAs.yields {units value : Text} (reads : ReadsAs text units rest)
    (yields : ∀ offset, Yields (characters start rest { r with offset, current := units.reverse ++ r.current }) value after) :
    Yields (characters start text r) value after := by
  obtain ⟨offset, read⟩ := reads start r
  rw [read]
  exact yields offset

theorem characters_escape (whole : text.WellFormed) (closable : Closable text) :
    Yields (characters start (escape text ++ (tripleQuote ++ after)) r)
      (BlockString.ofLines (r.before.reverse ++ Text.linesFrom r.current text)) after := by
  -- Three quotes are escaped at once and two units may end a line, so the induction is on the length.
  induction size : text.length using Nat.strong_induction_on generalizing text r with
  | _ size ih =>
      subst size
      cases whole.characters with
      | nil =>
          refine ⟨r.offset + 3, r.before.length, r.lineStart, ?_⟩
          rw [escape, quotes_text, List.nil_append, List.cons_append, List.cons_append, List.cons_append, List.nil_append,
            characters]
          simp [Reading.lines, Text.linesFrom]
      | @scalar u rest single _ =>
          have inner := (Text.WellFormed.scalar single).1 whole
          have below (r : Reading) := ih rest.length (Nat.lt_succ_self _) inner closable.of_cons (r := r) rfl
          by_cases feed : u = lineFeed
          · subst feed
            have ended := below (r.endLine 1)
            rw [escape_cons_of_ne (by decide), List.cons_append, characters]
            simpa [Reading.endLine, Text.linesFrom] using ended
          by_cases back : u = carriageReturn
          · subst back
            rw [escape_cons_of_ne (by decide), List.cons_append]
            by_cases both : ∃ rest', rest = lineFeed :: rest'
            · obtain ⟨rest', rfl⟩ := both
              have ended := ih rest'.length (by simp only [List.length_cons]; omega)
                ((Text.WellFormed.scalar rfl).1 inner) closable.of_cons.of_cons (r := r.endLine 2) rfl
              rw [escape_cons_of_ne (by decide), List.cons_append, characters]
              simpa [Reading.endLine, Text.linesFrom] using ended
            · have alone (t : Text) : rest ≠ lineFeed :: t := fun same => both ⟨t, same⟩
              have ended := below (r.endLine 1)
              rw [characters.eq_6 _ _ _ (escape_append_ne_lineFeed alone after), Text.linesFrom.eq_4 _ _ alone]
              simpa [Reading.endLine] using ended
          have inside : u.isLineEnd = false := Text.isLineEnd_of_ne feed back
          by_cases triple : ∃ rest', u :: rest = quote :: quote :: quote :: rest'
          · obtain ⟨rest', same⟩ := triple
            rw [same] at whole closable ih ⊢
            have inner : Text.WellFormed rest' := whole.of_append_scalars (a := [quote, quote, quote]) (List.all_eq_true.1 (by decide))
            exact (readsAs_tripleQuote _).yields fun offset =>
              ih rest'.length (by simp only [List.length_cons]; omega) inner closable.of_cons.of_cons.of_cons rfl
          · have other (t : Text) : u :: rest ≠ quote :: quote :: quote :: t := fun same => triple ⟨t, same⟩
            rw [escape_cons other, List.cons_append, Text.linesFrom_cons _ _ inside]
            refine (readsAs_scalar (by simp [quotes_text]) single inside ?_ ?_).yields fun offset => below _
            · rintro t rfl
              exact escape_append_ne_quotes (fun t same => other t (by rw [same])) closable t
            · rintro t rfl
              exact escape_append_ne_tripleQuote closable t
      | @pair u v rest both _ =>
          obtain ⟨lead, trail⟩ := Text.isScalar_of_pair both
          have uOther : u ≠ quote := by rintro rfl; contradiction
          have vOther : v ≠ quote := by rintro rfl; contradiction
          rw [escape_cons_of_ne uOther, escape_cons_of_ne vOther, List.cons_append, List.cons_append,
            Text.linesFrom_cons _ _ (isLineEnd_of_surrogate lead), Text.linesFrom_cons _ _ (isLineEnd_of_surrogate trail)]
          exact (readsAs_pair both).yields fun offset =>
            ih rest.length (by simp only [List.length_cons]; omega) ((Text.WellFormed.pair both).1 whole)
              closable.of_cons.of_cons rfl

theorem closable_unlines {lines : List Text} (closable : ∀ line ∈ lines.getLast?, Closable line) : Closable (unlines lines) := by
  induction lines with
  | nil => exact ⟨nofun, nofun⟩
  | cons line rest ih =>
      cases rest with
      | nil =>
          rw [Text.unlines_singleton]
          exact closable line rfl
      | cons next rest =>
          have below := ih (by simpa using closable)
          rw [Text.unlines_cons_cons]
          generalize unlines (next :: rest) = text at below
          cases text with
          | nil => exact ⟨by simp; decide, by simp; decide⟩
          | cons u text =>
              rw [Closable, List.getLast?_append_of_ne_nil _ (List.cons_ne_nil _ _), List.getLast?_cons_cons]
              exact below

theorem closable_spaces (n : Nat) : Closable (spaces n) := by
  constructor <;> intro last <;> have := List.eq_of_mem_replicate (List.mem_of_getLast? last) <;> contradiction

theorem isPlain_spaces (n : Nat) : IsPlain (spaces n) := by
  constructor
  · apply Text.WellFormed.of_all
    intro u member
    rw [List.eq_of_mem_replicate member]
    rfl
  · intro u member
    rw [List.eq_of_mem_replicate member]
    rfl

theorem isPlain_indented (plain : IsPlain line) (n : Nat) : IsPlain (spaces n ++ line) := by
  refine ⟨(isPlain_spaces n).1.append plain.1, fun u member => ?_⟩
  rw [List.mem_append] at member
  exact member.elim ((isPlain_spaces n).2 u) (plain.2 u)

theorem layout_read {lines content : List Text} (trimmed : Trimmed lines) (plain : ∀ line ∈ lines, IsPlain line)
    (layout : Layout lines content) (n : Nat) : ∃ first others, content = first :: others ∧
      (∀ line ∈ first :: others.map (spaces n ++ ·), IsPlain line) ∧
      (∀ line ∈ (first :: others.map (spaces n ++ ·)).getLast?, Closable line) ∧
      dedent (first :: others.map (spaces n ++ ·)) = lines := by
  cases layout with
  | behind short closable =>
      refine ⟨_, [], rfl, ?_, by simpa using closable, ?_⟩
      · cases lines with
        | nil => exact List.forall_mem_singleton.2 (isPlain_spaces 0)
        | cons line rest =>
            obtain rfl := List.eq_nil_of_length_eq_zero (Nat.le_zero.1 (Nat.le_of_succ_le_succ short))
            simpa using plain
      · cases lines with
        | nil => rfl
        | cons line rest =>
            obtain rfl := List.eq_nil_of_length_eq_zero (Nat.le_zero.1 (Nat.le_of_succ_le_succ short))
            rw [Text.unlines_singleton]
            exact dedent_single (trimmed.first line rfl) nofun
  | above one =>
      rename_i line
      subst one
      refine ⟨line, [[]], rfl, ?_, ?_, ?_⟩
      · simpa using ⟨plain line (List.mem_singleton_self line), isPlain_spaces n⟩
      · simpa using closable_spaces n
      · exact dedent_single (trimmed.first line rfl) (by simpa using isBlankLine_spaces n)
  | between flush =>
      have below : (lines ++ [[]]).map (spaces n ++ ·) = lines.map (spaces n ++ ·) ++ [spaces n] := by simp
      refine ⟨[], lines ++ [[]], rfl, ?_, ?_, ?_⟩
      · rw [below, List.forall_mem_cons]
        refine ⟨isPlain_spaces 0, fun _ member => ?_⟩
        rw [List.mem_append, List.mem_singleton] at member
        obtain member | rfl := member
        · obtain ⟨line, found, rfl⟩ := List.mem_map.1 member
          exact isPlain_indented (plain line found) n
        · exact isPlain_spaces n
      · rw [below, ← List.cons_append, List.getLast?_concat]
        rintro _ ⟨⟩
        exact closable_spaces n
      · rw [below]
        exact dedent_indented trimmed flush n

theorem shift_render (normal : Normal text) (n : Nat) : ∃ inner : Text, inner.WellFormed ∧ Closable inner ∧
    Text.shift n (render text) = tripleQuote ++ (escape inner ++ tripleQuote) ∧ BlockString.ofLines inner.lines = text := by
  obtain ⟨lines, rfl, trimmed, plain⟩ := normal
  obtain ⟨content, layout, written⟩ := render_layout trimmed fun line member => (plain line member).2
  obtain ⟨first, others, rfl, plain', closable, read⟩ := layout_read trimmed plain layout n
  have quotes : Text.shift n tripleQuote = tripleQuote := Text.shift_eq_self n isPlain_tripleQuote.2.lineFeed_not_mem
  have moved : (others.map (spaces n ++ ·)).map escape = (others.map escape).map (spaces n ++ ·) := by
    simp [Function.comp_def, escape_spaces]
  have others' : ∀ line ∈ others.map escape, IsLine line := by
    intro _ member
    obtain ⟨line, found, rfl⟩ := List.mem_map.1 member
    have plain := plain' _ (List.mem_cons_of_mem first (List.mem_map_of_mem found))
    exact escape_isLine fun u inside => plain.2 u (List.mem_append_right _ inside)
  refine ⟨unlines (first :: others.map (spaces n ++ ·)), Text.wellFormed_unlines.2 fun line member => (plain' line member).1,
    closable_unlines closable, ?_, ?_⟩
  · rw [written, Text.shift_append, Text.shift_append, quotes, List.map_cons, escape_unlines, List.map_cons, moved,
      Text.shift_unlines n (escape_isLine (plain' first List.mem_cons_self).2) others', List.append_assoc]
  · rw [Text.lines_unlines (List.cons_ne_nil _ _) fun line member => (plain' line member).2, BlockString.ofLines,
      Text.lineFeed_text, read]
    rfl

end QueryPlanner.BlockLiteral
