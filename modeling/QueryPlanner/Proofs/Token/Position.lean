import QueryPlanner.Proofs.Text.LineEnds
import QueryPlanner.Proofs.Token.Coverage

namespace QueryPlanner
open CodeUnit
open Text (Apart IsLine lastLineStart)

theorem Text.lastLineStart_append (start : Nat) (front back : List (Nat × Nat)) :
    lastLineStart start (front ++ back) = lastLineStart (lastLineStart start front) back := by
  cases back with
  | nil => rw [List.append_nil]; rfl
  | cons lineEnd back =>
      unfold lastLineStart
      rw [List.getLast?_append_of_ne_nil _ (List.cons_ne_nil lineEnd back), List.getLast?_cons]
      rfl

theorem Text.lastLineStart_le {start bound : Nat} {lineEnds : List (Nat × Nat)} (low : start ≤ bound)
    (all : ∀ lineEnd ∈ lineEnds, lineEnd.1 + lineEnd.2 ≤ bound) : lastLineStart start lineEnds ≤ bound := by
  unfold lastLineStart
  cases last : lineEnds.getLast? with
  | none => exact low
  | some lineEnd => exact all lineEnd (List.mem_of_getLast? last)

namespace Cursor

variable {c c₁ c' : Cursor} {text mid rest units a b body : Text}

def past (c : Cursor) (text : Text) : Cursor where
  offset := c.offset + text.length
  line := c.line + (text.lineEnds c.offset).length
  lineStart := lastLineStart c.lineStart (text.lineEnds c.offset)

theorem past_append (apart : Apart a b) : c.past (a ++ b) = (c.past a).past b := by
  unfold past
  rw [Text.lineEnds_append apart, List.length_append, List.length_append, Text.lastLineStart_append, Nat.add_assoc,
    Nat.add_assoc]

theorem past_line (line : IsLine text) : c.past text = c.advance text.length := by
  rw [past, Text.lineEnds_line line]
  rfl

def Moves (text : Text) (c : Cursor) (rest : Text) (c' : Cursor) : Prop :=
  ∃ taken, text = taken ++ rest ∧ Apart taken rest ∧ c' = c.past taken

namespace Moves

theorem refl (text : Text) (c : Cursor) : Moves text c text c := ⟨[], rfl, .nil, rfl⟩

theorem trans (first : Moves text c mid c₁) (second : Moves mid c₁ rest c') : Moves text c rest c' := by
  obtain ⟨a, rfl, apart, rfl⟩ := first
  obtain ⟨b, rfl, apart', rfl⟩ := second
  exact ⟨a ++ b, (List.append_assoc a b rest).symm, apart.append apart', (past_append apart.of_append).symm⟩

theorem line (units : Text) (line : IsLine units) : Moves (units ++ rest) c rest (c.advance units.length) :=
  ⟨units, rfl, .of_line line, (past_line line).symm⟩

theorem unit {u : CodeUnit} (plain : u.isLineEnd = false) : Moves (u :: rest) c rest (c.advance 1) :=
  .line [u] (List.forall_mem_singleton.2 plain)

theorem lineFeed : Moves (CodeUnit.lineFeed :: rest) c rest (c.newLine 1) := ⟨[CodeUnit.lineFeed], rfl, nofun, rfl⟩

theorem lineFeed_of_return : Moves (carriageReturn :: CodeUnit.lineFeed :: rest) c rest (c.newLine 2) :=
  ⟨[carriageReturn, CodeUnit.lineFeed], rfl, nofun, rfl⟩

theorem carriageReturn (single : ∀ after, rest = CodeUnit.lineFeed :: after → False) :
    Moves (CodeUnit.carriageReturn :: rest) c rest (c.newLine 1) := by
  refine ⟨[CodeUnit.carriageReturn], rfl, fun _ first => ?_, rfl⟩
  obtain ⟨after, rfl⟩ := List.head?_eq_some_iff.1 first
  exact single after rfl

end Moves

end Cursor

open Cursor (Moves)

namespace BlockLiteral

def Reading.cursor (line : Nat) (r : Reading) : Cursor := ⟨r.offset, line + r.before.length, r.lineStart⟩

theorem characters_moves {start : Nat} {text : Text} {r : Reading} {scanned : Scanned} (line : Nat)
    (h : characters start text r = .ok scanned) :
    Moves text (r.cursor line) scanned.rest ⟨scanned.stop, line + scanned.lineEnds, scanned.lineStart⟩ := by
  fun_induction characters start text r with
  | case1 => contradiction
  | case2 rest r =>
      obtain rfl := Except.ok.inj h
      exact .line BlockString.tripleQuote (.of_all (by decide))
  | case3 rest r ih => exact (Moves.line (0x5c :: BlockString.tripleQuote) (.of_all (by decide))).trans (ih h)
  | case4 rest r ih => exact Moves.lineFeed.trans (ih h)
  | case5 rest r ih => exact Moves.lineFeed_of_return.trans (ih h)
  | case6 rest r single ih => exact (Moves.carriageReturn single).trans (ih h)
  | case7 => contradiction
  | case8 u v rest r _ _ feed _ ret _ ih => exact (Moves.unit (Text.isLineEnd_of_ne feed ret)).trans (ih h)
  | case9 u v rest r _ _ feed _ ret _ pair ih =>
      have second := isLineEnd_of_surrogate (Text.isScalar_of_pair pair).2
      exact (Moves.unit (Text.isLineEnd_of_ne feed ret)).trans ((Moves.unit second).trans (ih h))
  | case10 => contradiction

end BlockLiteral

namespace Scan

theorem skipIgnored_moves (text : Text) (c : Cursor) : Moves text c (skipIgnored text c).1 (skipIgnored text c).2 := by
  fun_induction skipIgnored text c with
  | case1 rest c ih => exact Moves.lineFeed.trans ih
  | case2 rest c ih => exact Moves.lineFeed_of_return.trans ih
  | case3 rest c single ih => exact (Moves.carriageReturn single).trans ih
  | case4 u rest c feed _ ret skipped ih => exact (Moves.unit (Text.isLineEnd_of_ne feed ret)).trans ih
  | case5 => exact .refl _ _
  | case6 => exact .refl _ _

theorem name_line {u : CodeUnit} (letter : isNameStart u = true) (rest : Text) :
    IsLine (u :: rest.takeWhile isNameContinue) := by
  have continues : isNameContinue u = true := by simp [isNameContinue, letter]
  refine List.forall_mem_cons.2 ⟨(ReadsToken.isSolid_of_isNameContinue continues).1, fun v member => ?_⟩
  exact (ReadsToken.isSolid_of_isNameContinue (List.all_eq_true.1 List.all_takeWhile v member)).1

variable {text : Text} {c : Cursor} {step : Step}

theorem lexeme_moves (h : lexeme text c = .ok step) :
    (∃ kind size value, step.token = c.token kind size value) ∧ Moves text c step.rest step.cursor := by
  unfold lexeme at h
  split at h
  · obtain rfl := Except.ok.inj h
    exact ⟨⟨_, _, _, rfl⟩, .refl _ _⟩
  · obtain rfl := Except.ok.inj h
    exact ⟨⟨_, _, _, rfl⟩, .line [0x2e, 0x2e, 0x2e] (.of_all rfl)⟩
  · obtain ⟨literal, read, h⟩ := Run.except_bind_ok.1 h
    obtain rfl := Except.ok.inj h
    have inside := BlockLiteral.characters_moves c.line read
    exact ⟨⟨_, _, _, rfl⟩, (Moves.line BlockString.tripleQuote (.of_all (by decide))).trans inside⟩
  · rename_i u rest _ _
    split_ifs at h with hash quoted digit letter
    · obtain rfl := Except.ok.inj h
      have whole : Moves ((u :: (comment rest).1) ++ (comment rest).2) c _ _ :=
        .line _ (List.forall_mem_cons.2 ⟨hash ▸ rfl, (comment_sound rest).2.1⟩)
      rw [List.cons_append, ← (comment_sound rest).1] at whole
      exact ⟨⟨_, _, _, rfl⟩, whole⟩
    · obtain ⟨literal, read, h⟩ := Run.except_bind_ok.1 h
      obtain rfl := Except.ok.inj h
      obtain ⟨taken, rfl, stop, line⟩ := StringLiteral.characters_leaves read (List.forall_mem_nil _)
      have size : literal.stop - c.offset = (u :: taken).length := by
        rw [stop, List.length_cons]
        omega
      rw [size]
      exact ⟨⟨_, _, _, rfl⟩, .line (u :: taken) (List.forall_mem_cons.2 ⟨quoted ▸ rfl, line⟩)⟩
    · obtain ⟨⟨kind, part⟩, read, h⟩ := Run.except_bind_ok.1 h
      obtain rfl := Except.ok.inj h
      obtain ⟨number, whole⟩ := Number.scan_sound read
      exact ⟨⟨_, _, _, rfl⟩, whole ▸ .line _ number.line⟩
    · obtain rfl := Except.ok.inj h
      have whole : Moves ((u :: rest.takeWhile isNameContinue) ++ rest.dropWhile isNameContinue) c _ _ :=
        .line _ (name_line letter rest)
      rw [List.cons_append, List.takeWhile_append_dropWhile] at whole
      exact ⟨⟨_, _, _, rfl⟩, whole⟩
    · split at h
      · rename_i kind found
        obtain rfl := Except.ok.inj h
        have plain : u.isLineEnd = false :=
          Text.isLineEnd_of_ne (by rintro rfl; contradiction) (by rintro rfl; contradiction)
        exact ⟨⟨_, _, _, rfl⟩, .unit plain⟩
      · contradiction

theorem next_moves (h : next text c = .ok step) :
    (∃ rest c', Moves text c rest c' ∧ ∃ kind size value, step.token = c'.token kind size value) ∧
      Moves text c step.rest step.cursor := by
  have skipped := skipIgnored_moves text c
  obtain ⟨shown, moves⟩ := lexeme_moves h
  exact ⟨⟨_, _, skipped, shown⟩, skipped.trans moves⟩

end Scan

theorem TokenStream.scan_moves (fuel : Nat) (text : Text) (c : Cursor) : ∀ t ∈ (scan fuel text c).tokens,
    ∃ rest c', Moves text c rest c' ∧ ∃ kind size value, t = c'.token kind size value := by
  induction fuel generalizing text c with
  | zero => exact List.forall_mem_singleton.2 ⟨text, c, .refl text c, _, _, _, rfl⟩
  | succ fuel ih =>
      cases next : Scan.next text c with
      | error fault =>
          rw [scan, next]
          exact List.forall_mem_nil _
      | ok step =>
          obtain ⟨here, moves⟩ := Scan.next_moves next
          have later (t : Token) (member : t ∈ (scan fuel step.rest step.cursor).tokens) :
              ∃ rest c', Moves text c rest c' ∧ ∃ kind size value, t = c'.token kind size value := by
            obtain ⟨rest, c', moves', shown⟩ := ih _ _ t member
            exact ⟨rest, c', moves.trans moves', shown⟩
          by_cases last : step.token.kind = .endOfFile
          · rw [scan_endOfFile next last]
            exact List.forall_mem_singleton.2 here
          by_cases comment : step.token.kind = .comment
          · rw [scan_comment next comment]
            exact later
          · rw [scan_token next last comment]
            exact List.forall_mem_cons.2 ⟨here, later⟩

structure Token.IsPlacedIn (body : Text) (t : Token) : Prop where
  line : t.line = 1 + (body.lineEndsBefore t.start).length
  column : (t.column : Int) = 1 + t.start - lastLineStart 0 (body.lineEndsBefore t.start)
  located : body.lineColumn t.start = ⟨t.line, t.column⟩

theorem Cursor.Moves.isPlacedIn {body rest : Text} {c : Cursor} (moves : Moves body .start rest c) (kind : TokenKind)
    (size : Nat) (value : Text) : (c.token kind size value).IsPlacedIn body := by
  obtain ⟨taken, rfl, apart, rfl⟩ := moves
  have offset : (Cursor.start.past taken).offset = taken.length := Nat.zero_add _
  have bounded : lastLineStart 0 (taken.lineEnds 0) ≤ taken.length :=
    Text.lastLineStart_le (Nat.zero_le _) fun lineEnd member => by
      have := Text.lineEnds_bounds taken 0 lineEnd member
      omega
  have column : (((Cursor.start.past taken).token kind size value).column : Int) =
      1 + taken.length - lastLineStart 0 (taken.lineEnds 0) := by
    change ((1 + (0 + taken.length) - lastLineStart 0 (taken.lineEnds 0) : Nat) : Int) = _
    omega
  refine ⟨?_, ?_, ?_⟩
  · rw [Cursor.token, offset, Text.lineEndsBefore_append apart]
    rfl
  · rw [column, Cursor.token, offset, Text.lineEndsBefore_append apart]
  · rw [column, Cursor.token, offset, Text.lineColumn_append apart]
    rfl

theorem TokenStream.ofText_isPlacedIn (body : Text) : ∀ t ∈ (ofText body).tokens, t.IsPlacedIn body := by
  intro t member
  obtain ⟨rest, c, moves, kind, size, value, rfl⟩ := scan_moves _ body .start t member
  exact moves.isPlacedIn kind size value

end QueryPlanner
