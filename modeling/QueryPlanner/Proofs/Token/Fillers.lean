import QueryPlanner.Proofs.Token.Rereading

/-!
# Text between tokens

Blanks, commas, byte order marks, line ends and closed comments are skipped wherever they stand. A source that can be
read is laid out as filler and tokens; what its tokens hold can be told from such a layout.
-/

namespace QueryPlanner
open CodeUnit

namespace Text

def IsComment (text : Text) : Prop := ∃ inside : Text, text = 0x23 :: inside ∧ inside.WellFormed ∧ inside.IsLine

/-- Blanks, commas, byte order marks, line ends, and comments that are closed by a line end. -/
inductive IsFiller : Text → Prop
  | nil : IsFiller []
  | unit {u : CodeUnit} {rest : Text} : u.isLineEnd = true ∨ Scan.isIgnored u = true → IsFiller rest → IsFiller (u :: rest)
  | comment {comment rest : Text} {u : CodeUnit} : comment.IsComment → u.isLineEnd = true → IsFiller rest →
      IsFiller (comment ++ u :: rest)

inductive IsEnding : Text → Prop
  | filler {gap : Text} : gap.IsFiller → IsEnding gap
  | comment {gap comment : Text} : gap.IsFiller → comment.IsComment → IsEnding (gap ++ comment)

variable {a b gap comment rest : Text} {u : CodeUnit}

theorem IsFiller.append (first : a.IsFiller) (second : b.IsFiller) : (a ++ b).IsFiller := by
  induction first with
  | nil => exact second
  | unit skipped _ ih => exact .unit skipped ih
  | comment inside ends _ ih =>
      rw [List.append_assoc]
      exact .comment inside ends ih

theorem IsFiller.of_units (skipped : ∀ u ∈ gap, u.isLineEnd = true ∨ Scan.isIgnored u = true) : gap.IsFiller := by
  induction gap with
  | nil => exact .nil
  | cons u gap ih =>
      obtain ⟨first, others⟩ := List.forall_mem_cons.1 skipped
      exact .unit first (ih others)

theorem IsComment.append (first : IsComment comment) (wellFormed : a.WellFormed) (line : IsLine a) :
    (comment ++ a).IsComment := by
  obtain ⟨inside, rfl, whole, plain⟩ := first
  exact ⟨inside ++ a, rfl, whole.append wellFormed, List.forall_mem_append.2 ⟨plain, line⟩⟩

theorem isScalar_of_isIgnored (ignored : Scan.isIgnored u = true) : u.isScalar = true := by
  by_contra half
  rw [Scan.isIgnored_of_surrogate (by simpa using half)] at ignored
  contradiction

theorem IsFiller.behind_comment (filler : a.IsFiller) (inside : IsComment comment) :
    (comment ++ a).IsFiller ∨ (comment ++ a).IsComment := by
  induction filler generalizing comment with
  | nil => exact .inr (by rwa [List.append_nil])
  | @unit u rest skipped filler ih =>
      by_cases ends : u.isLineEnd = true
      · exact .inl (.comment inside ends filler)
      · -- The comment swallows the unit, and the rest stands behind a longer one.
        have ignored := skipped.resolve_left ends
        have longer : (comment ++ [u]).IsComment :=
          inside.append ((WellFormed.scalar (isScalar_of_isIgnored ignored)).2 .nil) (by simpa [IsLine] using ends)
        have := ih longer
        rwa [List.append_assoc, List.singleton_append] at this
  | @comment comment' rest u inside' ends filler ih =>
      obtain ⟨text, rfl, wellFormed, line⟩ := inside'
      refine .inl ?_
      rw [← List.append_assoc]
      exact .comment (inside.append ((WellFormed.scalar rfl).2 wellFormed) (List.forall_mem_cons.2 ⟨rfl, line⟩)) ends filler

theorem IsFiller.close (filler : gap.IsFiller) (inside : IsComment comment)
    (stops : (gap ++ rest).Stops (!·.isLineEnd)) : gap = [] ∨ (comment ++ gap).IsFiller := by
  cases filler with
  | nil => exact .inl rfl
  | unit _ filler => exact .inr (.comment inside (by simpa using stops _ rfl) filler)
  | comment inside' =>
      obtain ⟨_, rfl, -⟩ := inside'
      exact absurd (stops 0x23 rfl) (by decide)

theorem IsEnding.prepend (filler : a.IsFiller) (ending : gap.IsEnding) : (a ++ gap).IsEnding := by
  cases ending with
  | filler gap => exact .filler (filler.append gap)
  | comment gap inside =>
      rw [← List.append_assoc]
      exact .comment (filler.append gap) inside

theorem IsEnding.append (ending : gap.IsEnding) (filler : a.IsFiller) : (gap ++ a).IsEnding := by
  cases ending with
  | filler gap => exact .filler (gap.append filler)
  | comment gap inside =>
      rw [List.append_assoc]
      obtain closed | swallowed := filler.behind_comment inside
      · exact .filler (gap.append closed)
      · exact .comment gap swallowed

theorem joins_of_skipped (skipped : u.isLineEnd = true ∨ Scan.isIgnored u = true) : u.joins = false := by
  rw [joins, Bool.or_eq_false_iff, Bool.or_eq_false_iff, beq_eq_false_iff_ne, beq_eq_false_iff_ne]
  refine ⟨⟨?_, ?_⟩, ?_⟩
  · by_contra continues
    obtain ⟨line, kept⟩ := ReadsToken.isSolid_of_isNameContinue (by simpa using continues)
    rw [line, kept] at skipped
    exact skipped.elim Bool.false_ne_true Bool.false_ne_true
  · rintro rfl
    exact absurd skipped (by decide)
  · rintro rfl
    exact absurd skipped (by decide)

theorem IsFiller.stops (filler : a.IsFiller) (nonempty : a ≠ []) (after : Text) : (a ++ after).Stops joins := by
  cases filler with
  | nil => contradiction
  | unit skipped => exact .cons (joins_of_skipped skipped)
  | comment inside =>
      obtain ⟨text, rfl, -⟩ := inside
      exact .cons rfl

end Text

/-! ## Skipping filler -/

namespace Scan

variable {inside after text : Text} {u : CodeUnit} {c : Cursor}

theorem comment_wellFormed (text : Text) : (comment text).1.WellFormed := by
  fun_induction comment text with
  | case1 => exact .nil
  | case2 u plain =>
      simp only [Bool.and_eq_true] at plain
      exact (Text.WellFormed.scalar plain.2).2 .nil
  | case3 => exact .nil
  | case4 => exact .nil
  | case5 u v rest ends single inside after read ih =>
      simp only [read] at ih
      exact (Text.WellFormed.scalar single).2 ih
  | case6 u v rest ends single pair inside after read ih =>
      simp only [read] at ih
      exact (Text.WellFormed.pair pair).2 ih
  | case7 => exact .nil

theorem comment_complete (wellFormed : inside.WellFormed) (line : Text.IsLine inside) (stops : after.Stops (!·.isLineEnd)) :
    comment (inside ++ after) = (inside, after) := by
  induction wellFormed.characters with
  | nil =>
      cases after with
      | nil => rfl
      | cons u after =>
          have ends : u.isLineEnd = true := by simpa using stops u rfl
          cases after with
          | nil => simp [comment, ends]
          | cons v after => simp [comment, ends]
  | @scalar u rest single _ ih =>
      obtain ⟨plain, line⟩ := List.forall_mem_cons.1 line
      have behind := ih ((Text.WellFormed.scalar single).1 wellFormed) line
      rw [List.cons_append]
      cases whole : rest ++ after with
      | nil =>
          obtain ⟨rfl, rfl⟩ := List.append_eq_nil_iff.1 whole
          simp [comment, plain, single]
      | cons v text =>
          rw [whole] at behind
          simp [comment, plain, single, behind]
  | @pair u v rest both _ ih =>
      obtain ⟨plain, line⟩ := List.forall_mem_cons.1 line
      have behind := ih ((Text.WellFormed.pair both).1 wellFormed) (List.forall_mem_cons.1 line).2
      simp [comment, plain, (Text.isScalar_of_pair both).1, both, behind]

theorem next_comment {text : Text} (inside : text.IsComment) (stops : after.Stops (!·.isLineEnd)) (c : Cursor) :
    ∃ step, next (text ++ after) c = .ok step ∧ step.token.kind = .comment ∧ step.rest = after := by
  obtain ⟨inside, rfl, wellFormed, line⟩ := inside
  refine ⟨⟨c.token .comment (inside.length + 1) inside, after, c.advance (inside.length + 1)⟩, ?_, rfl, rfl⟩
  rw [List.cons_append, next, ReadsToken.skipIgnored_of_solid ⟨rfl, rfl⟩]
  change lexeme (0x23 :: (inside ++ after)) c = _
  rw [lexeme.eq_4 _ _ _ (fun _ dot _ => absurd dot (by decide)) (fun _ quote _ => absurd quote (by decide)), if_pos rfl,
    comment_complete wellFormed line stops]

theorem lexeme_comment {step : Step} (h : lexeme text c = .ok step) (comment : step.token.kind = .comment) :
    ∃ units, text = units ++ step.rest ∧ units.IsComment ∧ step.rest.Stops fun u => !u.isLineEnd && u.isScalar := by
  unfold lexeme at h
  split at h
  · obtain rfl := Except.ok.inj h
    contradiction
  · obtain rfl := Except.ok.inj h
    contradiction
  · obtain ⟨literal, -, h⟩ := Run.except_bind_ok.1 h
    obtain rfl := Except.ok.inj h
    contradiction
  · rename_i u rest _ _
    split_ifs at h with hash quoted digit letter
    · obtain rfl := Except.ok.inj h
      obtain ⟨whole, line, stops⟩ := comment_sound rest
      exact ⟨u :: (Scan.comment rest).1, congrArg (u :: ·) whole, ⟨_, hash ▸ rfl, comment_wellFormed rest, line⟩, stops⟩
    · obtain ⟨literal, -, h⟩ := Run.except_bind_ok.1 h
      obtain rfl := Except.ok.inj h
      contradiction
    · obtain ⟨⟨kind, part⟩, read, h⟩ := Run.except_bind_ok.1 h
      obtain rfl := Except.ok.inj h
      obtain rfl | rfl := (Number.scan_sound read).1.kind <;> contradiction
    · obtain rfl := Except.ok.inj h
      contradiction
    · split at h
      · rename_i kind found
        obtain rfl := Except.ok.inj h
        have mark := TokenKind.isPunctuator_of_ofUnit? found
        obtain rfl : kind = .comment := comment
        contradiction
      · contradiction

theorem next_comment_sound {step : Step} (h : next text c = .ok step) (comment : step.token.kind = .comment) :
    ∃ gap units : Text, text = gap ++ (units ++ step.rest) ∧ gap.IsFiller ∧ units.IsComment ∧
      step.cursor.offset = c.offset + gap.length + units.length ∧
      step.rest.Stops fun u => !u.isLineEnd && u.isScalar := by
  obtain ⟨gap, whole, offset, skipped⟩ := skipIgnored_leaves text c
  obtain ⟨units, begins, takes⟩ := lexeme_takes h
  obtain ⟨units', begins', inside, stops⟩ := lexeme_comment h comment
  obtain rfl : units = units' := List.append_cancel_right (begins.symm.trans begins')
  exact ⟨gap, units, begins ▸ whole, .of_units skipped, inside, offset ▸ takes.cursor, stops⟩

theorem next_skipped (skipped : u.isLineEnd = true ∨ isIgnored u = true) (text : Text) (c : Cursor) :
    ∃ c', next (u :: text) c = next text c' := by
  have eq (c c' : Cursor) (same : skipIgnored (u :: text) c = skipIgnored text c') : next (u :: text) c = next text c' := by
    rw [next, next, same]
  by_cases feed : u = lineFeed
  · subst feed
    exact ⟨c.newLine 1, eq _ _ rfl⟩
  by_cases ret : u = carriageReturn
  · subst ret
    by_cases pair : ∃ rest, text = lineFeed :: rest
    · -- The line feed ends no other line: it is met again one unit further on, and moves to the same place.
      obtain ⟨rest, rfl⟩ := pair
      exact ⟨c.advance 1, eq _ _ rfl⟩
    · exact ⟨c.newLine 1, eq _ _ (skipIgnored.eq_3 _ _ fun rest same => pair ⟨rest, same⟩)⟩
  · have plain := Text.isLineEnd_of_ne feed ret
    have ignored : isIgnored u = true := skipped.resolve_left (by simp [plain])
    exact ⟨c.advance 1, eq _ _ (by rw [skipIgnored.eq_4 _ _ _ feed (fun _ same => absurd same ret) ret, if_pos ignored])⟩

end Scan

namespace TokenStream

def readAt (text : Text) (c : Cursor) : TokenStream := scan (text.length + 1) text c

variable {text gap comment : Text} {u : CodeUnit} {l : Lexeme}

theorem scan_eq_readAt {fuel : Nat} {c : Cursor} (enough : text.length < fuel) : scan fuel text c = readAt text c :=
  scan_enough enough (Nat.lt_succ_self _)

theorem readAt_skipped (skipped : u.isLineEnd = true ∨ Scan.isIgnored u = true) (text : Text) (c : Cursor) :
    ∃ c', readAt (u :: text) c = readAt text c' := by
  obtain ⟨c', same⟩ := Scan.next_skipped skipped text c
  refine ⟨c', ?_⟩
  rw [readAt, scan, same]
  exact scan_eq_readAt (Nat.lt_succ_of_lt (Nat.lt_succ_self _))

theorem readAt_comment (inside : comment.IsComment) (stops : text.Stops (!·.isLineEnd)) (c : Cursor) :
    ∃ c', readAt (comment ++ text) c = readAt text c' := by
  obtain ⟨step, next, kind, rfl⟩ := Scan.next_comment inside stops c
  have shorter := Scan.next_shorter next (by rw [kind]; decide)
  exact ⟨step.cursor, by rw [readAt, scan_comment next kind, scan_eq_readAt shorter]⟩

theorem readAt_filler (filler : gap.IsFiller) (text : Text) (c : Cursor) :
    ∃ c', readAt (gap ++ text) c = readAt text c' := by
  induction filler generalizing c with
  | nil => exact ⟨c, rfl⟩
  | @unit u rest skipped _ ih =>
      obtain ⟨c₁, first⟩ := readAt_skipped skipped (rest ++ text) c
      obtain ⟨c', others⟩ := ih c₁
      exact ⟨c', first.trans others⟩
  | @comment comment rest u inside ends _ ih =>
      have stops : Text.Stops (!·.isLineEnd) (u :: (rest ++ text)) := .cons (by simp [ends])
      obtain ⟨c₁, first⟩ := readAt_comment inside stops c
      obtain ⟨c₂, second⟩ := readAt_skipped (.inl ends) (rest ++ text) c₁
      obtain ⟨c', others⟩ := ih c₂
      rw [List.append_assoc]
      exact ⟨c', first.trans (second.trans others)⟩

theorem readAt_ending (ending : gap.IsEnding) (c : Cursor) : ∃ eof, readAt gap c = endOfFile eof := by
  have nothing (c : Cursor) : ∃ eof, readAt [] c = endOfFile eof := ⟨_, rfl⟩
  cases ending with
  | filler filler =>
      obtain ⟨c', same⟩ := readAt_filler filler [] c
      rw [List.append_nil] at same
      exact same ▸ nothing c'
  | @comment gap comment filler inside =>
      obtain ⟨c₁, first⟩ := readAt_filler filler comment c
      have second : ∃ c₂, readAt (comment ++ []) c₁ = readAt [] c₂ := readAt_comment inside .nil c₁
      obtain ⟨c₂, second⟩ := second
      rw [List.append_nil] at second
      exact first ▸ second ▸ nothing c₂

theorem readAt_token {rest : Text} (token : ReadsToken text l rest) (c : Cursor) :
    ∃ t c', t.lexeme = l ∧ readAt text c = cons t (readAt rest c') := by
  obtain ⟨step, next, rfl, rfl⟩ := token.next c
  refine ⟨step.token, step.cursor, rfl, ?_⟩
  rw [readAt, scan_token next token.kind.1 token.kind.2, scan_eq_readAt token.shorter]

end TokenStream

/-! ## What a text holds -/

/-- The text consists of filler and of tokens that are read wherever they stand. -/
inductive Text.Holds : Text → List Lexeme → Prop
  | ending {gap : Text} : gap.IsEnding → Holds gap []
  | cons {gap text rest : Text} {l : Lexeme} {ls : List Lexeme} : gap.IsFiller → ReadsToken text l rest → Holds rest ls →
      Holds (gap ++ text) (l :: ls)

theorem Text.Holds.readAt {text : Text} {ls : List Lexeme} (holds : text.Holds ls) (c : Cursor) :
    (TokenStream.readAt text c).isWhole = true ∧ (TokenStream.readAt text c).lexemes = ls := by
  induction holds generalizing c with
  | ending ending =>
      obtain ⟨eof, read⟩ := TokenStream.readAt_ending ending c
      rw [read]
      exact ⟨rfl, rfl⟩
  | @cons gap text rest l ls filler token _ ih =>
      obtain ⟨c₁, skipped⟩ := TokenStream.readAt_filler filler text c
      obtain ⟨t, c₂, rfl, read⟩ := TokenStream.readAt_token token c₁
      obtain ⟨whole, lexemes⟩ := ih c₂
      rw [skipped, read]
      exact ⟨whole, congrArg (t.lexeme :: ·) lexemes⟩

theorem Text.Holds.source_lexemes {source : Source} {ls : List Lexeme} (holds : source.body.Holds ls) :
    source.lexemes = .ok ls :=
  Source.lexemes_ok.2 (holds.readAt .start)

/-! ## Layouts of sources -/

inductive Laid : Nat → Text → List Token → Prop
  | last {offset : Nat} {gap : Text} {t : Token} : gap.IsEnding → t.kind = .endOfFile ∧ t.value = [] →
      t.start = offset + gap.length → t.stop = t.start → Laid offset gap [t]
  | cons {offset : Nat} {gap units rest : Text} {t : Token} {tokens : List Token} : gap.IsFiller →
      t.IsReadFrom units rest → t.start = offset + gap.length → t.stop = t.start + units.length →
      Laid t.stop rest tokens → Laid offset (gap ++ (units ++ rest)) (t :: tokens)

namespace Token.IsReadFrom

variable {t : Token} {units rest : Text} (reads : t.IsReadFrom units rest)
include reads

theorem units_ne_nil : units ≠ [] := by
  rintro rfl
  exact absurd (reads.again rest (.inl rfl)).shorter (Nat.lt_irrefl _)

theorem more : t.kind ≠ .endOfFile := (reads.again rest (.inl rfl)).kind.1

theorem exists_first : ∃ u ∈ (units ++ rest).head?, u.isLineEnd = false := by
  obtain ⟨u, others, rfl⟩ := List.exists_cons_of_ne_nil reads.units_ne_nil
  exact ⟨u, rfl, reads.opens u rfl⟩

end Token.IsReadFrom

namespace Laid

variable {offset : Nat} {text gap comment : Text} {tokens : List Token}

theorem prepend (filler : gap.IsFiller) (laid : Laid (offset + gap.length) text tokens) :
    Laid offset (gap ++ text) tokens := by
  cases laid with
  | last ending kind start stop =>
      exact .last (ending.prepend filler) kind (by rw [start, List.length_append, Nat.add_assoc]) stop
  | cons filler' reads start stop rest =>
      rw [← List.append_assoc]
      exact .cons (filler.append filler') reads (by rw [start, List.length_append, Nat.add_assoc]) stop rest

theorem commented (inside : comment.IsComment) (stops : text.Stops (!·.isLineEnd))
    (laid : Laid (offset + comment.length) text tokens) : Laid offset (comment ++ text) tokens := by
  cases laid with
  | last ending kind start stop =>
      refine .last ?_ kind (by rw [start, List.length_append, Nat.add_assoc]) stop
      cases ending with
      | filler filler =>
          rw [← List.append_nil text] at stops
          obtain rfl | closed := filler.close inside stops
          · rw [List.append_nil]
            exact .comment .nil inside
          · exact .filler closed
      | comment filler inside' =>
          obtain rfl | closed := filler.close inside stops
          · obtain ⟨_, rfl, -⟩ := inside'
            exact absurd (stops 0x23 rfl) (by decide)
          · rw [← List.append_assoc]
            exact .comment closed inside'
  | cons filler reads start stop rest =>
      obtain rfl | closed := filler.close inside stops
      · obtain ⟨u, first, solid⟩ := reads.exists_first
        exact absurd (stops u first) (by simp [solid])
      · rw [← List.append_assoc]
        exact .cons closed reads (by rw [start, List.length_append, Nat.add_assoc]) stop rest

theorem bounds (laid : Laid offset text tokens) :
    ∀ t ∈ tokens, offset ≤ t.start ∧ t.start ≤ t.stop ∧ t.stop ≤ offset + text.length := by
  induction laid with
  | last _ _ start stop => exact List.forall_mem_singleton.2 ⟨by omega, by omega, by omega⟩
  | cons _ _ start stop _ ih =>
      simp only [List.length_append]
      refine List.forall_mem_cons.2 ⟨⟨by omega, by omega, by omega⟩, fun t member => ?_⟩
      obtain ⟨lower, inside, upper⟩ := ih t member
      exact ⟨by omega, inside, by omega⟩

end Laid

theorem TokenStream.scan_laid {fuel : Nat} {text : Text} {c : Cursor} {tokens : List Token} (enough : text.length < fuel)
    (read : (scan fuel text c).toList = .ok tokens) : Laid c.offset text tokens := by
  induction fuel generalizing text c tokens with
  | zero => contradiction
  | succ fuel ih =>
      obtain ⟨step, next⟩ := exists_next (Nat.succ_pos fuel) read
      by_cases last : step.token.kind = .endOfFile
      · rw [scan_endOfFile next last] at read
        obtain rfl := Except.ok.inj read
        obtain ⟨gap, units, place, rfl, skipped, offset, takes⟩ := Scan.next_takes next
        obtain rfl := takes.last.1 last
        rw [takes.all last, List.append_nil, List.append_nil]
        exact .last (.filler (.of_units skipped)) ⟨last, (Scan.lexeme_value next).2 last⟩ (takes.start.trans offset)
          (takes.stop.trans takes.start.symm)
      have shorter : step.rest.length < fuel := Nat.lt_of_lt_of_le (Scan.next_shorter next last) (Nat.le_of_lt_succ enough)
      by_cases comment : step.token.kind = .comment
      · rw [scan_comment next comment] at read
        obtain ⟨gap, units, rfl, filler, inside, offset, stops⟩ := Scan.next_comment_sound next comment
        -- Reading goes on, so that the comment did not end before half of a surrogate pair.
        obtain ⟨step', more⟩ := exists_next (Nat.zero_lt_of_lt shorter) read
        have rest := ih shorter read
        rw [offset] at rest
        exact .prepend filler (.commented inside (Scan.stops_of_next stops more) rest)
      · rw [scan_token next last comment] at read
        obtain ⟨others, behind, rfl⟩ := cons_toList_ok.1 read
        obtain ⟨gap, units, place, rfl, skipped, offset, takes, reads⟩ := Scan.next_again next last comment
        have start := takes.start.trans offset
        have stop : step.token.stop = step.token.start + units.length := by rw [takes.stop, takes.start]
        have rest := ih shorter behind
        rw [takes.cursor, ← takes.stop] at rest
        exact .cons (.of_units skipped) reads start stop rest

theorem Source.laid {source : Source} {tokens : List Token} (read : source.tokens = .ok tokens) :
    Laid 0 source.body tokens :=
  TokenStream.scan_laid (Nat.lt_succ_self _) (Source.tokens_ok.1 read)

end QueryPlanner
