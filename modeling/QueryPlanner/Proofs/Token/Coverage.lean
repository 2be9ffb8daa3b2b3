import QueryPlanner.Proofs.Token.Reading

namespace QueryPlanner
open CodeUnit

namespace Text

def slice (text : Text) (start stop : Nat) : Text := (text.drop start).take (stop - start)

/-- What may stand between tokens, in front of the text `after`. A comment ends with its line or with the source. -/
inductive IsIgnorable : Text → Text → Prop
  | nil {after : Text} : IsIgnorable [] after
  | unit {u : CodeUnit} {gap after : Text} : u.isLineEnd = true ∨ Scan.isIgnored u = true → IsIgnorable gap after →
      IsIgnorable (u :: gap) after
  | comment {inside gap after : Text} : (∀ u ∈ inside, u.isLineEnd = false) → (gap ++ after).Stops (!·.isLineEnd) →
      IsIgnorable gap after → IsIgnorable (0x23 :: inside ++ gap) after

theorem IsIgnorable.append {gap gap' after : Text} (first : IsIgnorable gap (gap' ++ after))
    (second : IsIgnorable gap' after) : IsIgnorable (gap ++ gap') after := by
  generalize behind : gap' ++ after = text at first
  induction first with
  | nil => exact second
  | unit ignored _ ih => exact .unit ignored (ih behind)
  | @comment inside gap text whole stops _ ih =>
      subst behind
      rw [List.append_assoc]
      exact .comment whole (by rwa [List.append_assoc]) (ih rfl)

theorem IsIgnorable.of_units {gap : Text} (ignored : ∀ u ∈ gap, u.isLineEnd = true ∨ Scan.isIgnored u = true)
    (after : Text) : IsIgnorable gap after := by
  induction gap with
  | nil => exact .nil
  | cons u gap ih =>
      obtain ⟨first, others⟩ := List.forall_mem_cons.1 ignored
      exact .unit first (ih others)

end Text

def Token.slice (t : Token) (body : Text) : Text := body.slice t.start t.stop

structure Token.IsWrittenAs (t : Token) (written : Text) : Prop where
  value : t.kind = .name ∨ t.kind = .int ∨ t.kind = .float → t.value = written
  mark : t.kind.isPunctuator = true → written = t.kind.text

theorem Token.IsWrittenAs.ofValue {t : Token} (valued : t.kind.isPunctuator = false) : t.IsWrittenAs t.value where
  value := fun _ => rfl
  mark := fun mark => by simp [valued] at mark

theorem Token.IsWrittenAs.ofMark {t : Token} (mark : t.kind.isPunctuator = true) : t.IsWrittenAs t.kind.text where
  value := by rintro (kind | kind | kind) <;> rw [kind] at mark <;> contradiction
  mark := fun _ => rfl

theorem Token.IsWrittenAs.ofEndOfFile {t : Token} (last : t.kind = .endOfFile) (units : Text) : t.IsWrittenAs units where
  value := by rw [last]; nofun
  mark := by rw [last]; nofun

/--
The source consists of the tokens and of what may stand between them: `between` speaks of each token and the one
before it, `Token.startOfFile` being the one before the first.
-/
structure Source.IsTiledBy (source : Source) (tokens : List Token) : Prop where
  last : ∃ front eof, tokens = front ++ [eof] ∧ eof.kind = .endOfFile ∧ eof.start = source.body.length ∧
    eof.stop = source.body.length ∧ ∀ t ∈ front, t.kind ≠ .endOfFile ∧ t.start < t.stop
  inside : ∀ t ∈ tokens, t.stop ≤ source.body.length
  ordered : tokens.Pairwise fun a b => a.stop ≤ b.start
  between : (Token.startOfFile :: tokens).IsChain fun a b =>
    (source.body.slice a.stop b.start).IsIgnorable (source.body.drop b.start)
  written : ∀ t ∈ tokens, t.IsWrittenAs (t.slice source.body)

def Text.Leaves (sort : CodeUnit → Prop) (text : Text) (start : Nat) (rest : Text) (stop : Nat) : Prop :=
  ∃ taken, text = taken ++ rest ∧ stop = start + taken.length ∧ ∀ u ∈ taken, sort u

section
variable {sort : CodeUnit → Prop} {text rest : Text} {start stop : Nat} {u : CodeUnit}

theorem Text.Leaves.nil : text.Leaves sort start text start := ⟨[], rfl, rfl, List.forall_mem_nil _⟩

theorem Text.Leaves.cons (first : sort u) (others : text.Leaves sort (start + 1) rest stop) :
    Text.Leaves sort (u :: text) start rest stop := by
  obtain ⟨taken, rfl, rfl, all⟩ := others
  exact ⟨u :: taken, rfl, by rw [List.length_cons]; omega, List.forall_mem_cons.2 ⟨first, all⟩⟩

end

theorem StringLiteral.characters_leaves {start skip offset : Nat} {text value : Text} {scanned : Scanned}
    (h : characters start text skip offset value = .ok scanned) (line : ∀ u ∈ text.take skip, u.isLineEnd = false) :
    text.Leaves (fun u => u.isLineEnd = false) offset scanned.rest scanned.stop := by
  fun_induction characters start text skip offset value with
  | case1 => contradiction
  | case2 u rest skip _ _ ih =>
      rw [List.take_succ_cons, List.forall_mem_cons] at line
      exact .cons line.1 (ih h line.2)
  | case3 =>
      obtain rfl := Except.ok.inj h
      exact .cons rfl .nil
  | case4 _ _ _ e read _ ih => exact .cons rfl (ih h (escape_line read))
  | case5 => contradiction
  | case6 => contradiction
  | case7 u _ _ _ _ _ plain _ ih =>
      exact .cons (by simpa using plain) (ih h (List.forall_mem_nil _))
  | case8 u _ _ _ _ plain _ v _ pair ih =>
      have second := BlockLiteral.isLineEnd_of_surrogate (Text.isScalar_of_pair pair).2
      exact .cons (by simpa using plain) (.cons second (ih h (List.forall_mem_nil _)))
  | case9 => contradiction
  | case10 => contradiction

theorem BlockLiteral.characters_leaves {start : Nat} {text : Text} {r : Reading} {scanned : Scanned}
    (h : characters start text r = .ok scanned) :
    text.Leaves (fun _ => True) r.offset scanned.rest scanned.stop := by
  fun_induction characters start text r with
  | case1 => contradiction
  | case2 =>
      obtain rfl := Except.ok.inj h
      exact .cons trivial (.cons trivial (.cons trivial .nil))
  | case3 _ _ ih => exact .cons trivial (.cons trivial (.cons trivial (.cons trivial (ih h))))
  | case4 _ _ ih => exact .cons trivial (ih h)
  | case5 _ _ ih => exact .cons trivial (.cons trivial (ih h))
  | case6 _ _ _ ih => exact .cons trivial (ih h)
  | case7 => contradiction
  | case8 _ _ _ _ _ _ _ _ _ _ ih => exact .cons trivial (ih h)
  | case9 _ _ _ _ _ _ _ _ _ _ _ ih => exact .cons trivial (.cons trivial (ih h))
  | case10 => contradiction

namespace Scan

theorem comment_sound (text : Text) : text = (comment text).1 ++ (comment text).2 ∧
    (∀ u ∈ (comment text).1, u.isLineEnd = false) ∧ (comment text).2.Stops fun u => !u.isLineEnd && u.isScalar := by
  fun_induction comment text with
  | case1 => exact ⟨rfl, List.forall_mem_nil _, nofun⟩
  | case2 u plain =>
      simp only [Bool.and_eq_true, Bool.not_eq_true'] at plain
      exact ⟨rfl, List.forall_mem_singleton.2 plain.1, nofun⟩
  | case3 u plain => exact ⟨rfl, List.forall_mem_nil _, .cons (by simpa using plain)⟩
  | case4 u v rest ends => exact ⟨rfl, List.forall_mem_nil _, .cons (by simp [ends])⟩
  | case5 u v rest ends single inside after read ih =>
      obtain ⟨whole, plain, stops⟩ := ih
      simp only [read] at whole plain stops
      exact ⟨congrArg (u :: ·) whole, List.forall_mem_cons.2 ⟨by simpa using ends, plain⟩, stops⟩
  | case6 u v rest ends single pair inside after read ih =>
      obtain ⟨whole, plain, stops⟩ := ih
      simp only [read] at whole plain stops
      have second := BlockLiteral.isLineEnd_of_surrogate (Text.isScalar_of_pair pair).2
      exact ⟨congrArg (u :: v :: ·) whole,
        List.forall_mem_cons.2 ⟨by simpa using ends, List.forall_mem_cons.2 ⟨second, plain⟩⟩, stops⟩
  | case7 u v rest ends single pair => exact ⟨rfl, List.forall_mem_nil _, .cons (by simp [single])⟩

theorem skipIgnored_leaves (text : Text) (c : Cursor) :
    text.Leaves (fun u => u.isLineEnd = true ∨ isIgnored u = true) c.offset (skipIgnored text c).1
      (skipIgnored text c).2.offset := by
  fun_induction skipIgnored text c with
  | case1 rest c ih => exact .cons (.inl rfl) ih
  | case2 rest c ih => exact .cons (.inl rfl) (.cons (.inl rfl) ih)
  | case3 rest c _ ih => exact .cons (.inl rfl) ih
  | case4 u rest c _ _ _ skipped ih => exact .cons (.inr skipped) ih
  | case5 => exact .nil
  | case6 => exact .nil

structure Step.Takes (step : Step) (c : Cursor) (units : Text) : Prop where
  start : step.token.start = c.offset
  stop : step.token.stop = c.offset + units.length
  cursor : step.cursor.offset = c.offset + units.length
  written : step.token.IsWrittenAs units
  last : step.token.kind = .endOfFile ↔ units = []
  all : step.token.kind = .endOfFile → step.rest = []
  comment : step.token.kind = .comment → ∃ inside, units = 0x23 :: inside ∧ (∀ u ∈ inside, u.isLineEnd = false) ∧
    step.rest.Stops fun u => !u.isLineEnd && u.isScalar

section
variable {text units rest value : Text} {c cursor : Cursor} {step : Step} {kind : TokenKind} {size : Nat} {u : CodeUnit}

theorem takes_endOfFile (c : Cursor) : Step.Takes ⟨c.token .endOfFile 0 [], [], c⟩ c [] where
  start := rfl
  stop := rfl
  cursor := rfl
  written := ⟨nofun, nofun⟩
  last := iff_of_true rfl rfl
  all := fun _ => rfl
  comment := nofun

theorem takes_comment (c : Cursor) (text : Text) :
    Step.Takes ⟨c.token .comment ((comment text).1.length + 1) (comment text).1, (comment text).2,
      c.advance ((comment text).1.length + 1)⟩ c (0x23 :: (comment text).1) where
  start := rfl
  stop := rfl
  cursor := rfl
  written := ⟨nofun, nofun⟩
  last := iff_of_false nofun nofun
  all := nofun
  comment := fun _ => ⟨_, rfl, (comment_sound text).2⟩

theorem takes_token (between : kind ≠ .endOfFile ∧ kind ≠ .comment) (some : units ≠ []) (sized : size = units.length)
    (moved : cursor.offset = c.offset + units.length) (written : (c.token kind size value).IsWrittenAs units) :
    Step.Takes ⟨c.token kind size value, rest, cursor⟩ c units where
  start := rfl
  stop := by rw [← sized]; rfl
  cursor := moved
  written := written
  last := iff_of_false between.1 some
  all := fun last => absurd last between.1
  comment := fun isComment => absurd isComment between.2

theorem text_of_ofUnit? (found : TokenKind.ofUnit? u = some kind) : kind.text = [u] := by
  unfold TokenKind.ofUnit? at found
  iterate 14
    refine Option.of_ite_eq_some (P := fun kind => kind.text = [u]) found ?_ fun found => ?_
    · rintro rfl
      rfl
  contradiction

theorem lexeme_takes (h : lexeme text c = .ok step) : ∃ units, text = units ++ step.rest ∧ step.Takes c units := by
  unfold lexeme at h
  split at h
  · obtain rfl := Except.ok.inj h
    exact ⟨[], rfl, takes_endOfFile _⟩
  · obtain rfl := Except.ok.inj h
    exact ⟨[0x2e, 0x2e, 0x2e], rfl, takes_token ⟨nofun, nofun⟩ nofun rfl rfl ⟨nofun, fun _ => rfl⟩⟩
  · obtain ⟨literal, read, h⟩ := Run.except_bind_ok.1 h
    obtain rfl := Except.ok.inj h
    obtain ⟨taken, rfl, stop, -⟩ := BlockLiteral.characters_leaves read
    exact ⟨0x22 :: 0x22 :: 0x22 :: taken, rfl, takes_token ⟨nofun, nofun⟩ nofun (by simp [stop]; omega)
      (by simp [stop]; omega) ⟨nofun, nofun⟩⟩
  · rename_i u rest _ _
    split_ifs at h with hash quoted digit letter
    · obtain rfl := Except.ok.inj h
      exact ⟨0x23 :: (comment rest).1, hash ▸ congrArg (0x23 :: ·) (comment_sound rest).1, takes_comment _ rest⟩
    · obtain ⟨literal, read, h⟩ := Run.except_bind_ok.1 h
      obtain rfl := Except.ok.inj h
      obtain ⟨taken, rfl, stop, -⟩ := StringLiteral.characters_leaves read (List.forall_mem_nil _)
      exact ⟨u :: taken, rfl, takes_token ⟨nofun, nofun⟩ nofun (by simp [stop]; omega)
        (by simp [stop, Cursor.advance]; omega) ⟨nofun, nofun⟩⟩
    · obtain ⟨⟨kind, part⟩, read, h⟩ := Run.except_bind_ok.1 h
      obtain rfl := Except.ok.inj h
      obtain ⟨number, whole⟩ := Number.scan_sound read
      obtain ⟨first, others, begins, -⟩ := number.cons
      have value : kind.isPunctuator = false ∧ kind ≠ .endOfFile ∧ kind ≠ .comment := by
        obtain rfl | rfl := number.kind <;> exact ⟨rfl, nofun, nofun⟩
      exact ⟨part.written, whole, takes_token value.2 (by simp [begins]) rfl rfl (.ofValue value.1)⟩
    · obtain rfl := Except.ok.inj h
      exact ⟨u :: rest.takeWhile isNameContinue, congrArg (u :: ·) List.takeWhile_append_dropWhile.symm,
        takes_token ⟨nofun, nofun⟩ nofun rfl rfl ⟨fun _ => rfl, nofun⟩⟩
    · split at h
      · rename_i kind found
        obtain rfl := Except.ok.inj h
        have mark := TokenKind.isPunctuator_of_ofUnit? found
        have between : kind ≠ .endOfFile ∧ kind ≠ .comment := by
          constructor <;> rintro rfl <;> contradiction
        have written : (c.token kind 1 []).IsWrittenAs [u] := text_of_ofUnit? found ▸ .ofMark mark
        exact ⟨[u], rfl, takes_token between nofun rfl rfl written⟩
      · contradiction

theorem all_isScalar_text (kind : TokenKind) : kind.text.all CodeUnit.isScalar = true := by
  cases kind <;> rfl

theorem isScalar_of_ofUnit? (found : TokenKind.ofUnit? u = some kind) : u.isScalar = true :=
  List.all_eq_true.1 (all_isScalar_text kind) u (text_of_ofUnit? found ▸ List.mem_singleton_self u)

theorem isScalar_of_le (low : u ≤ 0x7f) : u.isScalar = true := by
  simp only [isScalar, Bool.not_eq_true', Bool.and_eq_false_iff, decide_eq_false_iff_not, UInt16.not_le]
  exact .inl (UInt16.lt_of_le_of_lt low (by decide))

theorem le_of_isDigit (digit : isDigit u = true) : u ≤ 0x7f := by
  simp only [isDigit, Bool.and_eq_true, decide_eq_true_eq] at digit
  exact UInt16.le_trans digit.2 (by decide)

theorem le_of_isNameStart (letter : isNameStart u = true) : u ≤ 0x7f := by
  simp only [isNameStart, Bool.or_eq_true, Bool.and_eq_true, decide_eq_true_eq, beq_iff_eq] at letter
  obtain (⟨-, upper⟩ | ⟨-, lower⟩) | rfl := letter
  · exact UInt16.le_trans upper (by decide)
  · exact UInt16.le_trans lower (by decide)
  · decide

theorem lexeme_isScalar (h : lexeme text c = .ok step) : ∀ u ∈ text.head?, u.isScalar = true := by
  intro first begins
  unfold lexeme at h
  split at h
  · contradiction
  · obtain rfl := Option.some.inj begins
    rfl
  · obtain rfl := Option.some.inj begins
    rfl
  · rename_i u rest _ _
    obtain rfl := Option.some.inj begins
    split_ifs at h with hash quoted digit letter
    · rw [hash]
      rfl
    · rw [quoted]
      rfl
    · obtain digit | sign := Bool.or_eq_true_iff.1 digit
      · exact isScalar_of_le (le_of_isDigit digit)
      · rw [beq_iff_eq.1 sign]
        rfl
    · exact isScalar_of_le (le_of_isNameStart letter)
    · split at h
      · rename_i kind found
        exact isScalar_of_ofUnit? found
      · contradiction

theorem isIgnored_of_surrogate (half : u.isScalar = false) : isIgnored u = false := by
  by_contra ignored
  simp only [Bool.not_eq_false, isIgnored, isBlank, isByteOrderMark, Bool.or_eq_true, beq_iff_eq] at ignored
  obtain ((rfl | rfl) | rfl) | rfl := ignored <;> contradiction

theorem next_isScalar (h : next text c = .ok step) : ∀ u ∈ text.head?, u.isScalar = true := by
  intro u begins
  obtain ⟨rest, rfl⟩ : ∃ rest, text = u :: rest := List.head?_eq_some_iff.1 begins
  by_contra half
  rw [Bool.not_eq_true] at half
  have solid : IsSolid u := ⟨BlockLiteral.isLineEnd_of_surrogate half, isIgnored_of_surrogate half⟩
  rw [next, ReadsToken.skipIgnored_of_solid solid] at h
  have scalar := lexeme_isScalar h u rfl
  rw [half] at scalar
  contradiction

theorem stops_of_next (stops : text.Stops fun u => !u.isLineEnd && u.isScalar) (reads : next text c = .ok step) :
    text.Stops (!·.isLineEnd) := by
  intro u first
  have stop := stops u first
  dsimp only at stop
  rwa [next_isScalar reads u first, Bool.and_true] at stop

theorem Step.Takes.isIgnorable {cursor : Cursor} {more : Step} (takes : step.Takes c units)
    (comment : step.token.kind = .comment) (reads : next step.rest cursor = .ok more) : units.IsIgnorable step.rest := by
  obtain ⟨inside, rfl, plain, stops⟩ := takes.comment comment
  rw [← List.append_nil (0x23 :: inside)]
  exact .comment plain (stops_of_next stops reads) .nil

theorem next_takes (h : next text c = .ok step) : ∃ gap units place, text = gap ++ (units ++ step.rest) ∧
    (∀ u ∈ gap, u.isLineEnd = true ∨ isIgnored u = true) ∧ place.offset = c.offset + gap.length ∧ step.Takes place units := by
  obtain ⟨gap, whole, offset, ignored⟩ := skipIgnored_leaves text c
  obtain ⟨units, begins, takes⟩ := lexeme_takes h
  exact ⟨gap, units, _, begins ▸ whole, ignored, offset, takes⟩

theorem next_shorter (h : next text c = .ok step) (more : step.token.kind ≠ .endOfFile) :
    step.rest.length < text.length := by
  obtain ⟨gap, units, place, rfl, -, -, takes⟩ := next_takes h
  have some := List.length_pos_iff.2 (mt takes.last.2 more)
  simp only [List.length_append]
  omega

end

end Scan

inductive Tiles : Nat → Text → List Token → Prop
  | last {offset : Nat} {gap : Text} {t : Token} : gap.IsIgnorable [] → t.kind = .endOfFile →
      t.start = offset + gap.length → t.stop = t.start → Tiles offset gap [t]
  | cons {offset : Nat} {gap units rest : Text} {t : Token} {tokens : List Token} : gap.IsIgnorable (units ++ rest) →
      t.kind ≠ .endOfFile → units ≠ [] → t.start = offset + gap.length → t.stop = t.start + units.length →
      t.IsWrittenAs units → Tiles t.stop rest tokens → Tiles offset (gap ++ (units ++ rest)) (t :: tokens)

theorem Tiles.skip {offset : Nat} {gap text : Text} {tokens : List Token} (ignorable : gap.IsIgnorable text)
    (tiles : Tiles (offset + gap.length) text tokens) : Tiles offset (gap ++ text) tokens := by
  cases tiles with
  | last ignorable' kind start stop =>
      exact .last (.append (by rwa [List.append_nil]) ignorable') kind (by rw [start, List.length_append]; omega) stop
  | cons ignorable' kind some start stop written rest =>
      rw [← List.append_assoc]
      exact .cons (ignorable.append ignorable') kind some (by rw [start, List.length_append]; omega) stop written rest

namespace TokenStream

theorem cons_toList_ok {token : Token} {stream : TokenStream} {tokens : List Token} :
    (cons token stream).toList = .ok tokens ↔ ∃ rest, stream.toList = .ok rest ∧ tokens = token :: rest := by
  rw [toList]
  simp only [Run.except_bind_ok]
  exact exists_congr fun rest => and_congr_right fun _ => by
    change Except.ok _ = _ ↔ _
    rw [Except.ok.injEq, eq_comm]

theorem exists_next {fuel : Nat} {text : Text} {c : Cursor} {tokens : List Token} (enough : 0 < fuel)
    (read : (scan fuel text c).toList = .ok tokens) : ∃ step, Scan.next text c = .ok step := by
  obtain ⟨fuel, rfl⟩ := Nat.exists_eq_add_one.2 enough
  rw [scan] at read
  cases next : Scan.next text c with
  | error fault =>
      rw [next] at read
      contradiction
  | ok step => exact ⟨step, rfl⟩

theorem scan_enough {fuel fuel' : Nat} {text : Text} {c : Cursor} (enough : text.length < fuel)
    (enough' : text.length < fuel') : scan fuel text c = scan fuel' text c := by
  induction fuel generalizing fuel' text c with
  | zero => contradiction
  | succ fuel ih =>
      obtain ⟨fuel', rfl⟩ := Nat.exists_eq_add_one.2 (Nat.zero_lt_of_lt enough')
      cases next : Scan.next text c with
      | error fault => rw [scan, scan, next]
      | ok step =>
          by_cases last : step.token.kind = .endOfFile
          · rw [scan_endOfFile next last, scan_endOfFile next last]
          have shorter := Scan.next_shorter next last
          have same : scan fuel step.rest step.cursor = scan fuel' step.rest step.cursor := ih (by omega) (by omega)
          by_cases comment : step.token.kind = .comment
          · rw [scan_comment next comment, scan_comment next comment, same]
          · rw [scan_token next last comment, scan_token next last comment, same]

theorem scan_tiles {fuel : Nat} {text : Text} {c : Cursor} {tokens : List Token} (enough : text.length < fuel)
    (read : (scan fuel text c).toList = .ok tokens) : Tiles c.offset text tokens := by
  induction fuel generalizing text c tokens with
  | zero => contradiction
  | succ fuel ih =>
      obtain ⟨step, next⟩ := exists_next (Nat.succ_pos fuel) read
      obtain ⟨gap, units, place, rfl, ignored, offset, takes⟩ := Scan.next_takes next
      have ignorable : gap.IsIgnorable (units ++ step.rest) := .of_units ignored _
      have start := takes.start.trans offset
      have stop : step.token.stop = step.token.start + units.length := by rw [takes.stop, takes.start]
      by_cases last : step.token.kind = .endOfFile
      · rw [scan_endOfFile next last] at read
        obtain rfl := Except.ok.inj read
        obtain rfl := takes.last.1 last
        -- The end of the file has no units of its own, so the whole text is a gap.
        rw [takes.all last, List.nil_append] at ignorable ⊢
        exact .last (ignorable.append .nil) last (by rw [start, List.append_nil]) stop
      have some : units ≠ [] := mt takes.last.2 last
      have shorter : step.rest.length < fuel := by
        have := List.length_pos_iff.2 some
        simp only [List.length_append] at enough
        omega
      by_cases comment : step.token.kind = .comment
      · rw [scan_comment next comment] at read
        obtain ⟨step', more⟩ := exists_next (Nat.zero_lt_of_lt shorter) read
        have rest := ih shorter read
        rw [takes.cursor, offset] at rest
        exact .skip ignorable (.skip (takes.isIgnorable comment more) rest)
      · rw [scan_token next last comment] at read
        obtain ⟨others, others_read, rfl⟩ := cons_toList_ok.1 read
        have rest := ih shorter others_read
        rw [takes.cursor, ← takes.stop] at rest
        exact .cons ignorable last some start stop takes.written rest

end TokenStream

namespace Text

variable {body units rest : Text} {offset : Nat}

theorem slice_of_drop (behind : body.drop offset = units ++ rest) : body.slice offset (offset + units.length) = units := by
  rw [slice, behind, Nat.add_sub_cancel_left]
  exact List.take_left

theorem drop_of_drop (behind : body.drop offset = units ++ rest) : body.drop (offset + units.length) = rest := by
  rw [← List.drop_drop, behind]
  exact List.drop_left

end Text

namespace Tiles

variable {body text : Text} {offset : Nat} {tokens : List Token}

theorem bounds (tiles : Tiles offset text tokens) :
    ∀ t ∈ tokens, offset ≤ t.start ∧ t.start ≤ t.stop ∧ t.stop ≤ offset + text.length := by
  induction tiles with
  | last _ _ start stop => exact List.forall_mem_singleton.2 ⟨by omega, by omega, by omega⟩
  | cons _ _ _ start stop _ _ ih =>
      simp only [List.length_append]
      refine List.forall_mem_cons.2 ⟨⟨by omega, by omega, by omega⟩, fun t member => ?_⟩
      obtain ⟨lower, inside, upper⟩ := ih t member
      exact ⟨by omega, inside, by omega⟩

theorem ordered (tiles : Tiles offset text tokens) : tokens.Pairwise fun a b => a.stop ≤ b.start := by
  induction tiles with
  | last => exact List.pairwise_singleton _ _
  | cons _ _ _ _ _ _ rest ih => exact List.pairwise_cons.2 ⟨fun t member => (rest.bounds t member).1, ih⟩

theorem exists_last (tiles : Tiles offset text tokens) : ∃ front eof, tokens = front ++ [eof] ∧ eof.kind = .endOfFile ∧
    eof.start = offset + text.length ∧ eof.stop = offset + text.length ∧
    ∀ t ∈ front, t.kind ≠ .endOfFile ∧ t.start < t.stop := by
  induction tiles with
  | last _ kind start stop => exact ⟨[], _, rfl, kind, start, stop.trans start, List.forall_mem_nil _⟩
  | @cons offset gap units rest t _ _ kind some start stop _ _ ih =>
      obtain ⟨front, eof, rfl, last, eofStart, eofStop, others⟩ := ih
      have length : t.stop + rest.length = offset + (gap ++ (units ++ rest)).length := by
        simp only [List.length_append]
        omega
      have wide : t.start < t.stop := by
        have := List.length_pos_iff.2 some
        omega
      exact ⟨t :: front, eof, rfl, last, eofStart.trans length, eofStop.trans length,
        List.forall_mem_cons.2 ⟨⟨kind, wide⟩, others⟩⟩

theorem between (tiles : Tiles offset text tokens) (behind : body.drop offset = text) {before : Token}
    (ends : before.stop = offset) : (before :: tokens).IsChain fun a b =>
      (body.slice a.stop b.start).IsIgnorable (body.drop b.start) := by
  induction tiles generalizing before with
  | @last offset gap t ignorable kind start stop =>
      rw [← List.append_nil gap] at behind
      refine .cons_cons ?_ (.singleton t)
      rwa [ends, start, Text.slice_of_drop behind, Text.drop_of_drop behind]
  | @cons offset gap units rest t tokens ignorable kind some start stop written _ ih =>
      have here := Text.drop_of_drop behind
      refine .cons_cons ?_ (ih (by rw [stop, start, Text.drop_of_drop here]) rfl)
      rwa [ends, start, Text.slice_of_drop behind, here]

theorem written (tiles : Tiles offset text tokens) (behind : body.drop offset = text) :
    ∀ t ∈ tokens, t.IsWrittenAs (t.slice body) := by
  induction tiles with
  | last _ kind _ _ => exact List.forall_mem_singleton.2 (.ofEndOfFile kind _)
  | @cons offset gap units rest t tokens _ _ _ start stop written _ ih =>
      have here := Text.drop_of_drop behind
      rw [← start] at here
      refine List.forall_mem_cons.2 ⟨?_, ih (stop ▸ Text.drop_of_drop here)⟩
      rwa [Token.slice, stop, Text.slice_of_drop here]

end Tiles

theorem source_is_tiled {source : Source} {tokens : List Token} (read : source.tokens = .ok tokens) :
    source.IsTiledBy tokens := by
  have whole : (TokenStream.ofText source.body).toList = .ok tokens := by
    unfold Source.tokens at read
    cases stream : (TokenStream.ofText source.body).toList with
    | error fault =>
        rw [stream] at read
        contradiction
    | ok found =>
        rw [stream] at read
        exact congrArg _ (Except.ok.inj read)
  have tiles : Tiles 0 source.body tokens := TokenStream.scan_tiles (Nat.lt_succ_self _) whole
  obtain ⟨front, eof, split, kind, start, stop, others⟩ := tiles.exists_last
  rw [Nat.zero_add] at start stop
  exact {
    last := ⟨front, eof, split, kind, start, stop, others⟩
    inside := fun t member => (tiles.bounds t member).2.2.trans_eq (Nat.zero_add _)
    ordered := tiles.ordered
    between := tiles.between rfl rfl
    written := tiles.written rfl }

namespace CommentedQuery

def source : Source where
  body := 0xfeff :: Text.ofString "\x7b # all,\r\n a(b: -1.5e3, c: \"\\u\x7b41\x7d\") ...A\n\x7d#"

theorem is_tiled : ∃ tokens, source.tokens = .ok tokens ∧ source.IsTiledBy tokens := by
  obtain ⟨tokens, read⟩ := Run.exists_of_isOk (show source.tokens.isOk = true by decide +kernel)
  exact ⟨tokens, read, source_is_tiled read⟩

example : (source.tokens.toOption.map fun tokens => tokens.map fun t => (t.start, t.stop)) = some
    [(1, 2), (12, 13), (13, 14), (14, 15), (15, 16), (17, 23), (25, 26), (26, 27), (28, 36), (36, 37), (38, 41), (41, 42),
      (43, 44), (45, 45)] := by decide +kernel

end CommentedQuery

end QueryPlanner
