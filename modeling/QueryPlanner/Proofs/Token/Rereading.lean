import QueryPlanner.Proofs.Token.Coverage

/-!
# Tokens are read wherever they stand

What a token is read from does not depend on the place where it stands, and hardly on what follows: it is read again if
the text behind it begins as it did before, or begins with a unit that continues no token.
-/

namespace QueryPlanner
open CodeUnit

/-! ## Numbers -/

namespace Number

variable {offset : Nat} {text : Text} {part : Part}

theorem integer_stops (h : integer offset text = .ok part) : part.rest.Stops isDigit := by
  unfold integer at h
  split at h
  · split_ifs at h with digit
    obtain rfl := Except.ok.inj h
    exact .cons (by simpa using digit)
  · exact (digits_ok.1 h).2.2

theorem fraction_stops (h : fraction offset text = .ok part) (stops : text.Stops isDigit) : part.rest.Stops isDigit := by
  unfold fraction at h
  split at h
  · obtain ⟨inner, read, h⟩ := Run.except_bind_ok.1 h
    obtain rfl := Except.ok.inj h
    exact (digits_ok.1 read).2.2
  · obtain rfl := Except.ok.inj h
    exact stops

theorem exponent_stops (h : exponent offset text = .ok part) (stops : text.Stops isDigit) : part.rest.Stops isDigit := by
  unfold exponent at h
  split at h
  · split_ifs at h with letter
    · obtain ⟨inner, read, h⟩ := Run.except_bind_ok.1 h
      obtain rfl := Except.ok.inj h
      exact (digits_ok.1 read).2.2
    · obtain rfl := Except.ok.inj h
      exact stops
  · obtain rfl := Except.ok.inj h
    exact .nil

theorem ends_of_stops (stops : text.Stops isDigit) (last : continues text = false) : Ends text := by
  cases text with
  | nil => exact .nil
  | cons u rest =>
      rw [continues, Bool.or_eq_false_iff] at last
      exact .cons (by simp [stops u rfl, last])

theorem scan_ends {kind : TokenKind} (h : scan offset text = .ok (kind, part)) : Ends part.rest := by
  unfold scan at h
  obtain ⟨i, integerRead, h⟩ := Run.except_bind_ok.1 h
  obtain ⟨f, fractionRead, h⟩ := Run.except_bind_ok.1 h
  obtain ⟨e, exponentRead, h⟩ := Run.except_bind_ok.1 h
  have stops := exponent_stops exponentRead (fraction_stops fractionRead (integer_stops integerRead))
  dsimp only at h
  by_cases more : continues e.rest = true
  · rw [if_pos more] at h
    contradiction
  · rw [if_neg more] at h
    obtain ⟨-, rfl⟩ := Prod.mk.inj (Except.ok.inj h)
    exact ends_of_stops stops (by simpa using more)

end Number

/-! ## Strings -/

namespace StringLiteral

variable {text after : Text} {e : Escape}

theorem bracedEscape_local {size : Nat} {point : Word} (h : bracedEscape text size point = .ok e) :
    bracedEscape (text.take (e.size - size) ++ after) size point = .ok e := by
  induction text generalizing size point with
  | nil => contradiction
  | cons u rest ih =>
      have bound := (bracedEscape_line h).1
      rw [show e.size - size = (e.size - (size + 1)) + 1 by omega, List.take_succ_cons, List.cons_append]
      unfold bracedEscape at h ⊢
      dsimp only at h ⊢
      split_ifs at h ⊢ with full close bad large
      · exact h
      · exact ih h

theorem fourDigits?_local {point : Nat} (h : fourDigits? text = some point) :
    fourDigits? (text.take 4 ++ after) = some point := by
  obtain ⟨a, b, c, d, rest, i, j, k, l, rfl, digits⟩ := fourDigits?_eq_some_iff.1 h
  exact fourDigits?_eq_some_iff.2 ⟨a, b, c, d, after, i, j, k, l, rfl, digits⟩

theorem trailingHalf?_local {trail : CodeUnit} (h : trailingHalf? text = some trail) :
    trailingHalf? (text.take 6 ++ after) = some trail := by
  unfold trailingHalf? at h
  split at h
  · obtain ⟨point, digits, h⟩ := Option.bind_eq_some_iff.1 h
    exact Option.bind_eq_some_iff.2 ⟨point, fourDigits?_local digits, h⟩
  · contradiction

theorem fixedEscape?_local (h : fixedEscape? text = some e) : fixedEscape? (text.take (e.size - 2) ++ after) = some e := by
  unfold fixedEscape? at h ⊢
  simp only [Option.bind_eq_bind, Option.bind_eq_some_iff] at h ⊢
  obtain ⟨point, first, h⟩ := h
  split_ifs at h with scalar lead
  · obtain rfl := Option.some.inj h
    exact ⟨point, fourDigits?_local first, by rw [if_pos scalar]; rfl⟩
  · obtain ⟨trail, second, h⟩ := Option.bind_eq_some_iff.1 h
    obtain rfl := Option.some.inj h
    obtain ⟨a, b, c, d, rest, -, -, -, -, rfl, -⟩ := fourDigits?_eq_some_iff.1 first
    refine ⟨point, first, ?_⟩
    have second : trailingHalf? (rest.take 6 ++ after) = some trail := trailingHalf?_local second
    rw [if_neg scalar, if_pos lead]
    exact Option.bind_eq_some_iff.2 ⟨trail, second, rfl⟩

theorem escape_local (h : escape text = .ok e) : escape (text.take (e.size - 1) ++ after) = .ok e := by
  unfold escape at h
  split at h
  · split at h
    · rename_i e' read
      obtain rfl := Except.ok.inj h
      have bound := (bracedEscape_line read).1
      rw [show e'.size - 1 = (e'.size - 3) + 2 by omega, List.take_succ_cons, List.take_succ_cons, List.cons_append,
        List.cons_append, escape, bracedEscape_local read]
    · contradiction
  · rename_i rest single
    split at h
    · rename_i e' read
      obtain rfl := Except.ok.inj h
      have bound := (fixedEscape?_line read).1
      have some : rest.take (e'.size - 2) ≠ [] := by
        intro none
        have whole : fixedEscape? (rest.take (e'.size - 2) ++ []) = some e' := fixedEscape?_local read
        rw [none] at whole
        contradiction
      have begins (t : Text) (same : rest.take (e'.size - 2) ++ after = 0x7b :: t) : False := by
        obtain ⟨u, units, taken⟩ := List.exists_cons_of_ne_nil some
        rw [taken, List.cons_append, List.cons.injEq] at same
        have whole := List.take_append_drop (e'.size - 2) rest
        rw [taken, same.1] at whole
        exact single _ whole.symm
      rw [show e'.size - 1 = (e'.size - 2) + 1 by omega, List.take_succ_cons, List.cons_append,
        escape.eq_2 _ begins, fixedEscape?_local read]
    · contradiction
  · rename_i u tail _ other
    split at h
    · rename_i value found
      obtain rfl := Except.ok.inj h
      change escape (u :: after) = _
      rw [escape.eq_3 _ _ (fun _ same => absurd same other) other, found]
    · contradiction
  · contradiction

theorem characters_local {start skip offset : Nat} {value : Text} {scanned : Scanned}
    (h : characters start text skip offset value = .ok scanned) : ∃ taken, text = taken ++ scanned.rest ∧
      skip < taken.length ∧ ∀ start' offset' after, characters start' (taken ++ after) skip offset' value =
        .ok ⟨scanned.value, offset' + taken.length, after⟩ := by
  fun_induction characters start text skip offset value with
  | case1 => contradiction
  | case2 u rest skip offset value ih =>
      obtain ⟨taken, rfl, longer, again⟩ := ih h
      refine ⟨u :: taken, rfl, Nat.succ_lt_succ longer, fun start' offset' after => ?_⟩
      rw [List.cons_append, characters, again, List.length_cons, Nat.add_assoc, Nat.add_comm 1]
  | case3 rest offset value =>
      obtain rfl := Except.ok.inj h
      exact ⟨[quote], rfl, Nat.zero_lt_one, fun start' offset' after => by simp [characters.eq_def]⟩
  | case4 rest offset value e read _ ih =>
      obtain ⟨taken, rfl, longer, again⟩ := ih h
      refine ⟨backslash :: taken, rfl, Nat.succ_pos _, fun start' offset' after => ?_⟩
      -- The escape is over before the units that have been taken are.
      have read : escape (taken ++ after) = .ok e := by
        have whole : escape ((taken ++ scanned.rest).take (e.size - 1) ++ (taken.drop (e.size - 1) ++ after)) = .ok e :=
          escape_local read
        rwa [List.take_append_of_le_length (Nat.le_of_lt longer), ← List.append_assoc, List.take_append_drop] at whole
      rw [List.cons_append, characters_escape _ _ read, again, List.length_cons, Nat.add_assoc, Nat.add_comm 1]
  | case5 => contradiction
  | case6 => contradiction
  | case7 u rest offset value inside plain line single ih =>
      obtain ⟨taken, rfl, longer, again⟩ := ih h
      refine ⟨u :: taken, rfl, Nat.succ_pos _, fun start' offset' after => ?_⟩
      have step : characters start' (u :: (taken ++ after)) 0 offset' value =
          characters start' (taken ++ after) 0 (offset' + 1) (u :: value) := by
        rw [characters.eq_def]
        simp [inside, plain, line, single]
      rw [List.cons_append, step, again, List.length_cons, Nat.add_assoc, Nat.add_comm 1]
  | case8 u offset value inside plain line half v rest pair ih =>
      obtain ⟨taken, rfl, longer, again⟩ := ih h
      refine ⟨u :: v :: taken, rfl, Nat.succ_pos _, fun start' offset' after => ?_⟩
      have step : characters start' (u :: v :: (taken ++ after)) 0 offset' value =
          characters start' (taken ++ after) 0 (offset' + 2) (v :: u :: value) := by
        rw [characters.eq_def]
        simp [inside, plain, line, half, pair]
      rw [List.cons_append, List.cons_append, step, again, List.length_cons, List.length_cons, Nat.add_assoc,
        Nat.add_comm 2]
  | case9 => contradiction
  | case10 => contradiction

end StringLiteral

namespace BlockLiteral

structure Reading.Like (r r' : Reading) : Prop where
  current : r'.current = r.current
  before : r'.before = r.before

namespace Reading.Like

variable {r r' : Reading}

theorem push (like : r.Like r') (units : Text) (size : Nat) : (r.push units size).Like (r'.push units size) :=
  ⟨congrArg (units.reverse ++ ·) like.current, like.before⟩

theorem endLine (like : r.Like r') (size : Nat) : (r.endLine size).Like (r'.endLine size) :=
  ⟨rfl, by rw [Reading.endLine, Reading.endLine, like.current, like.before]⟩

theorem lines (like : r.Like r') : r'.lines = r.lines := by
  rw [Reading.lines, Reading.lines, like.current, like.before]

end Reading.Like

theorem exists_of_three_le {taken : Text} (longer : 3 ≤ taken.length) : ∃ a b c rest, taken = a :: b :: c :: rest := by
  match taken, longer with
  | a :: b :: c :: rest, _ => exact ⟨a, b, c, rest, rfl⟩

theorem no_quotes {u v a b : CodeUnit} {rest rest' : Text}
    (closing : ∀ t, u = quote → v = quote → a :: b :: rest = quote :: t → False)
    (quoted : ∀ t, u = backslash → v = quote → a :: b :: rest = quote :: quote :: t → False) :
    (∀ t, u = quote → v = quote → a :: b :: rest' = quote :: t → False) ∧
      ∀ t, u = backslash → v = quote → a :: b :: rest' = quote :: quote :: t → False := by
  refine ⟨fun t first second others => ?_, fun t first second others => ?_⟩
  · rw [List.cons.injEq] at others
    exact closing _ first second (by rw [others.1])
  · rw [List.cons.injEq, List.cons.injEq] at others
    exact quoted _ first second (by rw [others.1, others.2.1])

theorem characters_local {start : Nat} {text : Text} {r : Reading} {scanned : Scanned}
    (h : characters start text r = .ok scanned) : ∃ taken, text = taken ++ scanned.rest ∧ 3 ≤ taken.length ∧
      ∀ start' after r', r.Like r' → Yields (characters start' (taken ++ after) r') scanned.value after := by
  fun_induction characters start text r with
  | case1 => contradiction
  | case2 rest r =>
      obtain rfl := Except.ok.inj h
      refine ⟨[quote, quote, quote], rfl, Nat.le_refl 3, fun start' after r' like =>
        ⟨r'.offset + 3, r'.before.length, r'.lineStart, ?_⟩⟩
      rw [← like.lines]
      rfl
  | case3 rest r ih =>
      obtain ⟨taken, rfl, longer, again⟩ := ih h
      refine ⟨backslash :: quote :: quote :: quote :: taken, rfl, Nat.le_add_left 3 _, fun start' after r' like => ?_⟩
      exact again start' after _ (like.push BlockString.tripleQuote 4)
  | case4 rest r ih =>
      obtain ⟨taken, rfl, longer, again⟩ := ih h
      refine ⟨lineFeed :: taken, rfl, Nat.le_succ_of_le longer, fun start' after r' like => ?_⟩
      exact again start' after _ (like.endLine 1)
  | case5 rest r ih =>
      obtain ⟨taken, rfl, longer, again⟩ := ih h
      refine ⟨carriageReturn :: lineFeed :: taken, rfl, Nat.le_succ_of_le (Nat.le_succ_of_le longer),
        fun start' after r' like => ?_⟩
      exact again start' after _ (like.endLine 2)
  | case6 rest r single ih =>
      obtain ⟨taken, rfl, longer, again⟩ := ih h
      obtain ⟨a, b, c, taken, rfl⟩ := exists_of_three_le longer
      refine ⟨carriageReturn :: a :: b :: c :: taken, rfl, Nat.le_add_left 3 _, fun start' after r' like => ?_⟩
      have single (t : Text) (same : a :: b :: c :: taken ++ after = lineFeed :: t) : False :=
        single _ (by rw [(List.cons.inj same).1]; rfl)
      rw [List.cons_append, carriageReturn, characters.eq_6 _ _ _ single]
      exact again start' after _ (like.endLine 1)
  | case7 => contradiction
  | case8 u v rest r closing quoted feed pair ret single ih =>
      obtain ⟨taken, whole, longer, again⟩ := ih h
      obtain ⟨a, b, c, taken, rfl⟩ := exists_of_three_le longer
      obtain ⟨rfl, rfl⟩ := List.cons.inj whole
      refine ⟨u :: v :: b :: c :: taken, rfl, Nat.le_add_left 3 _, fun start' after r' like => ?_⟩
      obtain ⟨closing, quoted⟩ := no_quotes closing quoted
      simp only [List.cons_append]
      rw [characters.eq_8 _ _ _ _ _ closing quoted feed pair ret, if_pos single]
      exact again start' after _ (like.push [u] 1)
  | case9 u v rest r closing quoted feed pair ret half whole ih =>
      obtain ⟨taken, rfl, longer, again⟩ := ih h
      obtain ⟨a, b, c, taken, rfl⟩ := exists_of_three_le longer
      refine ⟨u :: v :: a :: b :: c :: taken, rfl, Nat.le_add_left 3 _, fun start' after r' like => ?_⟩
      obtain ⟨closing, quoted⟩ := no_quotes closing quoted
      simp only [List.cons_append]
      rw [characters.eq_8 _ _ _ _ _ closing quoted feed pair ret, if_neg half, if_pos whole]
      exact again start' after _ (like.push [u, v] 2)
  | case10 => contradiction

end BlockLiteral

/-! ## Tokens -/

def CodeUnit.joins (u : CodeUnit) : Bool := isNameContinue u || u == 0x2e || u == quote

/-- Behind a token the text may stand in place of the other one. -/
def Text.Replaces (after rest : Text) : Prop := after.head? = rest.head? ∨ after.Stops joins

theorem Text.Replaces.stops {after rest : Text} {p : CodeUnit → Bool} (replaces : after.Replaces rest)
    (stops : rest.Stops p) (weaker : ∀ u, p u = true → u.joins = true) : after.Stops p := by
  obtain same | apart := replaces
  · unfold Text.Stops
    rwa [same]
  · exact apart.imp weaker

theorem CodeUnit.joins_of_isNameContinue {u : CodeUnit} (continues : isNameContinue u = true) : u.joins = true := by
  rw [joins, continues, Bool.true_or, Bool.true_or]

structure Token.IsReadFrom (t : Token) (units rest : Text) : Prop where
  lexeme : t.lexeme = ⟨t.kind, t.value⟩
  opens : (units ++ rest).Stops isLineEnd
  again : ∀ after : Text, after.Replaces rest → ReadsToken (units ++ after) t.lexeme after

theorem Number.Ends.replaced {after rest : Text} (ends : Number.Ends rest) (replaces : after.Replaces rest) :
    Number.Ends after := by
  refine replaces.stops ends fun u other => ?_
  rw [joins, isNameContinue]
  grind

theorem StringLiteral.not_opening {start : Nat} {taken after : Text} {scanned : Scanned}
    (read : scan start (taken ++ scanned.rest) = .ok scanned) (nonempty : taken ≠ [])
    (single : ∀ t, taken ++ scanned.rest ≠ quote :: quote :: t) (replaces : after.Replaces scanned.rest) (t : Text) :
    taken ++ after ≠ quote :: quote :: t := by
  intro same
  obtain ⟨u, taken, rfl⟩ := List.exists_cons_of_ne_nil nonempty
  obtain ⟨rfl, behind⟩ := List.cons.inj same
  have empty : scan start (quote :: (taken ++ scanned.rest)) = .ok ⟨[], start + 2, taken ++ scanned.rest⟩ := by
    rw [scan, characters.eq_def]
    rfl
  have none : taken = [] := by
    rw [List.cons_append, empty] at read
    simpa using congrArg Scanned.rest (Except.ok.inj read)
  subst none
  have next : after.head? = some quote := congrArg List.head? behind
  obtain head | stops := replaces
  · obtain ⟨rest, behind⟩ := List.head?_eq_some_iff.1 (head.symm.trans next)
    exact single rest (congrArg (quote :: ·) behind)
  · exact absurd (stops quote next) (by decide)

namespace Scan

variable {text : Text} {c : Cursor} {step : Step}

theorem skipIgnored_stops (text : Text) (c : Cursor) : (skipIgnored text c).1.Stops isLineEnd := by
  fun_induction skipIgnored text c with
  | case1 rest c ih => exact ih
  | case2 rest c ih => exact ih
  | case3 rest c _ ih => exact ih
  | case4 u rest c _ _ _ skipped ih => exact ih
  | case5 u rest c feed _ ret => exact .cons (Text.isLineEnd_of_ne feed ret)
  | case6 => exact .nil

theorem shorter_append {u : CodeUnit} (taken after : Text) : after.length < (u :: (taken ++ after)).length := by
  rw [List.length_cons, List.length_append]
  omega

theorem lexeme_again (h : lexeme text c = .ok step) (more : step.token.kind ≠ .endOfFile)
    (shown : step.token.kind ≠ .comment) : ∃ units, text = units ++ step.rest ∧
      ∀ after, after.Replaces step.rest → ReadsToken (units ++ after) step.token.lexeme after := by
  unfold lexeme at h
  split at h
  · obtain rfl := Except.ok.inj h
    exact absurd rfl more
  · obtain rfl := Except.ok.inj h
    exact ⟨[0x2e, 0x2e, 0x2e], rfl, fun after _ => .spread after⟩
  · obtain ⟨literal, read, h⟩ := Run.except_bind_ok.1 h
    obtain rfl := Except.ok.inj h
    obtain ⟨taken, rfl, -, again⟩ := BlockLiteral.characters_local read
    refine ⟨quote :: quote :: quote :: taken, rfl, fun after _ => ?_⟩
    have visible : TokenKind.blockString ≠ .endOfFile ∧ TokenKind.blockString ≠ .comment := by decide
    refine .ofLexeme ⟨rfl, rfl⟩ visible (shorter_append (u := quote) (quote :: quote :: taken) after) fun c => ?_
    obtain ⟨stop, lineEnds, lineStart, scanned⟩ :=
      again c.offset after { offset := c.offset + 3, lineStart := c.lineStart } ⟨rfl, rfl⟩
    refine ⟨⟨c.token .blockString (stop - c.offset) literal.value, after, ⟨stop, c.line + lineEnds, lineStart⟩⟩, ?_, rfl,
      rfl⟩
    change lexeme (quote :: quote :: quote :: (taken ++ after)) c = _
    rw [lexeme, BlockLiteral.scan, scanned]
    rfl
  · rename_i u rest dots quotes
    split_ifs at h with hash quoted digit letter
    · obtain rfl := Except.ok.inj h
      exact absurd rfl shown
    · obtain ⟨literal, read, h⟩ := Run.except_bind_ok.1 h
      obtain rfl := Except.ok.inj h
      obtain ⟨taken, rfl, longer, again⟩ := StringLiteral.characters_local read
      refine ⟨u :: taken, rfl, fun after replaces => ?_⟩
      -- Two quotes with a third one behind would be the opening ones of a block string.
      have single := StringLiteral.not_opening read (List.ne_nil_of_length_pos longer) (fun t => quotes t quoted) replaces
      have visible : TokenKind.string ≠ .endOfFile ∧ TokenKind.string ≠ .comment := by decide
      refine .ofLexeme (quoted ▸ ⟨rfl, rfl⟩) visible (shorter_append taken after) fun c => ?_
      have scanned := again c.offset (c.offset + 1) after
      refine ⟨⟨c.token .string (c.offset + 1 + taken.length - c.offset) literal.value, after,
        c.advance (c.offset + 1 + taken.length - c.offset)⟩, ?_, rfl, rfl⟩
      change lexeme (u :: (taken ++ after)) c = _
      rw [lexeme.eq_4 _ _ _ (fun _ dot _ => absurd (quoted ▸ dot) (by decide)) fun t _ => single t, if_neg hash,
        if_pos quoted, StringLiteral.scan, scanned]
      rfl
    · obtain ⟨⟨kind, part⟩, read, h⟩ := Run.except_bind_ok.1 h
      obtain rfl := Except.ok.inj h
      obtain ⟨number, whole⟩ := Number.scan_sound read
      refine ⟨part.written, whole, fun after replaces => ?_⟩
      have reads := ReadsToken.number number ((Number.scan_ends read).replaced replaces)
      obtain rfl | rfl := number.kind <;> exact reads
    · obtain rfl := Except.ok.inj h
      refine ⟨u :: rest.takeWhile isNameContinue, congrArg (u :: ·) List.takeWhile_append_dropWhile.symm,
        fun after replaces => ?_⟩
      have stops : Text.Stops isNameContinue (rest.dropWhile isNameContinue) := by
        intro v first
        have := List.head?_dropWhile_not isNameContinue rest
        rw [first] at this
        simpa using this
      exact .word ⟨u, _, rfl, letter, fun v member => List.mem_takeWhile_imp member⟩
        (replaces.stops stops fun _ => joins_of_isNameContinue)
    · split at h
      · rename_i kind found
        obtain rfl := Except.ok.inj h
        have lexeme : (c.token kind 1 []).lexeme = .mark kind := congrArg _ (ite_self _)
        exact ⟨[u], rfl, fun after _ => lexeme ▸ .unit found after⟩
      · contradiction

theorem lexeme_value (h : lexeme text c = .ok step) : step.token.lexeme = ⟨step.token.kind, step.token.value⟩ ∧
    (step.token.kind = .endOfFile → step.token.value = []) := by
  unfold lexeme at h
  split at h
  · obtain rfl := Except.ok.inj h
    exact ⟨rfl, fun _ => rfl⟩
  · obtain rfl := Except.ok.inj h
    exact ⟨rfl, nofun⟩
  · obtain ⟨literal, -, h⟩ := Run.except_bind_ok.1 h
    obtain rfl := Except.ok.inj h
    exact ⟨rfl, nofun⟩
  · rename_i u rest _ _
    split_ifs at h with hash quoted digit letter
    · obtain rfl := Except.ok.inj h
      exact ⟨rfl, nofun⟩
    · obtain ⟨literal, -, h⟩ := Run.except_bind_ok.1 h
      obtain rfl := Except.ok.inj h
      exact ⟨rfl, nofun⟩
    · obtain ⟨⟨kind, part⟩, read, h⟩ := Run.except_bind_ok.1 h
      obtain rfl := Except.ok.inj h
      obtain rfl | rfl := (Number.scan_sound read).1.kind <;> exact ⟨rfl, nofun⟩
    · obtain rfl := Except.ok.inj h
      exact ⟨rfl, nofun⟩
    · split at h
      · obtain rfl := Except.ok.inj h
        exact ⟨congrArg _ (ite_self _), fun _ => rfl⟩
      · contradiction

theorem next_again (h : next text c = .ok step) (more : step.token.kind ≠ .endOfFile)
    (shown : step.token.kind ≠ .comment) : ∃ gap units place, text = gap ++ (units ++ step.rest) ∧
      (∀ u ∈ gap, u.isLineEnd = true ∨ isIgnored u = true) ∧ place.offset = c.offset + gap.length ∧
      step.Takes place units ∧ step.token.IsReadFrom units step.rest := by
  obtain ⟨gap, whole, offset, ignored⟩ := skipIgnored_leaves text c
  have stops := skipIgnored_stops text c
  obtain ⟨units, begins, takes⟩ := lexeme_takes h
  obtain ⟨units', begins', again⟩ := lexeme_again h more shown
  obtain rfl : units = units' := List.append_cancel_right (begins.symm.trans begins')
  exact ⟨gap, units, _, begins ▸ whole, ignored, offset, takes, (lexeme_value h).1, begins ▸ stops, again⟩

end Scan

end QueryPlanner
