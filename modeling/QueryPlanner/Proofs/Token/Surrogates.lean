import QueryPlanner.Proofs.Token.BlockValue
import QueryPlanner.Proofs.Token.Fillers
import QueryPlanner.Proofs.Token.StringGrammar

namespace QueryPlanner
open CodeUnit

namespace Text

structure IsPaired (text : Text) : Prop where
  leading : ∀ i u, text[i]? = some u → u.isLeadingSurrogate = true →
    ∃ v, text[i + 1]? = some v ∧ v.isTrailingSurrogate = true
  trailing : ∀ i v, text[i]? = some v → v.isTrailingSurrogate = true →
    ∃ j u, i = j + 1 ∧ text[j]? = some u ∧ u.isLeadingSurrogate = true

variable {u v : CodeUnit} {rest : Text}

theorem isScalar_eq_false_iff : u.isScalar = false ↔ u.isLeadingSurrogate = true ∨ u.isTrailingSurrogate = true := by
  simp only [isScalar, isLeadingSurrogate, isTrailingSurrogate, Bool.not_eq_false', Bool.and_eq_true, decide_eq_true_eq,
    UInt16.le_iff_toNat_le, UInt16.reduceToNat]
  omega

theorem not_leading_of_trailing (trailing : u.isTrailingSurrogate = true) : u.isLeadingSurrogate = false := by
  simp only [isLeadingSurrogate, isTrailingSurrogate, Bool.and_eq_true, decide_eq_true_eq, Bool.and_eq_false_iff,
    decide_eq_false_iff_not, UInt16.le_iff_toNat_le, UInt16.reduceToNat] at trailing ⊢
  omega

theorem not_leading_of_scalar (single : u.isScalar = true) : u.isLeadingSurrogate = false :=
  Bool.eq_false_iff.2 fun lead => by
    rw [isScalar_eq_false_iff.2 (.inl lead)] at single
    contradiction

theorem not_trailing_of_scalar (single : u.isScalar = true) : u.isTrailingSurrogate = false :=
  Bool.eq_false_iff.2 fun trail => by
    rw [isScalar_eq_false_iff.2 (.inr trail)] at single
    contradiction

theorem isPaired_nil : IsPaired [] := ⟨by simp, by simp⟩

theorem IsPaired.cons (paired : IsPaired rest) (single : u.isScalar = true) : IsPaired (u :: rest) where
  leading i w here half := by
    cases i with
    | zero =>
        obtain rfl := Option.some.inj here
        rw [not_leading_of_scalar single] at half
        contradiction
    | succ i => exact paired.leading i w here half
  trailing i w here half := by
    cases i with
    | zero =>
        obtain rfl := Option.some.inj here
        rw [not_trailing_of_scalar single] at half
        contradiction
    | succ i =>
        obtain ⟨j, t, rfl, before, lead⟩ := paired.trailing i w here half
        exact ⟨j + 1, t, rfl, before, lead⟩

theorem IsPaired.cons_cons (paired : IsPaired rest) (pair : isPair u v = true) : IsPaired (u :: v :: rest) := by
  rw [isPair, Bool.and_eq_true] at pair
  refine ⟨fun i w here half => ?_, fun i w here half => ?_⟩
  · obtain _ | _ | i := i
    · exact ⟨v, rfl, pair.2⟩
    · obtain rfl := Option.some.inj here
      simp [not_leading_of_trailing pair.2] at half
    · exact paired.leading i w here half
  · obtain _ | _ | i := i
    · obtain rfl := Option.some.inj here
      simp [not_leading_of_trailing half] at pair
    · exact ⟨0, u, rfl, rfl, pair.1⟩
    · obtain ⟨j, t, rfl, before, lead⟩ := paired.trailing i w here half
      exact ⟨j + 2, t, rfl, before, lead⟩

theorem IsPaired.of_append {a : Text} (paired : IsPaired (a ++ rest)) (last : ∀ u ∈ a.getLast?, u.isLeadingSurrogate = false) :
    IsPaired rest := by
  have behind (i : Nat) : (a ++ rest)[a.length + i]? = rest[i]? := by
    rw [List.getElem?_append_right (Nat.le_add_right _ _), Nat.add_sub_cancel_left]
  refine ⟨fun i w here half => ?_, fun i w here half => ?_⟩
  · rw [← behind] at here
    obtain ⟨v, next, trail⟩ := paired.leading _ w here half
    rw [Nat.add_assoc, behind] at next
    exact ⟨v, next, trail⟩
  · rw [← behind] at here
    obtain ⟨j, t, place, before, lead⟩ := paired.trailing _ w here half
    cases i with
    | zero =>
        have inside : a[a.length - 1]? = some t := by
          obtain rfl : j = a.length - 1 := by omega
          rwa [List.getElem?_append_left (by omega)] at before
        rw [last t (List.getLast?_eq_getElem? ▸ inside)] at lead
        contradiction
    | succ i =>
        obtain rfl : j = a.length + i := by omega
        exact ⟨i, t, rfl, behind i ▸ before, lead⟩

theorem IsPaired.head (paired : IsPaired (u :: rest)) (half : u.isScalar = false) :
    ∃ v others, rest = v :: others ∧ isPair u v = true ∧ IsPaired others := by
  obtain lead | trail := isScalar_eq_false_iff.1 half
  · obtain ⟨v, next, trail⟩ := paired.leading 0 u rfl lead
    obtain ⟨others, rfl⟩ := List.head?_eq_some_iff.1 (List.head?_eq_getElem? ▸ next)
    have pair : isPair u v = true := by
      rw [isPair, lead, trail]
      rfl
    refine ⟨v, others, rfl, pair, IsPaired.of_append (a := [u, v]) paired ?_⟩
    rintro _ ⟨⟩
    exact not_leading_of_trailing trail
  · obtain ⟨_, _, place, -⟩ := paired.trailing 0 u rfl trail
    contradiction

theorem wellFormed_iff_isPaired {text : Text} : text.WellFormed ↔ text.IsPaired := by
  constructor
  · intro wellFormed
    induction wellFormed.characters with
    | nil => exact isPaired_nil
    | scalar single _ ih => exact (ih ((WellFormed.scalar single).1 wellFormed)).cons single
    | pair pair _ ih => exact (ih ((WellFormed.pair pair).1 wellFormed)).cons_cons pair
  · intro paired
    induction text using isWellFormed.induct with
    | case1 => exact .nil
    | case2 u rest single ih =>
        refine (WellFormed.scalar single).2 (ih (IsPaired.of_append (a := [u]) paired ?_))
        rintro _ ⟨⟩
        exact not_leading_of_scalar single
    | case3 u half v rest ih =>
        obtain ⟨_, _, same, pair, others⟩ := paired.head (by simpa using half)
        obtain ⟨rfl, rfl⟩ := List.cons.inj same
        exact (WellFormed.pair pair).2 (ih others)
    | case4 u half =>
        obtain ⟨_, _, same, -⟩ := paired.head (by simpa using half)
        contradiction

end Text

namespace StringLiteral

variable {digits sequence written value inside : Text} {n : Nat}

theorem isScalar_of_hexValue? {u : CodeUnit} {digit : Nat} (h : u.hexValue? = some digit) : u.isScalar = true := by
  apply Scan.isScalar_of_le
  unfold hexValue? at h
  simp only [Bool.and_eq_true, decide_eq_true_eq] at h
  split_ifs at h with numeral upper lower
  · exact UInt16.le_trans numeral.2 (by decide)
  · exact UInt16.le_trans upper.2 (by decide)
  · exact UInt16.le_trans lower.2 (by decide)

theorem IsHex.isScalar (isHex : IsHex digits n) : ∀ u ∈ digits, u.isScalar = true := by
  induction isHex with
  | nil => exact List.forall_mem_nil _
  | snoc _ value ih => exact List.forall_mem_append.2 ⟨ih, List.forall_mem_singleton.2 (isScalar_of_hexValue? value)⟩

theorem IsEscape.isScalar (isEscape : IsEscape sequence value) : ∀ u ∈ sequence, u.isScalar = true := by
  cases isEscape with
  | short member =>
      refine List.forall_mem_singleton.2 ?_
      have letters : ∀ pair ∈ shortEscapes, pair.1.isScalar = true := List.all_eq_true.1 (by decide)
      exact letters _ member
  | fixed isHex => exact List.forall_mem_cons.2 ⟨rfl, isHex.isScalar⟩
  | pair first _ second =>
      have opening : ∀ u ∈ [backslash, 0x75], u.isScalar = true := List.all_eq_true.1 (by decide)
      exact List.forall_mem_cons.2 ⟨rfl, List.forall_mem_append.2 ⟨first.isScalar,
        List.forall_mem_append.2 ⟨opening, second.isScalar⟩⟩⟩
  | braced isHex =>
      exact List.forall_mem_cons.2 ⟨rfl, List.forall_mem_cons.2 ⟨rfl,
        List.forall_mem_append.2 ⟨isHex.isScalar, List.forall_mem_singleton.2 rfl⟩⟩⟩

theorem IsCharacter.written_wellFormed (isCharacter : IsCharacter written value) : written.WellFormed := by
  cases isCharacter with
  | single single => exact (Text.WellFormed.scalar single).2 .nil
  | pair pair => exact (Text.WellFormed.pair pair).2 .nil
  | escape isEscape => exact .of_all (List.forall_mem_cons.2 ⟨rfl, isEscape.isScalar⟩)

theorem AreCharacters.written_wellFormed (areCharacters : AreCharacters inside value) : inside.WellFormed := by
  induction areCharacters with
  | nil => exact .nil
  | cons first _ ih => exact first.written_wellFormed.append ih

end StringLiteral

theorem BlockLiteral.characters_takes {start : Nat} {text : Text} {r : Reading} {scanned : Scanned}
    (h : characters start text r = .ok scanned) : ∃ taken, text = taken ++ scanned.rest ∧ taken.WellFormed := by
  fun_induction characters start text r with
  | case1 => contradiction
  | case2 =>
      obtain rfl := Except.ok.inj h
      exact ⟨[quote, quote, quote], rfl, by decide⟩
  | case3 _ _ ih =>
      obtain ⟨taken, rfl, whole⟩ := ih h
      exact ⟨[backslash, quote, quote, quote] ++ taken, rfl, .append (by decide) whole⟩
  | case4 _ _ ih =>
      obtain ⟨taken, rfl, whole⟩ := ih h
      exact ⟨[lineFeed] ++ taken, rfl, .append (by decide) whole⟩
  | case5 _ _ ih =>
      obtain ⟨taken, rfl, whole⟩ := ih h
      exact ⟨[carriageReturn, lineFeed] ++ taken, rfl, .append (by decide) whole⟩
  | case6 _ _ _ ih =>
      obtain ⟨taken, rfl, whole⟩ := ih h
      exact ⟨[carriageReturn] ++ taken, rfl, .append (by decide) whole⟩
  | case7 => contradiction
  | case8 u _ _ _ _ _ _ _ _ single ih =>
      obtain ⟨taken, behind, whole⟩ := ih h
      exact ⟨u :: taken, congrArg (u :: ·) behind, (Text.WellFormed.scalar single).2 whole⟩
  | case9 u v _ _ _ _ _ _ _ _ pair ih =>
      obtain ⟨taken, rfl, whole⟩ := ih h
      exact ⟨u :: v :: taken, rfl, (Text.WellFormed.pair pair).2 whole⟩
  | case10 => contradiction

namespace Scan

variable {text : Text} {c : Cursor} {step : Step}

theorem isScalar_of_isNameContinue {u : CodeUnit} (inside : isNameContinue u = true) : u.isScalar = true := by
  obtain letter | digit := Bool.or_eq_true_iff.1 inside
  · exact isScalar_of_le (le_of_isNameStart letter)
  · exact isScalar_of_le (le_of_isDigit digit)

theorem name_wellFormed {u : CodeUnit} (first : isNameStart u = true) (rest : Text) :
    Text.WellFormed (u :: rest.takeWhile isNameContinue) := by
  refine .of_all (List.forall_mem_cons.2 ⟨isScalar_of_le (le_of_isNameStart first), fun v member => ?_⟩)
  exact isScalar_of_isNameContinue (List.mem_takeWhile_imp member)

theorem number_wellFormed {kind : TokenKind} (number : Number.IsNumber kind text) : text.WellFormed :=
  .of_all (number.all (fun _ digit => isScalar_of_le (le_of_isDigit digit)) (List.all_eq_true.1 (by decide)))

theorem lexeme_wellFormed (read : lexeme text c = .ok step) :
    (∃ units, text = units ++ step.rest ∧ units.WellFormed) ∧ step.token.value.WellFormed := by
  unfold lexeme at read
  split at read
  · obtain rfl := Except.ok.inj read
    exact ⟨⟨[], rfl, .nil⟩, .nil⟩
  · obtain rfl := Except.ok.inj read
    exact ⟨⟨[0x2e, 0x2e, 0x2e], rfl, by decide⟩, .nil⟩
  · obtain ⟨literal, scanned, made⟩ := Run.except_bind_ok.1 read
    obtain rfl := Except.ok.inj made
    obtain ⟨taken, rfl, whole⟩ := BlockLiteral.characters_takes scanned
    have normal := BlockLiteral.characters_normal scanned ⟨nofun, Text.WellFormed.nil, nofun⟩
    exact ⟨⟨[quote, quote, quote] ++ taken, rfl, .append (by decide) whole⟩, (BlockString.normal_iff.1 normal).1⟩
  · rename_i u rest _ _
    split_ifs at read with hash quoted number letter
    · obtain rfl := Except.ok.inj read
      have whole := comment_wellFormed rest
      refine ⟨⟨0x23 :: (comment rest).1, ?_, (Text.WellFormed.scalar rfl).2 whole⟩, whole⟩
      exact hash ▸ congrArg (0x23 :: ·) (comment_sound rest).1
    · obtain ⟨literal, scanned, made⟩ := Run.except_bind_ok.1 read
      obtain rfl := Except.ok.inj made
      obtain ⟨inside, rfl, areCharacters, -⟩ := StringLiteral.scan_iff.1 scanned
      have enclosed : Text.WellFormed (quote :: (inside ++ [quote])) :=
        (Text.WellFormed.scalar rfl).2 (areCharacters.written_wellFormed.append (by decide))
      exact ⟨⟨quote :: (inside ++ [quote]), by simp [quoted], enclosed⟩, areCharacters.wellFormed⟩
    · obtain ⟨⟨kind, part⟩, scanned, made⟩ := Run.except_bind_ok.1 read
      obtain rfl := Except.ok.inj made
      obtain ⟨isNumber, whole⟩ := Number.scan_sound scanned
      exact ⟨⟨part.written, whole, number_wellFormed isNumber⟩, number_wellFormed isNumber⟩
    · obtain rfl := Except.ok.inj read
      have whole := name_wellFormed letter rest
      exact ⟨⟨_, congrArg (u :: ·) List.takeWhile_append_dropWhile.symm, whole⟩, whole⟩
    · split at read
      · rename_i kind found
        obtain rfl := Except.ok.inj read
        exact ⟨⟨[u], rfl, (Text.WellFormed.scalar (isScalar_of_ofUnit? found)).2 .nil⟩, .nil⟩
      · contradiction

theorem isScalar_of_skipped {u : CodeUnit} (skipped : u.isLineEnd = true ∨ isIgnored u = true) : u.isScalar = true := by
  obtain ends | ignored := skipped
  · by_contra half
    rw [BlockLiteral.isLineEnd_of_surrogate (by simpa using half)] at ends
    contradiction
  · exact Text.isScalar_of_isIgnored ignored

theorem next_wellFormed (read : next text c = .ok step) :
    (∃ units, text = units ++ step.rest ∧ units.WellFormed) ∧ step.token.value.WellFormed := by
  obtain ⟨gap, whole, -, skipped⟩ := skipIgnored_leaves text c
  obtain ⟨⟨units, begins, written⟩, value⟩ := lexeme_wellFormed read
  refine ⟨⟨gap ++ units, ?_, (Text.WellFormed.of_all fun u member => isScalar_of_skipped (skipped u member)).append written⟩,
    value⟩
  rw [List.append_assoc, ← begins]
  exact whole

end Scan

namespace TokenStream

theorem scan_wellFormed {fuel : Nat} {text : Text} {c : Cursor} {tokens : List Token} (enough : text.length < fuel)
    (read : (scan fuel text c).toList = .ok tokens) : text.WellFormed ∧ ∀ t ∈ tokens, t.value.WellFormed := by
  induction fuel generalizing text c tokens with
  | zero => contradiction
  | succ fuel ih =>
      obtain ⟨step, next⟩ := exists_next (Nat.succ_pos fuel) read
      obtain ⟨⟨units, split, whole⟩, value⟩ := Scan.next_wellFormed next
      by_cases last : step.token.kind = .endOfFile
      · rw [scan_endOfFile next last] at read
        obtain rfl := Except.ok.inj read
        obtain ⟨_, _, _, -, -, -, takes⟩ := Scan.next_takes next
        rw [split, takes.all last, List.append_nil]
        exact ⟨whole, List.forall_mem_singleton.2 value⟩
      have shorter := Scan.next_shorter next last
      by_cases comment : step.token.kind = .comment
      · rw [scan_comment next comment] at read
        obtain ⟨behind, values⟩ := ih (by omega) read
        exact ⟨split ▸ whole.append behind, values⟩
      · rw [scan_token next last comment] at read
        obtain ⟨others, more, rfl⟩ := cons_toList_ok.1 read
        obtain ⟨behind, values⟩ := ih (by omega) more
        exact ⟨split ▸ whole.append behind, List.forall_mem_cons.2 ⟨value, values⟩⟩

end TokenStream

theorem Source.wellFormed_of_tokens {source : Source} {tokens : List Token} (read : source.tokens = .ok tokens) :
    source.body.WellFormed ∧ ∀ t ∈ tokens, t.value.WellFormed :=
  TokenStream.scan_wellFormed (Nat.lt_succ_self _) (Source.tokens_ok.1 read)

theorem Source.tokens_of_not_wellFormed {source : Source} (broken : ¬ source.body.WellFormed) :
    ∃ fault, source.tokens = .error (.lexical source fault) := by
  cases read : (TokenStream.ofText source.body).toList with
  | ok tokens => exact absurd (Source.wellFormed_of_tokens (Source.tokens_ok.2 read)).1 broken
  | error fault => exact ⟨fault, by rw [Source.tokens, read]; rfl⟩

/-- Half of a pair anywhere in the source, and be it in a comment, makes reading its tokens fail. -/
theorem surrogates_are_paired (source : Source) :
    (∀ tokens, source.tokens = .ok tokens → source.body.IsPaired ∧ ∀ t ∈ tokens, t.value.IsPaired) ∧
      (¬ source.body.IsPaired → ∃ fault, source.tokens = .error (.lexical source fault)) := by
  simp only [← Text.wellFormed_iff_isPaired]
  exact ⟨fun _ => Source.wellFormed_of_tokens, Source.tokens_of_not_wellFormed⟩

namespace PairedEscapes

def source : Source where
  body := Text.ofString "# 😀\n\"\\uD83D\\uDE00\" \"\"\"\n  😀\n\"\"\""

example : (source.tokens.toOption.map fun tokens => tokens.map (·.value)) =
    some [[0xd83d, 0xde00], [0xd83d, 0xde00], []] := by decide +kernel

example : source.tokens.isOk ∧ ¬ (Source.tokens { body := Text.ofString "# " ++ [0xd83d] }).isOk := by decide +kernel

end PairedEscapes

end QueryPlanner
