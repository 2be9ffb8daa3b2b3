import QueryPlanner.Proofs.Token.Reading
import Mathlib.Data.List.Induction

namespace QueryPlanner
open CodeUnit

namespace StringLiteral

inductive IsHex : Text → Nat → Prop
  | nil : IsHex [] 0
  | snoc {digits : Text} {n : Nat} {u : CodeUnit} {digit : Nat} :
      IsHex digits n → u.hexValue? = some digit → IsHex (digits ++ [u]) (n * 16 + digit)

def shortEscapes : List (CodeUnit × CodeUnit) :=
  [(0x22, 0x22), (0x5c, 0x5c), (0x2f, 0x2f), (0x62, 0x08), (0x66, 0x0c), (0x6e, 0x0a), (0x72, 0x0d), (0x74, 0x09)]

/-- An escape sequence, without its backslash, and the text that it denotes. -/
inductive IsEscape : Text → Text → Prop
  | short {letter value : CodeUnit} : (letter, value) ∈ shortEscapes → IsEscape [letter] [value]
  | fixed {digits : Text} {point : Nat} : IsHex digits point → digits.length = 4 → isScalarValue point →
      IsEscape (0x75 :: digits) (Text.ofCodePoint point)
  | pair {digits digits' : Text} {lead trail : CodeUnit} : IsHex digits lead.toNat → digits.length = 4 →
      IsHex digits' trail.toNat → digits'.length = 4 → Text.isPair lead trail →
      IsEscape (0x75 :: (digits ++ backslash :: 0x75 :: digits')) [lead, trail]
  | braced {digits : Text} {point : Nat} : IsHex digits point → 1 ≤ digits.length → digits.length ≤ 8 →
      isScalarValue point → IsEscape (0x75 :: 0x7b :: (digits ++ [0x7d])) (Text.ofCodePoint point)

inductive IsCharacter : Text → Text → Prop
  | single {u : CodeUnit} : u.isScalar → u ∉ [quote, backslash, lineFeed, carriageReturn] → IsCharacter [u] [u]
  | pair {u v : CodeUnit} : Text.isPair u v → IsCharacter [u, v] [u, v]
  | escape {sequence value : Text} : IsEscape sequence value → IsCharacter (backslash :: sequence) value

inductive AreCharacters : Text → Text → Prop
  | nil : AreCharacters [] []
  | cons {first value rest others : Text} : IsCharacter first value → AreCharacters rest others →
      AreCharacters (first ++ rest) (value ++ others)

inductive IsLiteral : Text → Text → Prop
  | intro {inside value : Text} : AreCharacters inside value → IsLiteral (quote :: inside ++ [quote]) value

namespace IsHex

variable {digits digits' : Text} {n n' : Nat} {u : CodeUnit}

theorem of_snoc (h : IsHex (digits ++ [u]) n) : ∃ m digit, IsHex digits m ∧ u.hexValue? = some digit ∧ n = m * 16 + digit := by
  generalize written : digits ++ [u] = all at h
  cases h with
  | nil => simp at written
  | snoc before value =>
      obtain ⟨rfl, same⟩ := List.append_inj' written rfl
      obtain rfl := List.singleton_inj.1 same
      exact ⟨_, _, before, value, rfl⟩

theorem unique (h : IsHex digits n) (h' : IsHex digits n') : n = n' := by
  induction h generalizing n' with
  | nil =>
      generalize written : [] = all at h'
      cases h' with
      | nil => rfl
      | snoc => simp at written
  | snoc _ value ih =>
      obtain ⟨m, digit, before, value', rfl⟩ := h'.of_snoc
      rw [ih before, Option.some.inj (value.symm.trans value')]

theorem lt (h : IsHex digits n) : n < 16 ^ digits.length := by
  induction h with
  | nil => decide
  | snoc _ value ih =>
      have := hexValue?_lt value
      rw [List.length_append, List.length_singleton, Nat.pow_succ]
      omega

theorem front (h : IsHex (digits ++ digits') n) : ∃ m ≤ n, IsHex digits m := by
  induction digits' using List.reverseRecOn generalizing n with
  | nil => exact ⟨n, Nat.le_refl n, List.append_nil digits ▸ h⟩
  | append_singleton rest u ih =>
      rw [← List.append_assoc] at h
      obtain ⟨k, digit, before, -, rfl⟩ := h.of_snoc
      obtain ⟨m, le, isHex⟩ := ih before
      exact ⟨m, by omega, isHex⟩

theorem four_iff {a b c d : CodeUnit} : IsHex [a, b, c, d] n ↔ ∃ i j k l, a.hexValue? = some i ∧ b.hexValue? = some j ∧
    c.hexValue? = some k ∧ d.hexValue? = some l ∧ n = i * 0x1000 + j * 0x100 + k * 0x10 + l := by
  constructor
  · intro h
    obtain ⟨_, l, three, fourth, rfl⟩ := of_snoc (show IsHex ([a, b, c] ++ [d]) n from h)
    obtain ⟨_, k, two, third, rfl⟩ := of_snoc (show IsHex ([a, b] ++ [c]) _ from three)
    obtain ⟨_, j, one, second, rfl⟩ := of_snoc (show IsHex ([a] ++ [b]) _ from two)
    obtain ⟨_, i, none, first, rfl⟩ := of_snoc (show IsHex ([] ++ [a]) _ from one)
    obtain rfl := none.unique .nil
    exact ⟨i, j, k, l, first, second, third, fourth, by omega⟩
  · rintro ⟨i, j, k, l, first, second, third, fourth, rfl⟩
    have nested : i * 0x1000 + j * 0x100 + k * 0x10 + l = (((0 * 16 + i) * 16 + j) * 16 + k) * 16 + l := by omega
    rw [nested]
    exact (((nil.snoc first).snoc second).snoc third).snoc fourth

end IsHex

theorem fourDigits?_iff {text : Text} {point : Nat} : fourDigits? text = some point ↔
    ∃ digits after, text = digits ++ after ∧ digits.length = 4 ∧ IsHex digits point := by
  rw [fourDigits?_eq_some_iff]
  constructor
  · rintro ⟨a, b, c, d, rest, i, j, k, l, rfl, values⟩
    exact ⟨[a, b, c, d], rest, rfl, rfl, IsHex.four_iff.2 ⟨i, j, k, l, values⟩⟩
  · rintro ⟨digits, after, rfl, length, isHex⟩
    match digits, length with
    | [a, b, c, d], _ =>
        obtain ⟨i, j, k, l, values⟩ := IsHex.four_iff.1 isHex
        exact ⟨a, b, c, d, after, i, j, k, l, rfl, values⟩

theorem toNat_of_isHex {digits : Text} {point : Nat} (four : digits.length = 4) (isHex : IsHex digits point) :
    point.toUInt16.toNat = point := by
  have small := isHex.lt
  rw [four] at small
  exact Nat.mod_eq_of_lt small

theorem shortEscape?_iff {letter value : CodeUnit} : shortEscape? letter = some value ↔ (letter, value) ∈ shortEscapes := by
  constructor
  · intro read
    unfold shortEscape? at read
    split_ifs at read with self b f n r t <;> obtain rfl := Option.some.inj read
    · obtain rfl | rfl | rfl := self <;> decide
    all_goals
      subst letter
      decide
  · intro member
    simp only [shortEscapes, List.mem_cons, Prod.mk.injEq, List.not_mem_nil, or_false] at member
    obtain ⟨rfl, rfl⟩ | ⟨rfl, rfl⟩ | ⟨rfl, rfl⟩ | ⟨rfl, rfl⟩ | ⟨rfl, rfl⟩ | ⟨rfl, rfl⟩ | ⟨rfl, rfl⟩ | ⟨rfl, rfl⟩ := member <;>
      rfl

section
variable {text after before digits value sequence : Text} {e : Escape} {size point : Nat} {word : Word}

theorem bracedEscape_sound (read : bracedEscape text size word = .ok e) (isHex : IsHex before word.toNat)
    (counted : size = before.length + 3) (few : before.length ≤ 8) :
    ∃ digits after point, text = digits ++ 0x7d :: after ∧ IsHex (before ++ digits) point ∧
      1 ≤ (before ++ digits).length ∧ (before ++ digits).length ≤ 8 ∧ isScalarValue point ∧
      e = ⟨Text.ofCodePoint point, size + digits.length + 1⟩ := by
  induction text generalizing size word before with
  | nil => contradiction
  | cons u rest ih =>
      unfold bracedEscape at read
      dsimp only at read
      split_ifs at read with full close bad negative
      · simp only [Bool.or_eq_true, decide_eq_true_eq, Bool.not_eq_true', not_or] at bad
        obtain rfl := Except.ok.inj read
        exact ⟨[], rest, word.toNat, by rw [close]; rfl, by rwa [List.append_nil],
          by rw [List.append_nil]; omega, by rwa [List.append_nil], by simpa using bad.2, rfl⟩
      · obtain ⟨digit, value⟩ := hexValue?_of_appended negative
        by_cases room : before.length ≤ 7
        · have small : word.toNat < 2 ^ 28 :=
            Nat.lt_of_lt_of_le isHex.lt (Nat.pow_le_pow_right (by decide) room)
          have appended : IsHex (before ++ [u]) (word <<< 4 ||| digitWord u).toNat := by
            rw [toNat_append (show (some u).bind hexValue? = some digit from value) small]
            exact isHex.snoc value
          obtain ⟨digits, after, point, rfl, whole, nonempty, few, scalar, rfl⟩ := ih read appended
            (by rw [List.length_append, List.length_singleton]; omega)
            (by rw [List.length_append, List.length_singleton]; omega)
          rw [List.append_assoc] at whole nonempty few
          refine ⟨u :: digits, after, point, rfl, whole, nonempty, few, scalar, ?_⟩
          rw [List.length_cons]
          congr 1
          omega
        · -- Behind a ninth digit the sequence is too long, whatever the word has become.
          obtain rfl : size = 11 := by omega
          cases rest with
          | nil => contradiction
          | cons => simp [bracedEscape, maxEscapeSize] at read

theorem bracedEscape_complete (isHex : IsHex before word.toNat) (counted : size = before.length + 3)
    (whole : IsHex (before ++ digits) point) (nonempty : 1 ≤ (before ++ digits).length)
    (few : (before ++ digits).length ≤ 8) (scalar : isScalarValue point) :
    bracedEscape (digits ++ 0x7d :: after) size word =
      .ok ⟨Text.ofCodePoint point, size + digits.length + 1⟩ := by
  have bound : point ≤ 0x10ffff := by
    simp only [isScalarValue, Bool.or_eq_true, Bool.and_eq_true, decide_eq_true_eq] at scalar
    omega
  induction digits generalizing size word before with
  | nil =>
      rw [List.append_nil] at whole nonempty few
      obtain rfl := isHex.unique whole
      have long : ¬ (size < 4 || !isScalarValue word.toNat) = true := by
        simp [scalar]
        omega
      rw [List.nil_append, bracedEscape, if_neg (by rw [maxEscapeSize]; omega), if_pos rfl, if_neg long]
      rfl
  | cons u digits ih =>
      have split : before ++ u :: digits = before ++ [u] ++ digits := List.append_cons ..
      rw [split] at whole nonempty few
      obtain ⟨m, le, front⟩ := whole.front
      obtain ⟨n, digit, isHex', value, rfl⟩ := front.of_snoc
      obtain rfl := isHex.unique isHex'
      have length : (before ++ [u] ++ digits).length = before.length + 1 + digits.length := by
        rw [List.length_append, List.length_append, List.length_singleton]
      -- No more than eight digits are read, so that there is room for this one in the word.
      have appended : (word <<< 4 ||| digitWord u).toNat = word.toNat * 16 + digit :=
        toNat_append (show (some u).bind hexValue? = some digit from value) (by omega)
      have open' : u ≠ 0x7d := by
        rintro rfl
        contradiction
      have positive : (word <<< 4 ||| digitWord u).msb = false := by
        rw [BitVec.msb_eq_false_iff_two_mul_lt, appended]
        omega
      have counted' : size + 1 = (before ++ [u]).length + 3 := by
        rw [List.length_append, List.length_singleton]
        omega
      have rest := ih (appended ▸ front) counted' whole nonempty few
      rw [List.cons_append, bracedEscape, if_neg (by rw [maxEscapeSize]; omega), if_neg open']
      dsimp only
      rw [positive, if_neg Bool.false_ne_true, rest, List.length_cons, Nat.succ_add_eq_add_succ]

theorem fixedEscape?_sound (read : fixedEscape? text = some e) :
    ∃ sequence after, text = sequence ++ after ∧ IsEscape (0x75 :: sequence) e.value ∧ e.size = sequence.length + 2 := by
  unfold fixedEscape? at read
  simp only [Option.bind_eq_bind, Option.bind_eq_some_iff] at read
  obtain ⟨point, first, read⟩ := read
  obtain ⟨digits, rest, rfl, four, isHex⟩ := fourDigits?_iff.1 first
  split_ifs at read with scalar leading
  · obtain rfl := Option.some.inj read
    exact ⟨digits, rest, rfl, .fixed isHex four scalar, by rw [four]⟩
  · obtain ⟨trail, second, read⟩ := Option.bind_eq_some_iff.1 read
    obtain rfl := Option.some.inj read
    rw [← four, List.drop_left] at second
    unfold trailingHalf? at second
    split at second
    · obtain ⟨point', second, trailing⟩ := Option.bind_eq_some_iff.1 second
      obtain ⟨digits', after, rfl, four', isHex'⟩ := fourDigits?_iff.1 second
      dsimp only at trailing
      split_ifs at trailing with half
      obtain rfl := Option.some.inj trailing
      have lead := toNat_of_isHex four isHex
      have trail := toNat_of_isHex four' isHex'
      refine ⟨digits ++ backslash :: 0x75 :: digits', after, by simp, ?_, by simp [four, four']⟩
      exact .pair (lead.symm ▸ isHex) four (trail.symm ▸ isHex') four' (by rw [Text.isPair, leading, half]; rfl)
    · contradiction

theorem escape_sound (read : escape text = .ok e) :
    ∃ sequence after, text = sequence ++ after ∧ IsEscape sequence e.value ∧ e.size = sequence.length + 1 := by
  unfold escape at read
  split at read
  · split at read
    · rename_i rest _ braced
      obtain rfl := Except.ok.inj read
      obtain ⟨digits, after, point, rfl, isHex, nonempty, few, scalar, rfl⟩ :=
        bracedEscape_sound braced .nil rfl (Nat.zero_le 8)
      refine ⟨0x75 :: 0x7b :: (digits ++ [0x7d]), after, by simp, .braced isHex nonempty few scalar, ?_⟩
      simp
      omega
    · contradiction
  · split at read
    · rename_i fixed
      obtain rfl := Except.ok.inj read
      obtain ⟨sequence, after, rfl, isEscape, size⟩ := fixedEscape?_sound fixed
      exact ⟨0x75 :: sequence, after, rfl, isEscape, size⟩
    · contradiction
  · split at read
    · rename_i short
      obtain rfl := Except.ok.inj read
      exact ⟨[_], _, rfl, .short (shortEscape?_iff.1 short), rfl⟩
    · contradiction
  · contradiction

theorem fixedEscape?_fixed (isHex : IsHex digits point) (four : digits.length = 4) (scalar : isScalarValue point)
    (after : Text) : fixedEscape? (digits ++ after) = some ⟨Text.ofCodePoint point, 6⟩ := by
  have read : fourDigits? (digits ++ after) = some point := fourDigits?_iff.2 ⟨digits, after, rfl, four, isHex⟩
  simp only [fixedEscape?, read, Option.bind_eq_bind, Option.bind_some, if_pos scalar]
  rfl

theorem not_isScalarValue_of_leading {u : CodeUnit} (leading : isLeadingSurrogate u = true) :
    ¬ isScalarValue u.toNat = true := by
  simp only [isLeadingSurrogate, Bool.and_eq_true, decide_eq_true_eq, UInt16.le_iff_toNat_le] at leading
  have low : 0xd800 ≤ u.toNat := leading.1
  have high : u.toNat ≤ 0xdbff := leading.2
  simp only [isScalarValue, Bool.or_eq_true, Bool.and_eq_true, decide_eq_true_eq]
  omega

theorem fixedEscape?_pair {digits' : Text} {lead trail : CodeUnit} (isHex : IsHex digits lead.toNat)
    (four : digits.length = 4) (isHex' : IsHex digits' trail.toNat) (four' : digits'.length = 4)
    (pair : Text.isPair lead trail = true) (after : Text) :
    fixedEscape? (digits ++ backslash :: 0x75 :: (digits' ++ after)) = some ⟨[lead, trail], 12⟩ := by
  rw [Text.isPair, Bool.and_eq_true] at pair
  have first : fourDigits? (digits ++ backslash :: 0x75 :: (digits' ++ after)) = some lead.toNat :=
    fourDigits?_iff.2 ⟨digits, _, rfl, four, isHex⟩
  have second : fourDigits? (digits' ++ after) = some trail.toNat := fourDigits?_iff.2 ⟨digits', after, rfl, four', isHex'⟩
  have behind : (digits ++ backslash :: 0x75 :: (digits' ++ after)).drop 4 = backslash :: 0x75 :: (digits' ++ after) := by
    rw [← four, List.drop_left]
  simp [fixedEscape?, first, behind, trailingHalf?, second, not_isScalarValue_of_leading pair.1, pair]

theorem escape_of_fixed (fixed : fixedEscape? text = some e) : escape (0x75 :: text) = .ok e := by
  obtain ⟨point, read, -⟩ := Option.bind_eq_some_iff.1 (show (fourDigits? text).bind _ = some e from fixed)
  obtain ⟨a, b, c, d, rest, i, j, k, l, rfl, digit, -⟩ := fourDigits?_eq_some_iff.1 read
  have unbraced : a ≠ 0x7b := by
    rintro rfl
    contradiction
  simp [escape, unbraced, fixed]

theorem escape_complete (isEscape : IsEscape sequence value) (after : Text) :
    escape (sequence ++ after) = .ok ⟨value, sequence.length + 1⟩ := by
  cases isEscape with
  | short member =>
      simp only [shortEscapes, List.mem_cons, Prod.mk.injEq, List.not_mem_nil, or_false] at member
      obtain ⟨rfl, rfl⟩ | ⟨rfl, rfl⟩ | ⟨rfl, rfl⟩ | ⟨rfl, rfl⟩ | ⟨rfl, rfl⟩ | ⟨rfl, rfl⟩ | ⟨rfl, rfl⟩ | ⟨rfl, rfl⟩ := member <;>
        rfl
  | fixed isHex four scalar =>
      rw [List.length_cons, four]
      exact escape_of_fixed (fixedEscape?_fixed isHex four scalar after)
  | @pair digits digits' _ _ isHex four isHex' four' both =>
      have length : (0x75 :: (digits ++ backslash :: 0x75 :: digits')).length + 1 = 12 := by simp [four, four']
      rw [length, List.cons_append, List.append_assoc]
      exact escape_of_fixed (fixedEscape?_pair isHex four isHex' four' both after)
  | @braced digits point isHex nonempty few scalar =>
      have read : bracedEscape (digits ++ 0x7d :: after) 3 0 = .ok ⟨Text.ofCodePoint point, 3 + digits.length + 1⟩ :=
        bracedEscape_complete .nil rfl isHex nonempty few scalar
      have length : (0x75 :: 0x7b :: (digits ++ [0x7d])).length + 1 = 3 + digits.length + 1 := by
        simp
        omega
      rw [length, List.cons_append, List.cons_append, List.append_assoc, List.singleton_append, escape, read]

end

section
variable {start offset : Nat} {text inside denoted value : Text} {scanned : Scanned}

theorem characters_sound {skip : Nat} (read : characters start text skip offset value = .ok scanned)
    (within : skip ≤ text.length) : ∃ inside denoted, text.drop skip = inside ++ quote :: scanned.rest ∧
      AreCharacters inside denoted ∧ scanned.value = value.reverse ++ denoted ∧
      scanned.stop = offset + skip + inside.length + 1 := by
  fun_induction characters start text skip offset value with
  | case1 => contradiction
  | case2 u rest skip offset value ih =>
      obtain ⟨inside, denoted, split, isCharacters, whole, stop⟩ := ih read (Nat.le_of_succ_le_succ within)
      exact ⟨inside, denoted, split, isCharacters, whole, by omega⟩
  | case3 rest offset value =>
      obtain rfl := Except.ok.inj read
      exact ⟨[], [], rfl, .nil, (List.append_nil _).symm, rfl⟩
  | case4 rest offset value e escaped apart ih =>
      obtain ⟨sequence, after, rfl, isEscape, size⟩ := escape_sound escaped
      obtain ⟨inside, denoted, split, isCharacters, whole, stop⟩ := ih read (by rw [size, List.length_append]; omega)
      rw [size, Nat.add_sub_cancel, List.drop_left] at split
      refine ⟨backslash :: sequence ++ inside, e.value ++ denoted, ?_, .cons (.escape isEscape) isCharacters, ?_, ?_⟩
      · rw [split]
        simp
      · rw [whole]
        simp
      · rw [stop, size]
        simp
        omega
  | case5 => contradiction
  | case6 => contradiction
  | case7 u rest offset value unquoted unescaped plain single ih =>
      obtain ⟨inside, denoted, rfl, isCharacters, whole, stop⟩ := ih read (Nat.zero_le _)
      have allowed : u ∉ [quote, backslash, lineFeed, carriageReturn] := by
        simp only [isLineEnd, Bool.or_eq_true, beq_iff_eq, not_or] at plain
        simp [unquoted, unescaped, plain]
      refine ⟨[u] ++ inside, [u] ++ denoted, rfl, .cons (.single single allowed) isCharacters, by simp [whole], ?_⟩
      rw [stop, List.length_append, List.length_singleton]
      omega
  | case8 u offset value unquoted unescaped plain half v rest pair ih =>
      obtain ⟨inside, denoted, rfl, isCharacters, whole, stop⟩ := ih read (Nat.zero_le _)
      refine ⟨[u, v] ++ inside, [u, v] ++ denoted, rfl, .cons (.pair pair) isCharacters, by simp [whole], ?_⟩
      rw [stop, List.length_append, List.length_cons, List.length_singleton]
      omega
  | case9 => contradiction
  | case10 => contradiction

theorem characters_complete (isCharacters : AreCharacters inside denoted) (after : Text) :
    characters start (inside ++ quote :: after) 0 offset value =
      .ok ⟨value.reverse ++ denoted, offset + inside.length + 1, after⟩ := by
  induction isCharacters generalizing offset value with
  | nil =>
      rw [List.nil_append, characters.eq_def]
      simp
  | @cons first v rest others isCharacter _ ih =>
      have next (offset' : Nat) (same : offset' = offset + first.length) :
          characters start (rest ++ quote :: after) 0 offset' (v.reverse ++ value) =
            .ok ⟨value.reverse ++ (v ++ others), offset + (first ++ rest).length + 1, after⟩ := by
        rw [ih, same, List.reverse_append, List.reverse_reverse, List.append_assoc, List.length_append, Nat.add_assoc offset]
      rw [List.append_assoc]
      cases isCharacter with
      | @single u single allowed =>
          simp only [List.mem_cons, List.not_mem_nil, or_false, not_or] at allowed
          rw [List.singleton_append, characters.eq_def, ← next (offset + 1) rfl]
          simp [isLineEnd, allowed, single]
      | @pair u v both =>
          obtain ⟨lead, -⟩ := Text.isScalar_of_pair both
          have plain := plain_of_unescaped (shortEscape?_of_surrogate lead)
          rw [← next (offset + 2) rfl]
          change characters start (u :: v :: (rest ++ quote :: after)) 0 offset value = _
          rw [characters.eq_def]
          simp [plain, lead, both]
      | @escape sequence _ isEscape =>
          rw [List.cons_append, characters_escape start offset (escape_complete isEscape _), Nat.add_sub_cancel,
            characters_skip, next]
          rw [List.length_cons]
          omega

theorem IsCharacter.wellFormed {written : Text} (h : IsCharacter written denoted) : denoted.WellFormed := by
  cases h with
  | single single => exact (Text.WellFormed.scalar single).2 .nil
  | pair pair => exact (Text.WellFormed.pair pair).2 .nil
  | @escape sequence _ isEscape =>
      exact escape_wellFormed (e := ⟨denoted, _⟩) (escape_complete isEscape [])

theorem AreCharacters.wellFormed (h : AreCharacters inside denoted) : denoted.WellFormed := by
  induction h with
  | nil => exact .nil
  | cons first _ ih => exact first.wellFormed.append ih

theorem scan_iff : scan start text = .ok scanned ↔ ∃ inside, text = inside ++ quote :: scanned.rest ∧
    AreCharacters inside scanned.value ∧ scanned.stop = start + 1 + inside.length + 1 := by
  unfold scan
  constructor
  · intro read
    obtain ⟨inside, denoted, split, isCharacters, whole, stop⟩ := characters_sound read (Nat.zero_le _)
    exact ⟨inside, split, whole ▸ isCharacters, stop⟩
  · rintro ⟨inside, rfl, isCharacters, stop⟩
    rw [characters_complete isCharacters, ← stop]
    rfl

end

theorem escape_iff {text : Text} {e : Escape} : escape text = .ok e ↔
    ∃ sequence after, text = sequence ++ after ∧ IsEscape sequence e.value ∧ e.size = sequence.length + 1 := by
  constructor
  · exact escape_sound
  · rintro ⟨sequence, after, rfl, isEscape, size⟩
    rw [escape_complete isEscape, ← size]

end StringLiteral

open StringLiteral

namespace Scan

def stringStep (body : Text) (c : Cursor) (stop : Nat) (value : Text) : Step where
  token := ⟨.string, c.offset, stop, c.line, 1 + c.offset - c.lineStart, value⟩
  rest := body.drop stop
  cursor := { c with offset := stop }

variable {body rest : Text} {c : Cursor}

theorem next_quote (single : ∀ t, rest ≠ quote :: quote :: t) : next (quote :: rest) c = (do
    let literal ← scan c.offset rest
    return ⟨c.token .string (literal.stop - c.offset) literal.value, literal.rest,
      c.advance (literal.stop - c.offset)⟩) := by
  have solid : IsSolid quote := ⟨rfl, rfl⟩
  rw [next, ReadsToken.skipIgnored_of_solid solid]
  exact (lexeme.eq_4 _ _ _ (fun _ dot _ => absurd dot (by decide)) fun t _ => single t).trans
    ((if_neg (by decide)).trans (if_pos rfl))

theorem literal_spans_iff (opens : body.drop c.offset = quote :: rest) {stop : Nat} {inside after : Text} :
    rest = inside ++ quote :: after ∧ stop = c.offset + 1 + inside.length + 1 ↔
      stop ≤ body.length ∧ body.extract c.offset stop = quote :: inside ++ [quote] ∧ body.drop stop = after := by
  have length := congrArg List.length opens
  rw [List.length_drop, List.length_cons] at length
  rw [List.extract_eq_take_drop, opens]
  constructor
  · rintro ⟨rfl, rfl⟩
    rw [List.length_append, List.length_cons] at length
    have size : c.offset + 1 + inside.length + 1 - c.offset = (quote :: inside ++ [quote]).length := by
      simp
      omega
    have whole : quote :: (inside ++ quote :: after) = (quote :: inside ++ [quote]) ++ after := by simp
    refine ⟨by omega, ?_, ?_⟩
    · rw [size, whole, List.take_left]
    · rw [Nat.add_assoc, Nat.add_assoc, ← List.drop_drop, opens, whole, List.drop_left']
      simp
      omega
  · rintro ⟨within, span, rfl⟩
    have size := congrArg List.length span
    simp only [List.length_take, List.length_cons, List.length_append, List.length_nil] at size
    have place : stop = c.offset + (stop - c.offset) := by omega
    refine ⟨?_, by omega⟩
    have whole := (List.take_append_drop (stop - c.offset) (quote :: rest)).symm
    rw [span, ← opens, List.drop_drop, ← place, opens] at whole
    simpa using whole

end Scan

/-- Where a double quote opens a string, the grammar decides on what is read there, and on its value. -/
theorem strings_read_by_grammar {body : Text} {c : Cursor} (opens : body[c.offset]? = some quote)
    (single : ¬ [quote, quote, quote] <+: body.drop c.offset) :
    (∀ step, Scan.next (body.drop c.offset) c = .ok step ↔ ∃ stop value, stop ≤ body.length ∧
      IsLiteral (body.extract c.offset stop) value ∧ step = Scan.stringStep body c stop value) ∧
      (∀ stop value, IsLiteral (body.extract c.offset stop) value → value.WellFormed) ∧
        ((∀ stop value, stop ≤ body.length → ¬ IsLiteral (body.extract c.offset stop) value) →
          ∃ fault, Scan.next (body.drop c.offset) c = .error fault) ∧
            ∀ text e, escape text = .ok e ↔
              ∃ sequence after, text = sequence ++ after ∧ IsEscape sequence e.value ∧ e.size = sequence.length + 1 := by
  obtain ⟨here, is⟩ := List.getElem?_eq_some_iff.1 opens
  have split : body.drop c.offset = quote :: body.drop (c.offset + 1) := is ▸ List.drop_eq_getElem_cons here
  generalize body.drop (c.offset + 1) = rest at split
  have apart (t : Text) : rest ≠ quote :: quote :: t := by
    rintro rfl
    exact single ⟨t, split.symm⟩
  have read (step : Scan.Step) : Scan.next (body.drop c.offset) c = .ok step ↔ ∃ stop value, stop ≤ body.length ∧
      IsLiteral (body.extract c.offset stop) value ∧ step = Scan.stringStep body c stop value := by
    rw [split, Scan.next_quote apart, Run.except_bind_ok]
    constructor
    · rintro ⟨literal, scanned, made⟩
      obtain rfl := Except.ok.inj made
      obtain ⟨inside, cut, isCharacters, stop⟩ := scan_iff.1 scanned
      obtain ⟨within, span, after⟩ := (Scan.literal_spans_iff split).1 ⟨cut, stop⟩
      refine ⟨literal.stop, literal.value, within, span ▸ .intro isCharacters, ?_⟩
      have place : c.offset + (literal.stop - c.offset) = literal.stop := by omega
      rw [Scan.stringStep, after, Cursor.token, Cursor.advance, place]
    · rintro ⟨stop, value, within, isLiteral, rfl⟩
      generalize span : body.extract c.offset stop = text at isLiteral
      obtain @⟨inside, _, isCharacters⟩ := isLiteral
      obtain ⟨cut, stop_eq⟩ := (Scan.literal_spans_iff split).2 ⟨within, span, rfl⟩
      refine ⟨⟨value, stop, body.drop stop⟩, scan_iff.2 ⟨inside, cut, isCharacters, stop_eq⟩, ?_⟩
      have place : c.offset + (stop - c.offset) = stop := by omega
      rw [Scan.stringStep, Cursor.token, Cursor.advance, place]
      rfl
  refine ⟨read, ?_, fun none => ?_, fun _ _ => escape_iff⟩
  · rintro stop value isLiteral
    generalize body.extract c.offset stop = text at isLiteral
    obtain ⟨isCharacters⟩ := isLiteral
    exact isCharacters.wellFormed
  · cases result : Scan.next (body.drop c.offset) c with
    | error fault => exact ⟨fault, rfl⟩
    | ok step =>
        obtain ⟨stop, value, within, isLiteral, -⟩ := (read step).1 result
        exact absurd isLiteral (none stop value within)

namespace EscapedEmoji

/-- `{ a(b: "x\n\u{1F600}\ud83d\uDE00") }` -/
def body : Text := Text.ofString "\x7b a(b: \"x\\n\\u\x7b1F600\x7d\\ud83d\\uDE00\") \x7d"

def cursor : Cursor := ⟨7, 1, 0⟩

theorem read_by_grammar :
    (∀ step, Scan.next (body.drop cursor.offset) cursor = .ok step ↔ ∃ stop value, stop ≤ body.length ∧
      IsLiteral (body.extract cursor.offset stop) value ∧ step = Scan.stringStep body cursor stop value) ∧
      (∀ stop value, IsLiteral (body.extract cursor.offset stop) value → value.WellFormed) ∧
        ((∀ stop value, stop ≤ body.length → ¬ IsLiteral (body.extract cursor.offset stop) value) →
          ∃ fault, Scan.next (body.drop cursor.offset) cursor = .error fault) ∧
            ∀ text e, escape text = .ok e ↔
              ∃ sequence after, text = sequence ++ after ∧ IsEscape sequence e.value ∧ e.size = sequence.length + 1 :=
  strings_read_by_grammar (by decide +kernel) (by decide +kernel)

example : (Scan.next (body.drop cursor.offset) cursor).toOption.map (fun step => (step.token.stop, step.token.value)) =
    some (33, [0x78, 0x0a, 0xd83d, 0xde00, 0xd83d, 0xde00]) := by decide +kernel

example : (escape (Text.ofString "u\x7b100000041\x7d")).isOk = false := by decide +kernel

end EscapedEmoji

end QueryPlanner
