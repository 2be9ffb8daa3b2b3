import QueryPlanner.Token.StringLiteral
import QueryPlanner.Text.Quoted
import QueryPlanner.Proofs.Text.Lines
import QueryPlanner.Proofs.Text.WellFormed
import QueryPlanner.Proofs.Run
import Mathlib.Algebra.Group.Nat.Defs
import Mathlib.Tactic.SplitIfs

namespace QueryPlanner
open CodeUnit

theorem Text.ofCodePoint_wellFormed {point : Nat} (scalar : isScalarValue point = true) : (ofCodePoint point).WellFormed := by
  simp only [isScalarValue, Bool.or_eq_true, Bool.and_eq_true, decide_eq_true_eq] at scalar
  unfold ofCodePoint
  split_ifs with short
  · apply WellFormed.of_all
    simp [isScalar, UInt16.le_iff_toNat_le, Nat.mod_eq_of_lt short]
    omega
  · apply (WellFormed.pair _).2 .nil
    have high : (0xd800 + (point - 0x10000) / 0x400) % 65536 = 0xd800 + (point - 0x10000) / 0x400 := by omega
    have low : (0xdc00 + (point - 0x10000) % 0x400) % 65536 = 0xdc00 + (point - 0x10000) % 0x400 := by omega
    simp [isPair, isLeadingSurrogate, isTrailingSurrogate, UInt16.le_iff_toNat_le, high, low]
    omega

theorem CodeUnit.hexValue?_lt {u : CodeUnit} {digit : Nat} (h : u.hexValue? = some digit) : digit < 16 := by
  unfold hexValue? at h
  simp only [Bool.and_eq_true, decide_eq_true_eq, UInt16.le_iff_toNat_le] at h
  split_ifs at h with numeral upper lower <;> obtain rfl := Option.some.inj h
  · have : u.toNat ≤ 57 := numeral.2
    omega
  · have : u.toNat ≤ 70 := upper.2
    omega
  · have : u.toNat ≤ 102 := lower.2
    omega

namespace StringLiteral

section
variable {u : Option CodeUnit} {digit : Nat}

theorem digitWord_of_none (h : u.bind hexValue? = none) : digitWord u = BitVec.allOnes 32 := by
  rw [digitWord, h]

theorem digitWord_of_some (h : u.bind hexValue? = some digit) : (digitWord u).toNat = digit ∧ digit < 16 := by
  obtain ⟨v, rfl, value⟩ := Option.bind_eq_some_iff.1 h
  have small := hexValue?_lt value
  rw [digitWord, h, BitVec.toNat_ofNat]
  exact ⟨Nat.mod_eq_of_lt (Nat.lt_trans small (by decide)), small⟩

theorem msb_or_of_none (h : u.bind hexValue? = none) (point : Word) : (point ||| digitWord u).msb = true := by
  rw [digitWord_of_none h, BitVec.or_allOnes]
  rfl

theorem hexValue?_of_appended {u : CodeUnit} {point : Word} (h : ¬ (point <<< 4 ||| digitWord u).msb = true) :
    ∃ digit, u.hexValue? = some digit := by
  cases value : u.hexValue? with
  | some digit => exact ⟨digit, rfl⟩
  | none => exact absurd (msb_or_of_none (show (some u).bind hexValue? = none from value) _) h

theorem toNat_append {point : Word} (value : u.bind hexValue? = some digit) (room : point.toNat < 2 ^ 28) :
    (point <<< 4 ||| digitWord u).toNat = point.toNat * 16 + digit := by
  obtain ⟨word, small⟩ := digitWord_of_some value
  have low : (digitWord u).toNat < 2 ^ 4 := word ▸ small
  rw [BitVec.toNat_or, BitVec.toNat_shiftLeft, Nat.shiftLeft_eq, Nat.mod_eq_of_lt (by omega), ← Nat.shiftLeft_eq,
    ← Nat.shiftLeft_add_eq_or_of_lt low, word, Nat.shiftLeft_eq]

end

theorem fourDigits?_eq (text : Text) : fourDigits? text = do
    let i ← text[0]?.bind hexValue?
    let j ← text[1]?.bind hexValue?
    let k ← text[2]?.bind hexValue?
    let l ← text[3]?.bind hexValue?
    return i * 0x1000 + j * 0x100 + k * 0x10 + l := by
  have negative {u : Option CodeUnit} (none : u.bind hexValue? = .none) : ∀ k < 32, (digitWord u <<< k).msb = true := by
    rw [digitWord_of_none none]
    decide
  have nested (a b c d : Word) : a <<< 12 ||| b <<< 8 ||| c <<< 4 ||| d = ((a <<< 4 ||| b) <<< 4 ||| c) <<< 4 ||| d := by
    simp only [BitVec.shiftLeft_or_distrib, ← BitVec.shiftLeft_add]
  unfold fourDigits?
  dsimp only
  cases first : text[0]?.bind hexValue? with
  | none => simp [BitVec.msb_or, negative first]
  | some i =>
  cases second : text[1]?.bind hexValue? with
  | none => simp [BitVec.msb_or, negative second]
  | some j =>
  cases third : text[2]?.bind hexValue? with
  | none => simp [BitVec.msb_or, negative third]
  | some k =>
  cases fourth : text[3]?.bind hexValue? with
  | none => exact if_pos (msb_or_of_none fourth _)
  | some l =>
  obtain ⟨one, small₁⟩ := digitWord_of_some first
  obtain ⟨-, small₂⟩ := digitWord_of_some second
  obtain ⟨-, small₃⟩ := digitWord_of_some third
  obtain ⟨-, small₄⟩ := digitWord_of_some fourth
  have two : (digitWord text[0]? <<< 4 ||| digitWord text[1]?).toNat = i * 16 + j := by
    rw [toNat_append second (by omega), one]
  have three : ((digitWord text[0]? <<< 4 ||| digitWord text[1]?) <<< 4 ||| digitWord text[2]?).toNat =
      (i * 16 + j) * 16 + k := by
    rw [toNat_append third (by omega), two]
  have four : (((digitWord text[0]? <<< 4 ||| digitWord text[1]?) <<< 4 ||| digitWord text[2]?) <<< 4 |||
      digitWord text[3]?).toNat = ((i * 16 + j) * 16 + k) * 16 + l := by
    rw [toNat_append fourth (by omega), three]
  rw [nested, if_neg (by rw [Bool.not_eq_true, BitVec.msb_eq_false_iff_two_mul_lt, four]; omega), four]
  show some _ = some _
  congr 1
  omega

theorem fourDigits?_eq_some_iff {text : Text} {point : Nat} : fourDigits? text = some point ↔
    ∃ a b c d rest i j k l, text = a :: b :: c :: d :: rest ∧ a.hexValue? = some i ∧ b.hexValue? = some j ∧
      c.hexValue? = some k ∧ d.hexValue? = some l ∧ point = i * 0x1000 + j * 0x100 + k * 0x10 + l := by
  rw [fourDigits?_eq]
  constructor
  · intro read
    match text with
    | a :: b :: c :: d :: rest =>
        simp only [Option.bind_eq_bind, Option.bind_eq_some_iff] at read
        obtain ⟨i, ⟨_, ⟨⟩, first⟩, j, ⟨_, ⟨⟩, second⟩, k, ⟨_, ⟨⟩, third⟩, l, ⟨_, ⟨⟩, fourth⟩, value⟩ := read
        exact ⟨a, b, c, d, rest, i, j, k, l, rfl, first, second, third, fourth, (Option.some.inj value).symm⟩
    | [] | [_] | [_, _] | [_, _, _] => simp at read
  · rintro ⟨a, b, c, d, rest, i, j, k, l, rfl, first, second, third, fourth, rfl⟩
    simp [first, second, third, fourth]

theorem bracedEscape_wellFormed {text : Text} {size : Nat} {point : Word} {e : Escape}
    (h : bracedEscape text size point = .ok e) : e.value.WellFormed := by
  induction text generalizing size point with
  | nil => contradiction
  | cons u rest ih =>
      unfold bracedEscape at h
      dsimp only at h
      split_ifs at h with full close bad
      · obtain rfl := Except.ok.inj h
        rw [Bool.or_eq_true, not_or] at bad
        exact Text.ofCodePoint_wellFormed (by simpa using bad.2)
      · exact ih h

theorem fixedEscape?_wellFormed {digits : Text} {e : Escape} (h : fixedEscape? digits = some e) : e.value.WellFormed := by
  unfold fixedEscape? at h
  simp only [Option.bind_eq_bind, Option.bind_eq_some_iff] at h
  obtain ⟨point, -, h⟩ := h
  split_ifs at h with scalar lead
  · obtain rfl := Option.some.inj h
    exact Text.ofCodePoint_wellFormed scalar
  · obtain ⟨trail, found, h⟩ := Option.bind_eq_some_iff.1 h
    obtain rfl := Option.some.inj h
    have trailing : trail.isTrailingSurrogate = true := by
      unfold trailingHalf? at found
      split at found
      · obtain ⟨point', -, found⟩ := Option.bind_eq_some_iff.1 found
        dsimp only at found
        split_ifs at found with trailing
        obtain rfl := Option.some.inj found
        exact trailing
      · contradiction
    exact (Text.WellFormed.pair (by rw [Text.isPair, lead, trailing]; rfl)).2 .nil

theorem shortEscape?_isScalar {u value : CodeUnit} (h : shortEscape? u = some value) : value.isScalar = true := by
  unfold shortEscape? at h
  split_ifs at h with self <;> obtain rfl := Option.some.inj h <;> try rfl
  obtain rfl | rfl | rfl := self <;> rfl

theorem escape_wellFormed {text : Text} {e : Escape} (h : escape text = .ok e) : e.value.WellFormed := by
  unfold escape at h
  split at h
  · split at h
    · rename_i read
      exact Except.ok.inj h ▸ bracedEscape_wellFormed read
    · contradiction
  · split at h
    · rename_i read
      exact Except.ok.inj h ▸ fixedEscape?_wellFormed read
    · contradiction
  · split at h
    · rename_i read
      obtain rfl := Except.ok.inj h
      exact (Text.WellFormed.scalar (shortEscape?_isScalar read)).2 .nil
    · contradiction
  · contradiction

theorem characters_wellFormed {start skip offset : Nat} {text value : Text} {scanned : Scanned}
    (h : characters start text skip offset value = .ok scanned) (before : Text.WellFormed value.reverse) :
    scanned.value.WellFormed := by
  fun_induction characters start text skip offset value with
  | case1 => contradiction
  | case2 _ _ _ _ _ ih => exact ih h before
  | case3 => exact Except.ok.inj h ▸ before
  | case4 rest offset value e read _ ih =>
      apply ih h
      rw [List.reverse_append, List.reverse_reverse]
      exact before.append (escape_wellFormed read)
  | case5 => contradiction
  | case6 => contradiction
  | case7 u rest offset value _ _ _ single ih =>
      apply ih h
      rw [List.reverse_cons]
      exact before.append ((Text.WellFormed.scalar single).2 .nil)
  | case8 u offset value _ _ _ _ v rest pair ih =>
      apply ih h
      simp only [List.reverse_cons, List.append_assoc]
      exact before.append ((Text.WellFormed.pair pair).2 .nil)
  | case9 => contradiction
  | case10 => contradiction

theorem isLineEnd_of_hexValue? {u : CodeUnit} {digit : Nat} (h : u.hexValue? = some digit) : u.isLineEnd = false :=
  Text.isLineEnd_of_ne (by rintro rfl; contradiction) (by rintro rfl; contradiction)

theorem isLineEnd_of_shortEscape? {u value : CodeUnit} (h : shortEscape? u = some value) : u.isLineEnd = false :=
  Text.isLineEnd_of_ne (by rintro rfl; contradiction) (by rintro rfl; contradiction)

theorem bracedEscape_line {text : Text} {size : Nat} {point : Word} {e : Escape}
    (h : bracedEscape text size point = .ok e) :
    size < e.size ∧ ∀ u ∈ text.take (e.size - size), u.isLineEnd = false := by
  induction text generalizing size point with
  | nil => contradiction
  | cons u rest ih =>
      unfold bracedEscape at h
      dsimp only at h
      split_ifs at h with full close bad large
      · obtain rfl := Except.ok.inj h
        refine ⟨Nat.lt_succ_self _, ?_⟩
        rw [Nat.add_sub_cancel_left, close]
        exact List.forall_mem_singleton.2 rfl
      · obtain ⟨more, line⟩ := ih h
        obtain ⟨digit, found⟩ := hexValue?_of_appended large
        refine ⟨Nat.lt_of_succ_lt more, ?_⟩
        rw [show e.size - size = (e.size - (size + 1)) + 1 by omega, List.take_succ_cons]
        exact List.forall_mem_cons.2 ⟨isLineEnd_of_hexValue? found, line⟩

theorem fourDigits?_line {text : Text} {point : Nat} (h : fourDigits? text = some point) :
    ∀ u ∈ text.take 4, u.isLineEnd = false := by
  obtain ⟨_, _, _, _, _, _, _, _, _, rfl, a, b, c, d, -⟩ := fourDigits?_eq_some_iff.1 h
  simp [isLineEnd_of_hexValue? a, isLineEnd_of_hexValue? b, isLineEnd_of_hexValue? c, isLineEnd_of_hexValue? d]

theorem trailingHalf?_line {text : Text} {trail : CodeUnit} (h : trailingHalf? text = some trail) :
    ∀ u ∈ text.take 6, u.isLineEnd = false := by
  unfold trailingHalf? at h
  split at h
  · obtain ⟨point, digits, -⟩ := Option.bind_eq_some_iff.1 h
    exact List.forall_mem_cons.2 ⟨rfl, List.forall_mem_cons.2 ⟨rfl, fourDigits?_line digits⟩⟩
  · contradiction

theorem fixedEscape?_line {digits : Text} {e : Escape} (h : fixedEscape? digits = some e) :
    2 ≤ e.size ∧ ∀ u ∈ digits.take (e.size - 2), u.isLineEnd = false := by
  unfold fixedEscape? at h
  simp only [Option.bind_eq_bind, Option.bind_eq_some_iff] at h
  obtain ⟨point, first, h⟩ := h
  split_ifs at h with scalar lead
  · obtain rfl := Option.some.inj h
    exact ⟨Nat.le_add_left 2 4, fourDigits?_line first⟩
  · obtain ⟨trail, second, h⟩ := Option.bind_eq_some_iff.1 h
    obtain rfl := Option.some.inj h
    refine ⟨Nat.le_add_left 2 10, ?_⟩
    change ∀ u ∈ digits.take (4 + 6), _
    rw [List.take_add]
    exact List.forall_mem_append.2 ⟨fourDigits?_line first, trailingHalf?_line second⟩

theorem escape_line {text : Text} {e : Escape} (h : escape text = .ok e) :
    ∀ u ∈ text.take (e.size - 1), u.isLineEnd = false := by
  unfold escape at h
  split at h
  · split at h
    · rename_i e' read
      obtain rfl := Except.ok.inj h
      obtain ⟨more, line⟩ := bracedEscape_line read
      rw [show e'.size - 1 = (e'.size - 3) + 2 by omega, List.take_succ_cons, List.take_succ_cons]
      exact List.forall_mem_cons.2 ⟨rfl, List.forall_mem_cons.2 ⟨rfl, line⟩⟩
    · contradiction
  · split at h
    · rename_i e' read
      obtain rfl := Except.ok.inj h
      obtain ⟨more, line⟩ := fixedEscape?_line read
      rw [show e'.size - 1 = (e'.size - 2) + 1 by omega, List.take_succ_cons]
      exact List.forall_mem_cons.2 ⟨rfl, line⟩
    · contradiction
  · split at h
    · rename_i read
      obtain rfl := Except.ok.inj h
      exact List.forall_mem_singleton.2 (isLineEnd_of_shortEscape? read)
    · contradiction
  · contradiction

theorem fourDigits?_hex : ∀ n < 160, (Text.hex true 4 n).length = 4 ∧ (Text.hex true 4 n).head? ≠ some 0x7b ∧
    lineFeed ∉ Text.hex true 4 n ∧ fourDigits? (Text.hex true 4 n) = some n := by
  simp only [Text.hex, Text.ofString, String.toList_ofList]
  decide +kernel

theorem hexEscape_eq (upper : Bool) (u : CodeUnit) :
    Quoted.hexEscape upper u = backslash :: 0x75 :: Text.hex upper 4 u.toNat := by
  have opening : (("\\u" : String) : Text) = [backslash, 0x75] := by decide
  rw [Quoted.hexEscape, opening, List.cons_append, List.cons_append, List.nil_append]

theorem escape_short {u letter : CodeUnit} (h : Quoted.shortEscape? u = some letter) (rest : Text) :
    escape (letter :: rest) = .ok ⟨[u], 2⟩ := by
  unfold Quoted.shortEscape? at h
  split_ifs at h with b t n f r self <;> obtain rfl := Option.some.inj h
  · rw [b]; rfl
  · rw [t]; rfl
  · rw [n]; rfl
  · rw [f]; rfl
  · rw [r]; rfl
  · obtain rfl | rfl := self <;> rfl

theorem escape_hex {u : CodeUnit} (low : u.toNat < 160) (rest : Text) :
    escape (0x75 :: (Text.hex true 4 u.toNat ++ rest)) = .ok ⟨[u], 6⟩ := by
  obtain ⟨length, head, -, read⟩ := fourDigits?_hex u.toNat low
  have scalar : isScalarValue u.toNat = true := by
    simp only [isScalarValue, Bool.or_eq_true, decide_eq_true_eq]
    omega
  have unit : Text.ofCodePoint u.toNat = [u] := by
    rw [Text.ofCodePoint, if_pos (by omega)]
    simp
  generalize Text.hex true 4 u.toNat = digits at length head read
  match digits, length, head, read with
  | [a, b, c, d], _, head, read =>
      have read : fourDigits? (a :: b :: c :: d :: rest) = some u.toNat := read
      have fixed : fixedEscape? (a :: b :: c :: d :: rest) = some ⟨[u], 6⟩ := by
        simp only [fixedEscape?, read, Option.bind_eq_bind, Option.bind_some, if_pos scalar, unit]
        rfl
      have first : a ≠ 0x7b := by simpa using head
      simp [escape, first, fixed]

theorem characters_skip (start offset : Nat) (sequence rest value : Text) :
    characters start (sequence ++ rest) sequence.length offset value =
      characters start rest 0 (offset + sequence.length) value := by
  induction sequence generalizing offset with
  | nil => rfl
  | cons u sequence ih =>
      rw [List.cons_append, List.length_cons, characters, ih]
      congr 1
      omega

theorem characters_escape (start offset : Nat) {text : Text} {e : Escape} (read : escape text = .ok e) (value : Text) :
    characters start (backslash :: text) 0 offset value =
      characters start text (e.size - 1) (offset + 1) (e.value.reverse ++ value) := by
  have apart : backslash ≠ quote := by decide
  rw [characters.eq_def]
  simp [read, apart]

def Yields (result : Except LexicalFault Scanned) (value rest : Text) : Prop := ∃ stop, result = .ok ⟨value, stop, rest⟩

theorem plain_of_unescaped {u : CodeUnit} (short : Quoted.shortEscape? u = none) :
    u ≠ quote ∧ u ≠ backslash ∧ u.isLineEnd = false := by
  refine ⟨?_, ?_, ?_⟩
  · rintro rfl; contradiction
  · rintro rfl; contradiction
  · simp only [isLineEnd, Bool.or_eq_false_iff, beq_eq_false_iff_ne]
    constructor <;> rintro rfl <;> contradiction

theorem letter_ne_lineFeed {u letter : CodeUnit} (h : Quoted.shortEscape? u = some letter) : letter ≠ lineFeed := by
  unfold Quoted.shortEscape? at h
  split_ifs at h with b t n f r self <;> obtain rfl := Option.some.inj h
  any_goals decide
  obtain rfl | rfl := self <;> decide

theorem lt_of_control {u : CodeUnit} (control : (u < 0x20 || (0x7f ≤ u && u ≤ 0x9f)) = true) : u.toNat < 160 := by
  simp [UInt16.lt_iff_toNat_lt, UInt16.le_iff_toNat_le] at control
  omega

theorem lineFeed_not_mem_literal (text : Text) : lineFeed ∉ Quoted.literal text := by
  have unit (u : CodeUnit) : lineFeed ∉ Quoted.escapeLiteralUnit u := by
    unfold Quoted.escapeLiteralUnit
    cases short : Quoted.shortEscape? u with
    | some letter => simpa using ⟨by decide, (letter_ne_lineFeed short).symm⟩
    | none =>
        dsimp only
        split_ifs with control
        · obtain ⟨-, -, inside, -⟩ := fourDigits?_hex u.toNat (lt_of_control control)
          have apart : lineFeed ≠ backslash ∧ lineFeed ≠ 0x75 := by decide
          simp [hexEscape_eq, inside, apart]
        · intro member
          obtain rfl := List.mem_singleton.1 member
          cases short
  have inside : lineFeed ∉ text.flatMap Quoted.escapeLiteralUnit := by
    rw [List.mem_flatMap]
    rintro ⟨u, -, member⟩
    exact unit u member
  have apart : lineFeed ≠ quote := by decide
  simp [Quoted.literal, Quoted.enclose, inside, apart]

theorem escapeLiteralUnit_cons (u : CodeUnit) : ∃ first rest, Quoted.escapeLiteralUnit u = first :: rest ∧ first ≠ quote := by
  unfold Quoted.escapeLiteralUnit
  cases short : Quoted.shortEscape? u with
  | some letter => exact ⟨backslash, [letter], rfl, by decide⟩
  | none =>
      dsimp only
      split_ifs
      · exact ⟨backslash, _, rfl, by decide⟩
      · exact ⟨u, [], rfl, (plain_of_unescaped short).1⟩

theorem characters_unit (start offset : Nat) {u : CodeUnit} (rest value : Text) (single : u.isScalar = true) :
    ∃ offset', characters start (Quoted.escapeLiteralUnit u ++ rest) 0 offset value =
      characters start rest 0 offset' (u :: value) := by
  unfold Quoted.escapeLiteralUnit
  cases short : Quoted.shortEscape? u with
  | some letter =>
      refine ⟨offset + 1 + 1, ?_⟩
      change characters start (backslash :: letter :: rest) 0 offset value = _
      rw [characters_escape start offset (escape_short short rest)]
      exact characters_skip start (offset + 1) [letter] rest (u :: value)
  | none =>
      dsimp only
      split_ifs with control
      · have low := lt_of_control control
        obtain ⟨length, -⟩ := fourDigits?_hex u.toNat low
        refine ⟨offset + 1 + 5, ?_⟩
        have skip := characters_skip start (offset + 1) (0x75 :: Text.hex true 4 u.toNat) rest (u :: value)
        rw [List.length_cons, length] at skip
        rw [hexEscape_eq, List.cons_append, List.cons_append, characters_escape start offset (escape_hex low rest)]
        exact skip
      · refine ⟨offset + 1, ?_⟩
        rw [List.singleton_append, characters.eq_def]
        simp [plain_of_unescaped short, single]

theorem shortEscape?_of_surrogate {u : CodeUnit} (half : u.isScalar = false) : Quoted.shortEscape? u = none := by
  unfold Quoted.shortEscape?
  split_ifs with b t n f r self
  any_goals subst_vars; contradiction
  · obtain rfl | rfl := self <;> contradiction
  · rfl

theorem escapeLiteralUnit_of_surrogate {u : CodeUnit} (half : u.isScalar = false) : Quoted.escapeLiteralUnit u = [u] := by
  have short := shortEscape?_of_surrogate half
  simp [isScalar, UInt16.le_iff_toNat_le] at half
  have control : ¬ ((u < 0x20 || (0x7f ≤ u && u ≤ 0x9f)) = true) := by
    simp [UInt16.lt_iff_toNat_lt, UInt16.le_iff_toNat_le]
    omega
  unfold Quoted.escapeLiteralUnit
  simp only [short, if_neg control]

theorem characters_pair (start offset : Nat) {u v : CodeUnit} (rest value : Text) (pair : Text.isPair u v = true) :
    characters start (Quoted.escapeLiteralUnit u ++ (Quoted.escapeLiteralUnit v ++ rest)) 0 offset value =
      characters start rest 0 (offset + 2) (v :: u :: value) := by
  obtain ⟨lead, trail⟩ := Text.isScalar_of_pair pair
  rw [escapeLiteralUnit_of_surrogate lead, escapeLiteralUnit_of_surrogate trail, List.singleton_append,
    List.singleton_append, characters.eq_def]
  simp [plain_of_unescaped (shortEscape?_of_surrogate lead), lead, pair]

theorem characters_literal (start offset : Nat) {text : Text} (wellFormed : text.WellFormed) (after value : Text) :
    Yields (characters start (text.flatMap Quoted.escapeLiteralUnit ++ quote :: after) 0 offset value)
      (value.reverse ++ text) after := by
  induction wellFormed.characters generalizing offset value with
  | nil => exact ⟨offset + 1, by rw [List.flatMap_nil, List.nil_append, characters.eq_def]; simp⟩
  | @scalar u rest single _ ih =>
      obtain ⟨offset', read⟩ := characters_unit start offset (rest.flatMap Quoted.escapeLiteralUnit ++ quote :: after) value single
      rw [List.flatMap_cons, List.append_assoc, read]
      have := ih offset' ((Text.WellFormed.scalar single).1 wellFormed) (u :: value)
      simpa using this
  | @pair u v rest both _ ih =>
      rw [List.flatMap_cons, List.flatMap_cons, List.append_assoc, List.append_assoc, characters_pair _ _ _ _ both]
      have := ih (offset + 2) ((Text.WellFormed.pair both).1 wellFormed) (v :: u :: value)
      simpa using this

theorem scan_literal (start : Nat) {text : Text} (wellFormed : text.WellFormed) (after : Text) :
    Yields (scan start (text.flatMap Quoted.escapeLiteralUnit ++ quote :: after)) text after :=
  characters_literal start (start + 1) wellFormed after []

theorem scan_wellFormed {start : Nat} {text : Text} {scanned : Scanned} (h : scan start text = .ok scanned) :
    scanned.value.WellFormed :=
  characters_wellFormed h .nil

end StringLiteral

end QueryPlanner
