import QueryPlanner.Token.Number
import QueryPlanner.Proofs.Text.Lines
import QueryPlanner.Proofs.Text.WellFormed
import QueryPlanner.Proofs.Run
import Mathlib.Data.List.TakeWhile

namespace QueryPlanner.Number
open CodeUnit (isDigit isNameStart)
open Text (Stops)

def AreDigits (text : Text) : Prop := text ≠ [] ∧ ∀ u ∈ text, isDigit u = true

def IsSign (text : Text) : Prop := text = [] ∨ text = [0x2d]

structure IsInteger (text : Text) : Prop where
  digits : AreDigits text
  alone : text.head? = some 0x30 → text = [0x30]

inductive IsFraction : Text → Prop
  | absent : IsFraction []
  | digits {ds : Text} : AreDigits ds → IsFraction (0x2e :: ds)

def IsExponentSign (text : Text) : Prop := text = [] ∨ text = [0x2b] ∨ text = [0x2d]

inductive IsExponent : Text → Prop
  | absent : IsExponent []
  | digits {e : CodeUnit} {sign ds : Text} : e = 0x45 ∨ e = 0x65 → IsExponentSign sign → AreDigits ds →
      IsExponent (e :: sign ++ ds)

def kindOf (fraction exponent : Text) : TokenKind := if fraction = [] ∧ exponent = [] then .int else .float

inductive IsNumber : TokenKind → Text → Prop
  | intro {sign integer fraction exponent : Text} : IsSign sign → IsInteger integer → IsFraction fraction →
      IsExponent exponent → IsNumber (kindOf fraction exponent) (sign ++ integer ++ fraction ++ exponent)

theorem IsNumber.kind {kind : TokenKind} {text : Text} (number : IsNumber kind text) : kind = .int ∨ kind = .float := by
  cases number
  unfold kindOf
  split_ifs
  · exact .inl rfl
  · exact .inr rfl

def Ends (text : Text) : Prop := text.Stops fun u => isDigit u || u == 0x2e || isNameStart u

variable {offset : Nat} {text after : Text} {part : Part}

theorem Ends.stops (ends : Ends after) : after.Stops isDigit := ends.imp fun u digit => by simp [digit]

theorem Ends.not_continues (ends : Ends after) : continues after = false := by
  cases after with
  | nil => rfl
  | cons u rest =>
      have := ends u rfl
      rw [continues]
      simp only [Bool.or_eq_false_iff] at this ⊢
      exact ⟨this.1.2, this.2⟩

theorem Ends.ne {u : CodeUnit} {rest : Text} (ends : Ends (u :: rest)) :
    u ≠ 0x2e ∧ u ≠ 0x45 ∧ u ≠ 0x65 := by
  have := ends u rfl
  refine ⟨?_, ?_, ?_⟩ <;> rintro rfl <;> contradiction

theorem AreDigits.cons (ds : AreDigits text) : ∃ u rest, text = u :: rest ∧ isDigit u = true := by
  obtain ⟨some, all⟩ := ds
  cases text with
  | nil => contradiction
  | cons u rest => exact ⟨u, rest, rfl, all u List.mem_cons_self⟩

theorem IsNumber.cons {kind : TokenKind} (number : IsNumber kind text) :
    ∃ u rest, text = u :: rest ∧ (isDigit u || u == 0x2d) = true := by
  obtain ⟨rfl | rfl, isInteger, -, -⟩ := number
  · obtain ⟨u, rest, rfl, digit⟩ := isInteger.digits.cons
    exact ⟨u, _, rfl, by rw [digit, Bool.true_or]⟩
  · exact ⟨0x2d, _, rfl, rfl⟩

theorem IsNumber.all {kind : TokenKind} {p : CodeUnit → Prop} (number : IsNumber kind text)
    (digit : ∀ u, isDigit u = true → p u) (mark : ∀ u ∈ [0x2b, 0x2d, 0x2e, 0x45, 0x65], p u) : ∀ u ∈ text, p u := by
  have digits {ds : Text} (areDigits : AreDigits ds) : ∀ u ∈ ds, p u := fun u member => digit u (areDigits.2 u member)
  have alone {u : CodeUnit} (isMark : u ∈ [0x2b, 0x2d, 0x2e, 0x45, 0x65]) : ∀ v ∈ [u], p v :=
    List.forall_mem_singleton.2 (mark u isMark)
  obtain ⟨isSign, isInteger, isFraction, isExponent⟩ := number
  refine List.forall_mem_append.2 ⟨List.forall_mem_append.2 ⟨List.forall_mem_append.2 ⟨?_, digits isInteger.digits⟩, ?_⟩, ?_⟩
  · obtain rfl | rfl := isSign
    · exact List.forall_mem_nil _
    · exact alone (by decide)
  · cases isFraction with
    | absent => exact List.forall_mem_nil _
    | digits ds => exact List.forall_mem_cons.2 ⟨mark 0x2e (by decide), digits ds⟩
  · cases isExponent with
    | absent => exact List.forall_mem_nil _
    | digits letter isSign ds =>
        refine List.forall_mem_append.2 ⟨List.forall_mem_cons.2 ⟨?_, ?_⟩, digits ds⟩
        · obtain rfl | rfl := letter <;> exact mark _ (by decide)
        · obtain rfl | rfl | rfl := isSign
          · exact List.forall_mem_nil _
          · exact alone (by decide)
          · exact alone (by decide)

theorem IsNumber.line {kind : TokenKind} (number : IsNumber kind text) : Text.IsLine text := by
  refine number.all (fun u digit => ?_) (Text.IsLine.of_all (by decide))
  exact Text.isLineEnd_of_ne (by rintro rfl; contradiction) (by rintro rfl; contradiction)

theorem digits_ok : digits offset text = .ok part ↔ AreDigits part.written ∧ text = part.written ++ part.rest ∧
    part.rest.Stops isDigit := by
  unfold digits
  constructor
  · intro h
    split at h
    · contradiction
    · obtain rfl := Except.ok.inj h
      rename_i none
      refine ⟨⟨none, fun u member => List.mem_takeWhile_imp member⟩, List.takeWhile_append_dropWhile.symm, ?_⟩
      intro u first
      have := List.head?_dropWhile_not isDigit text
      rw [first] at this
      simpa using this
  · rintro ⟨⟨some, all⟩, rfl, stops⟩
    rw [Text.takeWhile_append_of_stops all stops, Text.dropWhile_append_of_stops all stops]
    split
    · contradiction
    · rfl

theorem digits_complete {w : Text} (offset : Nat) (ds : AreDigits w) (stops : after.Stops isDigit) :
    digits offset (w ++ after) = .ok ⟨w, after⟩ := digits_ok.2 ⟨ds, rfl, stops⟩

theorem sign_sound (text : Text) : IsSign (sign text).written ∧ text = (sign text).written ++ (sign text).rest := by
  unfold sign
  split
  · exact ⟨.inr rfl, rfl⟩
  · exact ⟨.inl rfl, rfl⟩

theorem sign_complete {s : Text} (isSign : IsSign s) (ds : AreDigits text) :
    sign (s ++ (text ++ after)) = ⟨s, text ++ after⟩ := by
  obtain rfl | rfl := isSign
  · obtain ⟨u, rest, rfl, digit⟩ := ds.cons
    unfold sign
    split
    · rename_i same
      simp only [List.nil_append, List.cons_append, List.cons.injEq] at same
      rw [same.1] at digit
      contradiction
    · rfl
  · rfl

theorem integer_sound (h : integer offset text = .ok part) : IsInteger part.written ∧ text = part.written ++ part.rest := by
  unfold integer at h
  split at h
  · split_ifs at h with digit
    obtain rfl := Except.ok.inj h
    exact ⟨⟨⟨by simp, by simp [isDigit]⟩, fun _ => rfl⟩, rfl⟩
  · rename_i leading
    obtain ⟨ds, rfl, stops⟩ := digits_ok.1 h
    refine ⟨⟨ds, fun zero => ?_⟩, rfl⟩
    obtain ⟨rest, written⟩ := List.head?_eq_some_iff.1 zero
    -- A zero that something follows is read by the other branch.
    cases tail : rest ++ part.rest with
    | nil => rw [written, (List.append_eq_nil_iff.1 tail).1]
    | cons u tail' => exact (leading u tail' (by rw [written, List.cons_append, tail])).elim

theorem integer_complete {w : Text} (isInteger : IsInteger w) (stops : after.Stops isDigit) :
    integer offset (w ++ after) = .ok ⟨w, after⟩ := by
  unfold integer
  split
  · rename_i u rest same
    have zero : w.head? = some 0x30 := by
      obtain ⟨v, tail, rfl, -⟩ := isInteger.digits.cons
      rw [List.cons_append, List.cons.injEq] at same
      rw [same.1, List.head?_cons]
    rw [isInteger.alone zero, List.cons_append, List.nil_append, List.cons.injEq] at same
    rw [isInteger.alone zero, same.2]
    rw [same.2] at stops
    simp [stops u rfl]
  · exact digits_complete offset isInteger.digits stops

theorem fraction_sound (h : fraction offset text = .ok part) : IsFraction part.written ∧ text = part.written ++ part.rest := by
  unfold fraction at h
  split at h
  · obtain ⟨inner, read, h⟩ := Run.except_bind_ok.1 h
    obtain rfl := Except.ok.inj h
    obtain ⟨ds, rfl, -⟩ := digits_ok.1 read
    exact ⟨.digits ds, rfl⟩
  · obtain rfl := Except.ok.inj h
    exact ⟨.absent, rfl⟩

theorem fraction_complete {w : Text} (isFraction : IsFraction w) (stops : after.Stops fun u => isDigit u || u == 0x2e) :
    fraction offset (w ++ after) = .ok ⟨w, after⟩ := by
  cases isFraction with
  | absent =>
      unfold fraction
      split
      · rename_i same
        have := stops 0x2e (by rw [← List.nil_append after, same]; rfl)
        contradiction
      · rfl
  | digits ds =>
      have read := digits_complete (offset + 1) ds (stops.imp fun u digit => by simp [digit])
      rw [List.cons_append, fraction, read]
      rfl

theorem exponentSign_sound (text : Text) :
    IsExponentSign (exponentSign text).written ∧ text = (exponentSign text).written ++ (exponentSign text).rest := by
  unfold exponentSign
  split
  · split_ifs with signed
    · obtain rfl | rfl := signed
      · exact ⟨.inr (.inl rfl), rfl⟩
      · exact ⟨.inr (.inr rfl), rfl⟩
    · exact ⟨.inl rfl, rfl⟩
  · exact ⟨.inl rfl, rfl⟩

theorem exponentSign_complete {s : Text} (isSign : IsExponentSign s) (ds : AreDigits text) :
    exponentSign (s ++ (text ++ after)) = ⟨s, text ++ after⟩ := by
  obtain rfl | rfl | rfl := isSign
  · obtain ⟨u, rest, rfl, digit⟩ := ds.cons
    rw [List.nil_append, List.cons_append, exponentSign, if_neg]
    rintro (rfl | rfl) <;> contradiction
  · rfl
  · rfl

theorem exponent_sound (h : exponent offset text = .ok part) : IsExponent part.written ∧ text = part.written ++ part.rest := by
  unfold exponent at h
  split at h
  · rename_i e rest
    split_ifs at h with letter
    · obtain ⟨inner, read, h⟩ := Run.except_bind_ok.1 h
      obtain rfl := Except.ok.inj h
      obtain ⟨ds, split, -⟩ := digits_ok.1 read
      obtain ⟨isSign, whole⟩ := exponentSign_sound rest
      exact ⟨.digits letter isSign ds, by rw [List.append_assoc, ← split, List.cons_append, ← whole]⟩
    · obtain rfl := Except.ok.inj h
      exact ⟨.absent, rfl⟩
  · obtain rfl := Except.ok.inj h
    exact ⟨.absent, rfl⟩

theorem exponent_complete {w : Text} (isExponent : IsExponent w) (ends : Ends after) :
    exponent offset (w ++ after) = .ok ⟨w, after⟩ := by
  cases isExponent with
  | absent =>
      cases after with
      | nil => rfl
      | cons u rest =>
          rw [List.nil_append, exponent, if_neg]
          exact fun letter => letter.elim ends.ne.2.1 ends.ne.2.2
  | @digits e sign ds letter isSign areDigits =>
      have read := digits_complete (offset + 1 + sign.length) areDigits ends.stops
      simp only [List.cons_append, List.append_assoc, exponent, if_pos letter, exponentSign_complete isSign areDigits]
      rw [read]
      rfl

theorem scan_sound {kind : TokenKind} (h : scan offset text = .ok (kind, part)) :
    IsNumber kind part.written ∧ text = part.written ++ part.rest := by
  unfold scan at h
  obtain ⟨i, integerRead, h⟩ := Run.except_bind_ok.1 h
  obtain ⟨f, fractionRead, h⟩ := Run.except_bind_ok.1 h
  obtain ⟨e, exponentRead, h⟩ := Run.except_bind_ok.1 h
  obtain ⟨isSign, whole⟩ := sign_sound text
  obtain ⟨isInteger, whole₁⟩ := integer_sound integerRead
  obtain ⟨isFraction, whole₂⟩ := fraction_sound fractionRead
  obtain ⟨isExponent, whole₃⟩ := exponent_sound exponentRead
  dsimp only at h
  have last : continues e.rest = false := by
    by_contra more
    rw [Bool.not_eq_false] at more
    rw [if_pos more] at h
    contradiction
  rw [last, if_neg Bool.false_ne_true] at h
  obtain ⟨rfl, rfl⟩ := Prod.mk.inj (Except.ok.inj h)
  refine ⟨.intro isSign isInteger isFraction isExponent, ?_⟩
  simp only [List.append_assoc]
  rw [← whole₃, ← whole₂, ← whole₁, ← whole]

theorem IsFraction.stops {f : Text} (isFraction : IsFraction f) (stops : after.Stops isDigit) : (f ++ after).Stops isDigit := by
  cases isFraction with
  | absent => exact stops
  | digits ds => rintro _ ⟨⟩; rfl

theorem IsExponent.stops {e : Text} (isExponent : IsExponent e) (ends : Ends after) :
    (e ++ after).Stops fun u => isDigit u || u == 0x2e := by
  cases isExponent with
  | absent => exact ends.imp fun u => by simp +contextual
  | digits letter => rintro _ ⟨⟩; obtain rfl | rfl := letter <;> rfl

theorem scan_complete {kind : TokenKind} {w : Text} (isNumber : IsNumber kind w) (ends : Ends after) :
    scan offset (w ++ after) = .ok (kind, ⟨w, after⟩) := by
  obtain @⟨sign', integer', fraction', exponent', isSign, isInteger, isFraction, isExponent⟩ := isNumber
  have stops := isExponent.stops ends
  have stops' := isFraction.stops (stops.imp fun u => by simp +contextual)
  have signed : sign (sign' ++ integer' ++ fraction' ++ exponent' ++ after) =
      ⟨sign', integer' ++ (fraction' ++ (exponent' ++ after))⟩ := by
    simp only [List.append_assoc, sign_complete isSign isInteger.digits]
  unfold scan
  simp only [signed]
  refine Run.except_bind_ok.2 ⟨_, integer_complete isInteger stops', ?_⟩
  refine Run.except_bind_ok.2 ⟨_, fraction_complete isFraction stops, ?_⟩
  refine Run.except_bind_ok.2 ⟨_, exponent_complete isExponent ends, ?_⟩
  simp only [ends.not_continues]
  rfl

end QueryPlanner.Number
