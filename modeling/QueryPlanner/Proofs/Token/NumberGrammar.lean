import QueryPlanner.Proofs.Token.Rereading

namespace QueryPlanner
open CodeUnit (isDigit isNameStart)

namespace Number
open Text (Stops)

section
variable {offset : Nat} {text : Text} {kind : TokenKind} {part : Part}

theorem scan_iff : scan offset text = .ok (kind, part) ↔
    IsNumber kind part.written ∧ text = part.written ++ part.rest ∧ Ends part.rest := by
  constructor
  · intro read
    obtain ⟨isNumber, split⟩ := scan_sound read
    exact ⟨isNumber, split, scan_ends read⟩
  · rintro ⟨isNumber, rfl, ends⟩
    exact scan_complete isNumber ends

theorem IsNumber.unique {kind' : TokenKind} {w w' after after' : Text} (isNumber : IsNumber kind w) (ends : Ends after)
    (isNumber' : IsNumber kind' w') (ends' : Ends after') (same : w ++ after = w' ++ after') : w = w' ∧ kind = kind' := by
  have read : scan 0 (w ++ after) = .ok (kind, ⟨w, after⟩) := scan_complete isNumber ends
  rw [same, scan_complete isNumber' ends'] at read
  obtain ⟨kinds, parts⟩ := Prod.mk.inj (Except.ok.inj read)
  exact ⟨(Part.mk.inj parts).1.symm, kinds.symm⟩

end

section
variable {offset : Nat} {text rest written : Text} {fault : LexicalFault}

def IsFoundIn (fault : LexicalFault) (offset : Nat) (text : Text) : Prop :=
  offset ≤ fault.position ∧ fault.position ≤ offset + text.length

theorem IsFoundIn.behind (found : IsFoundIn fault (offset + written.length) rest) :
    IsFoundIn fault offset (written ++ rest) := by
  unfold IsFoundIn at found ⊢
  rw [List.length_append]
  omega

theorem IsFoundIn.tail {u : CodeUnit} (found : IsFoundIn fault (offset + 1) rest) : IsFoundIn fault offset (u :: rest) := by
  unfold IsFoundIn at found ⊢
  rw [List.length_cons]
  omega

theorem digits_fault (failed : digits offset text = .error fault) : IsFoundIn fault offset text := by
  unfold digits at failed
  split at failed
  · obtain rfl := Except.error.inj failed
    exact ⟨Nat.le_refl _, Nat.le_add_right _ _⟩
  · contradiction

theorem integer_fault (failed : integer offset text = .error fault) : IsFoundIn fault offset text := by
  unfold integer at failed
  split at failed
  · split_ifs at failed
    obtain rfl := Except.error.inj failed
    exact ⟨Nat.le_succ _, by simp⟩
  · exact digits_fault failed

theorem fraction_fault (failed : fraction offset text = .error fault) : IsFoundIn fault offset text := by
  unfold fraction at failed
  split at failed
  · obtain missing | ⟨_, _, made⟩ := Run.except_bind_error.1 failed
    · exact (digits_fault missing).tail
    · contradiction
  · contradiction

theorem exponent_fault (failed : exponent offset text = .error fault) : IsFoundIn fault offset text := by
  unfold exponent at failed
  split at failed
  · rename_i e rest
    split_ifs at failed
    obtain missing | ⟨_, _, made⟩ := Run.except_bind_error.1 failed
    · have whole := (exponentSign_sound rest).2
      rw [whole]
      exact (digits_fault missing).behind.tail
    · contradiction
  · contradiction

theorem scan_fault (failed : scan offset text = .error fault) : IsFoundIn fault offset text := by
  unfold scan at failed
  obtain ⟨-, whole⟩ := sign_sound text
  rw [whole]
  obtain missing | ⟨i, integerRead, failed⟩ := Run.except_bind_error.1 failed
  · exact (integer_fault missing).behind
  obtain ⟨-, whole₁⟩ := integer_sound integerRead
  rw [whole₁, ← List.append_assoc]
  obtain missing | ⟨f, fractionRead, failed⟩ := Run.except_bind_error.1 failed
  · exact (fraction_fault missing).behind
  obtain ⟨-, whole₂⟩ := fraction_sound fractionRead
  rw [whole₂, ← List.append_assoc]
  obtain missing | ⟨e, exponentRead, failed⟩ := Run.except_bind_error.1 failed
  · rw [Nat.add_assoc, ← List.length_append] at missing
    exact (exponent_fault missing).behind
  obtain ⟨-, whole₃⟩ := exponent_sound exponentRead
  rw [whole₃, ← List.append_assoc]
  -- All parts have been read, so that what continues the number stands behind them.
  dsimp only at failed
  cases last : continues e.rest with
  | true =>
      rw [last, if_pos rfl] at failed
      obtain rfl := Except.error.inj failed
      exact IsFoundIn.behind ⟨Nat.le_refl _, Nat.le_add_right _ _⟩
  | false =>
      rw [last, if_neg Bool.false_ne_true] at failed
      contradiction

end

structure StandsAt (body : Text) (start stop : Nat) (kind : TokenKind) : Prop where
  within : stop ≤ body.length
  number : IsNumber kind (body.slice start stop)
  ends : Ends (body.drop stop)

section
variable {body written rest : Text} {start stop stop' : Nat} {kind kind' : TokenKind}

theorem StandsAt.drop_eq (stands : StandsAt body start stop kind) :
    body.drop start = body.slice start stop ++ body.drop stop ∧ stop = start + (body.slice start stop).length := by
  obtain ⟨u, others, written, -⟩ := stands.number.cons
  have wide : 0 < stop - start := by
    by_contra none
    rw [Text.slice, Nat.eq_zero_of_not_pos none] at written
    contradiction
  have place : start + (stop - start) = stop := by omega
  have within := stands.within
  constructor
  · rw [Text.slice, ← place, ← List.drop_drop, Nat.add_sub_cancel_left, List.take_append_drop]
  · rw [Text.slice, List.length_take, List.length_drop]
    omega

theorem standsAt_of_drop (isNumber : IsNumber kind written) (ends : Ends rest) (behind : body.drop start = written ++ rest) :
    StandsAt body start (start + written.length) kind where
  within := by
    obtain ⟨u, others, begins, -⟩ := isNumber.cons
    have length := congrArg List.length behind
    rw [List.length_drop, List.length_append, begins, List.length_cons] at length
    rw [begins, List.length_cons]
    omega
  number := by rwa [Text.slice_of_drop behind]
  ends := by rwa [Text.drop_of_drop behind]

theorem StandsAt.unique (stands : StandsAt body start stop kind) (stands' : StandsAt body start stop' kind') :
    stop = stop' ∧ kind = kind' := by
  obtain ⟨split, place⟩ := stands.drop_eq
  obtain ⟨split', place'⟩ := stands'.drop_eq
  obtain ⟨same, kinds⟩ := stands.number.unique stands.ends stands'.number stands'.ends (split.symm.trans split')
  exact ⟨by rw [place, place', same], kinds⟩

end

end Number

namespace Scan

def numberStep (body : Text) (c : Cursor) (stop : Nat) (kind : TokenKind) : Step where
  token := ⟨kind, c.offset, stop, c.line, 1 + c.offset - c.lineStart, body.slice c.offset stop⟩
  rest := body.drop stop
  cursor := { c with offset := stop }

theorem next_number {u : CodeUnit} {rest : Text} {c : Cursor} (begins : (isDigit u || u == 0x2d) = true) :
    next (u :: rest) c = (do
      let (kind, number) ← Number.scan c.offset (u :: rest)
      return ⟨c.token kind number.written.length number.written, number.rest, c.advance number.written.length⟩) := by
  have apart (v : CodeUnit) (other : (isDigit v || v == 0x2d) = false) : u ≠ v := by
    rintro rfl
    rw [begins] at other
    contradiction
  have solid : IsSolid u := by
    obtain digit | sign := Bool.or_eq_true_iff.1 begins
    · exact ReadsToken.isSolid_of_isNameContinue (by rw [CodeUnit.isNameContinue, digit, Bool.or_true])
    · rw [beq_iff_eq.1 sign]
      exact ⟨rfl, rfl⟩
  rw [next, ReadsToken.skipIgnored_of_solid solid]
  dsimp only
  rw [lexeme.eq_4 _ _ _ (fun _ dot _ => apart 0x2e rfl dot) fun _ quote _ => apart 0x22 rfl quote,
    if_neg (apart 0x23 rfl), if_neg (apart 0x22 rfl), if_pos begins]

end Scan

/-- Where a digit or a minus sign stands, the grammar decides on what is read there, and on its kind. -/
theorem numbers_read_by_grammar {body : Text} {c : Cursor}
    (begins : ∃ u, body[c.offset]? = some u ∧ (isDigit u || u == 0x2d) = true) :
    (∀ step, Scan.next (body.drop c.offset) c = .ok step ↔
      ∃ stop kind, Number.StandsAt body c.offset stop kind ∧ step = Scan.numberStep body c stop kind) ∧
      (∀ stop kind stop' kind', Number.StandsAt body c.offset stop kind → Number.StandsAt body c.offset stop' kind' →
        stop = stop' ∧ kind = kind') ∧
        ((∀ stop kind, ¬ Number.StandsAt body c.offset stop kind) → ∃ fault,
          Scan.next (body.drop c.offset) c = .error fault ∧ c.offset ≤ fault.position ∧ fault.position ≤ body.length) := by
  obtain ⟨u, here, first⟩ := begins
  obtain ⟨inside, is⟩ := List.getElem?_eq_some_iff.1 here
  have split : body.drop c.offset = u :: body.drop (c.offset + 1) := is ▸ List.drop_eq_getElem_cons inside
  have read (step : Scan.Step) : Scan.next (body.drop c.offset) c = .ok step ↔
      ∃ stop kind, Number.StandsAt body c.offset stop kind ∧ step = Scan.numberStep body c stop kind := by
    rw [split, Scan.next_number first, ← split, Run.except_bind_ok]
    constructor
    · rintro ⟨⟨kind, number⟩, scanned, made⟩
      obtain rfl := Except.ok.inj made
      obtain ⟨isNumber, behind, ends⟩ := Number.scan_iff.1 scanned
      refine ⟨_, kind, Number.standsAt_of_drop isNumber ends behind, ?_⟩
      rw [Scan.numberStep, Text.slice_of_drop behind, Text.drop_of_drop behind]
      rfl
    · rintro ⟨stop, kind, stands, rfl⟩
      obtain ⟨behind, place⟩ := stands.drop_eq
      refine ⟨(kind, ⟨body.slice c.offset stop, body.drop stop⟩), Number.scan_iff.2 ⟨stands.number, behind, stands.ends⟩, ?_⟩
      change Except.ok (Scan.Step.mk (c.token _ _ _) _ (c.advance _)) = _
      rw [Scan.numberStep, Cursor.token, Cursor.advance, ← place]
  refine ⟨read, fun _ _ _ _ => Number.StandsAt.unique, fun none => ?_⟩
  cases result : Scan.next (body.drop c.offset) c with
  | ok step =>
      obtain ⟨stop, kind, stands, -⟩ := (read step).1 result
      exact absurd stands (none stop kind)
  | error fault =>
      rw [split, Scan.next_number first, ← split] at result
      obtain failed | ⟨_, _, made⟩ := Run.except_bind_error.1 result
      · obtain ⟨lower, upper⟩ := Number.scan_fault failed
        rw [List.length_drop] at upper
        exact ⟨fault, rfl, lower, by omega⟩
      · contradiction

namespace SignedExponent

/-- `[-0.50E+07,1.]` -/
def body : Text := Text.ofString "[-0.50E+07,1.]"

def cursor : Cursor := ⟨1, 1, 0⟩

theorem number_read_by_grammar :
    (∀ step, Scan.next (body.drop cursor.offset) cursor = .ok step ↔
      ∃ stop kind, Number.StandsAt body cursor.offset stop kind ∧ step = Scan.numberStep body cursor stop kind) ∧
      (∀ stop kind stop' kind', Number.StandsAt body cursor.offset stop kind →
        Number.StandsAt body cursor.offset stop' kind' → stop = stop' ∧ kind = kind') ∧
        ((∀ stop kind, ¬ Number.StandsAt body cursor.offset stop kind) → ∃ fault,
          Scan.next (body.drop cursor.offset) cursor = .error fault ∧ cursor.offset ≤ fault.position ∧
            fault.position ≤ body.length) :=
  numbers_read_by_grammar ⟨0x2d, by decide +kernel, rfl⟩

example : (Scan.next (body.drop cursor.offset) cursor).toOption.map (fun step => (step.token.kind, step.token.stop)) =
    some (.float, 10) := by decide +kernel

example : Scan.next (body.drop 11) ⟨11, 1, 0⟩ matches .error ⟨13, .digitExpected (some 0x5d)⟩ := by decide +kernel

end SignedExponent

end QueryPlanner
