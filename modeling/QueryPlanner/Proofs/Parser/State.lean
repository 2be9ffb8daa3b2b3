import QueryPlanner.Parser.State
import QueryPlanner.Proofs.Run
import QueryPlanner.Proofs.Token.Stream
import Mathlib.Tactic.SplitIfs

namespace QueryPlanner
open Grammar (nextKind)
open Lexeme (mark word)

def Token.written (t : Token) : List Lexeme := if t.kind = .endOfFile then [] else [t.lexeme]

theorem Token.flatMap_written_eq (ts : List Token) :
    ts.flatMap Token.written = (ts.filter (·.kind ≠ .endOfFile)).map Token.lexeme := by
  induction ts with
  | nil => rfl
  | cons t ts ih =>
      rw [List.flatMap_cons, ih, Token.written]
      by_cases last : t.kind = .endOfFile
      · rw [if_pos last, List.filter_cons_of_neg (by simpa using last), List.nil_append]
      · rw [if_neg last, List.filter_cons_of_pos (by simpa using last), List.map_cons, List.singleton_append]

def TokenKind.written (kind : TokenKind) : List Lexeme := if kind = .endOfFile then [] else [mark kind]

namespace TokenKind

variable {kind : TokenKind}

theorem written_of_punctuator (punctuator : kind.isPunctuator = true) : kind.written = [mark kind] := by
  rw [written, if_neg]
  rintro rfl
  contradiction

theorem nextKind_written (punctuator : kind.isPunctuator = true) (rest : List Lexeme) :
    nextKind (kind.written ++ rest) = kind := by
  rw [written_of_punctuator punctuator]
  rfl

end TokenKind

theorem Token.written_of_kind {t : Token} {kind : TokenKind} (same : t.kind = kind)
    (valueless : kind.isPunctuator = true ∨ kind = .endOfFile) : t.written = kind.written := by
  subst same
  unfold Token.written TokenKind.written
  split_ifs with last
  · rfl
  · rw [Token.lexeme, valueless.resolve_right last, if_pos rfl, mark]

def ParseOptions.allows (o : ParseOptions) (count : Nat) : Prop := ∀ most, o.maxTokens = some most → (count : Int) ≤ most

namespace ParserState

def remaining (s : ParserState) : List Lexeme := s.token.written ++ s.upcoming.lexemes

structure Valid (s : ParserState) : Prop where
  ends : s.upcoming.Ends
  last : s.token.kind = .endOfFile → ∃ token, s.upcoming = .endOfFile token
  counted : s.tokenCount = 0 ∨ s.options.allows s.tokenCount

structure Ready (s : ParserState) : Prop extends Valid s where
  whole : s.upcoming.isWhole = true
  affordable : s.options.allows (s.tokenCount + s.upcoming.lexemes.length)

theorem Valid.nextKind_remaining {s : ParserState} (valid : s.Valid) : nextKind s.remaining = s.token.kind := by
  by_cases last : s.token.kind = .endOfFile
  · obtain ⟨token, upcoming⟩ := valid.last last
    simp [remaining, Token.written, last, upcoming, TokenStream.lexemes]
  · simp [remaining, Token.written, last, Token.lexeme]

theorem Valid.remaining_eq_nil_iff {s : ParserState} (valid : s.Valid) :
    s.remaining = [] ↔ s.token.kind = .endOfFile := by
  by_cases last : s.token.kind = .endOfFile
  · obtain ⟨token, upcoming⟩ := valid.last last
    simp [remaining, Token.written, last, upcoming, TokenStream.lexemes]
  · simp [remaining, Token.written, last]

structure Consumes (ls : List Lexeme) (s s' : ParserState) : Prop where
  remaining : s.remaining = ls ++ s'.remaining
  valid : s'.Valid
  options : s'.options = s.options
  depth : s'.depth = s.depth
  whole : s'.upcoming.isWhole = s.upcoming.isWhole
  count : s'.tokenCount + s'.upcoming.lexemes.length = s.tokenCount + s.upcoming.lexemes.length

structure At (o : ParseOptions) (n : Nat) (s : ParserState) : Prop where
  options : s.options = o
  levels : s.levelsLeft = n

namespace Consumes

variable {s s₁ s' : ParserState} {ls ls' : List Lexeme}

theorem refl (valid : s.Valid) : Consumes [] s s := ⟨rfl, valid, rfl, rfl, rfl, rfl⟩

theorem trans (first : Consumes ls s s₁) (second : Consumes ls' s₁ s') : Consumes (ls ++ ls') s s' where
  remaining := by rw [first.remaining, second.remaining, List.append_assoc]
  valid := second.valid
  options := second.options.trans first.options
  depth := second.depth.trans first.depth
  whole := second.whole.trans first.whole
  count := second.count.trans first.count

theorem at_iff {o : ParseOptions} {n : Nat} (h : Consumes ls s s') : s'.At o n ↔ s.At o n := by
  have levels : s'.levelsLeft = s.levelsLeft := by
    rw [ParserState.levelsLeft, ParserState.levelsLeft, h.options, h.depth]
  constructor
  · rintro ⟨options, rfl⟩
    exact ⟨h.options.symm.trans options, levels.symm⟩
  · rintro ⟨options, rfl⟩
    exact ⟨h.options.trans options, levels⟩

theorem ready (h : Consumes ls s s') (ready : s.Ready) : s'.Ready where
  toValid := h.valid
  whole := h.whole.trans ready.whole
  affordable := by rw [h.options, h.count]; exact ready.affordable

theorem rest {rest : List Lexeme} (h : Consumes ls s s') (remaining : s.remaining = ls ++ rest) :
    s'.remaining = rest :=
  List.append_cancel_left (h.remaining.symm.trans remaining)

end Consumes

end ParserState

namespace Parser
open Run ParserState

variable {s s' : ParserState} {kind : TokenKind}

theorem exceedsTokens_eq_none_iff : exceedsTokens s = none ↔ s.options.allows s.tokenCount := by
  unfold exceedsTokens ParseOptions.allows
  cases s.options.maxTokens with
  | none => simp
  | some most => simp [Option.bind_eq_bind]

def ended (s : ParserState) (token : Token) : ParserState :=
  { s with lastToken := s.token, token, advances := s.advances + 1 }

def taking (s : ParserState) (token : Token) (rest : TokenStream) : ParserState :=
  { s with
    lastToken := s.token, token, upcoming := rest, tokenCount := s.tokenCount + 1, advances := s.advances + 1 }

def missed (s : ParserState) : ParserState := { s with lastToken := s.token, advances := s.advances + 1 }

theorem advance_of_fault {fault : LexicalFault} (upcoming : s.upcoming = .fault fault) :
    advance s = .error (.lexical s.source fault) (missed s) := by
  unfold advance
  rw [get_bind]
  simp only [upcoming]
  rw [missed, upcoming]
  rfl

theorem advance_of_excess {token : Token} {rest : TokenStream} {d : Diagnostic} (upcoming : s.upcoming = .cons token rest)
    (exceeds : exceedsTokens (taking s token rest) = some d) : advance s = .error d (taking s token rest) := by
  unfold advance
  rw [get_bind]
  simp only [upcoming]
  rw [taking] at exceeds
  have after : (set (taking s token rest) : Parser PUnit) s = .ok ⟨⟩ (taking s token rest) := rfl
  refine (bind_of_ok after).trans ?_
  rw [exceeds]
  rfl

theorem advance_ok {u : Unit} :
    advance s = .ok u s' ↔ (∃ token, s.upcoming = .endOfFile token ∧ s' = ended s token) ∨
      ∃ token rest, s.upcoming = .cons token rest ∧ s' = taking s token rest ∧ s'.options.allows s'.tokenCount := by
  unfold advance
  rw [get_bind]
  constructor
  · intro h
    cases upcoming : s.upcoming with
    | endOfFile token =>
        simp only [upcoming] at h
        exact .inl ⟨token, rfl, by rw [← set_ok.1 h, ended, upcoming]⟩
    | fault f => simp [upcoming] at h
    | cons token rest =>
        simp only [upcoming, bind_ok, set_ok] at h
        obtain ⟨_, _, rfl, h⟩ := h
        cases within : exceedsTokens (taking s token rest) with
        | some d =>
            rw [taking] at within
            simp [within] at h
        | none =>
            have counted := exceedsTokens_eq_none_iff.1 within
            rw [taking] at within
            simp only [within] at h
            obtain ⟨-, rfl⟩ := pure_ok.1 h
            exact .inr ⟨token, rest, rfl, rfl, counted⟩
  · rintro (⟨token, upcoming, rfl⟩ | ⟨token, rest, upcoming, rfl, counted⟩)
    · simp only [upcoming]
      exact set_ok.2 (by rw [ended, upcoming])
    · have within := exceedsTokens_eq_none_iff.2 counted
      rw [taking] at within
      simp only [upcoming, bind_ok, set_ok]
      refine ⟨(), _, rfl, ?_⟩
      simp only [within]
      exact pure_ok.2 ⟨rfl, rfl⟩

theorem advance_sound (valid : s.Valid) {u : Unit} (h : advance s = .ok u s') : Consumes s.token.written s s' := by
  have ends := valid.ends
  obtain ⟨token, upcoming, rfl⟩ | ⟨token, rest, upcoming, rfl, counted⟩ := advance_ok.1 h
  · rw [upcoming] at ends
    refine ⟨?_, ⟨valid.ends, fun _ => ⟨token, upcoming⟩, valid.counted⟩, rfl, rfl, rfl, rfl⟩
    simp [ParserState.remaining, ended, upcoming, TokenStream.lexemes, Token.written, show token.kind = .endOfFile from ends]
  · rw [upcoming] at ends
    refine ⟨?_, ⟨ends.2, fun last => (ends.1 last).elim, .inr counted⟩, rfl, rfl, ?_, ?_⟩
    · simp [ParserState.remaining, taking, upcoming, TokenStream.lexemes, Token.written, ends.1]
    · rw [upcoming]; rfl
    · simp only [upcoming, TokenStream.lexemes, List.length_cons, taking]
      omega

theorem advance_complete (ready : s.Ready) : ∃ s', advance s = .ok () s' ∧ Consumes s.token.written s s' := by
  have returns : ∃ s', advance s = .ok () s' := by
    have whole := ready.whole
    cases upcoming : s.upcoming with
    | endOfFile token => exact ⟨_, advance_ok.2 (.inl ⟨token, upcoming, rfl⟩)⟩
    | fault f => simp [upcoming, TokenStream.isWhole] at whole
    | cons token rest =>
        refine ⟨_, advance_ok.2 (.inr ⟨token, rest, upcoming, rfl, fun most limit => ?_⟩)⟩
        have affordable := ready.affordable most limit
        rw [upcoming, TokenStream.lexemes, List.length_cons] at affordable
        simp only [taking]
        omega
  obtain ⟨s', returns⟩ := returns
  exact ⟨s', returns, advance_sound ready.toValid returns⟩

@[simp] theorem currentToken_ok {t : Token} : currentToken s = .ok t s' ↔ s.token = t ∧ s = s' := by
  unfold currentToken
  rw [get_bind]
  exact pure_ok

@[simp] theorem currentToken_bind {α : Type} {f : Token → Parser α} : (currentToken >>= f) s = f s.token s := rfl

@[simp] theorem peek_ok {b : Bool} : peek kind s = .ok b s' ↔ decide (s.token.kind = kind) = b ∧ s = s' := by
  unfold peek
  rw [get_bind]
  exact pure_ok

def located (s : ParserState) (start : Token) : Option Location :=
  if s.options.noLocation then none else some ⟨s.source, start.start, s.lastToken.stop, start.line, start.column⟩

@[simp] theorem locationFrom_ok {start : Token} {loc : Option Location} :
    locationFrom start s = .ok loc s' ↔ located s start = loc ∧ s = s' := by
  unfold locationFrom located
  rw [get_bind]
  split_ifs
  · exact pure_ok
  · exact pure_ok

theorem expectToken_ok {t : Token} :
    expectToken kind s = .ok t s' ↔ s.token.kind = kind ∧ s.token = t ∧ advance s = .ok () s' := by
  unfold expectToken
  rw [get_bind]
  split_ifs with found
  · simp only [bind_ok, pure_ok, found, true_and]
    constructor
    · rintro ⟨_, _, taken, same, rfl⟩
      exact ⟨same, taken⟩
    · rintro ⟨same, taken⟩
      exact ⟨_, _, taken, same, rfl⟩
  · simp [found]

theorem optionalToken_ok {b : Bool} :
    optionalToken kind s = .ok b s' ↔
      (s.token.kind = kind ∧ b = true ∧ advance s = .ok () s') ∨ (s.token.kind ≠ kind ∧ b = false ∧ s = s') := by
  unfold optionalToken
  rw [get_bind]
  split_ifs with found
  · simp only [bind_ok, pure_ok, found, ne_eq, not_true, true_and, false_and, or_false]
    constructor
    · rintro ⟨_, _, taken, same, rfl⟩
      exact ⟨same.symm, taken⟩
    · rintro ⟨same, taken⟩
      exact ⟨_, _, taken, same.symm, rfl⟩
  · simp [found, eq_comm]

theorem expectKeyword_ok {text : Text} {u : Unit} :
    expectKeyword text s = .ok u s' ↔ isKeyword s.token text = true ∧ advance s = .ok () s' := by
  unfold expectKeyword
  rw [get_bind]
  split_ifs with found
  · simp [found]
  · simp [found]

theorem optionalKeyword_ok {text : Text} {b : Bool} :
    optionalKeyword text s = .ok b s' ↔
      (isKeyword s.token text = true ∧ b = true ∧ advance s = .ok () s') ∨
        (isKeyword s.token text = false ∧ b = false ∧ s = s') := by
  unfold optionalKeyword
  rw [get_bind]
  split_ifs with found
  · simp only [bind_ok, pure_ok, found, Bool.true_eq_false, true_and, false_and, or_false]
    constructor
    · rintro ⟨_, _, taken, same, rfl⟩
      exact ⟨same.symm, taken⟩
    · rintro ⟨same, taken⟩
      exact ⟨_, _, taken, same.symm, rfl⟩
  · simp [found, eq_comm]

end Parser

end QueryPlanner
