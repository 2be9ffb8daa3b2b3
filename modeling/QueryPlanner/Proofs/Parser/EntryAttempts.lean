import QueryPlanner.Proofs.Parser.Acceptance
import QueryPlanner.Proofs.Parser.DefinitionAttempts
import QueryPlanner.Proofs.Token.Coverage

namespace QueryPlanner
open Grammar ParserState
open Lexeme (mark word)

def Run.error? {ε α : Type} : Except ε α → Option ε
  | .ok _ => none
  | .error e => some e

theorem Run.error?_eq_some {ε α : Type} {result : Except ε α} {e : ε} : error? result = some e ↔ result = .error e := by
  cases result <;> simp [error?]

namespace TokenStream

theorem tokens_of_toList {stream : TokenStream} {tokens : List Token} (read : stream.toList = .ok tokens) :
    stream.tokens = tokens := by
  induction stream generalizing tokens with
  | endOfFile token => exact Except.ok.inj read
  | fault _ => contradiction
  | cons token rest ih =>
      obtain ⟨others, others_read, rfl⟩ := cons_toList_ok.1 read
      rw [TokenStream.tokens, ih others_read]

theorem scan_rises (fuel : Nat) (text : Text) (c : Cursor) :
    (∀ t ∈ (scan fuel text c).tokens, c.offset ≤ t.start) ∧ (scan fuel text c).tokens.Pairwise (·.start < ·.start) := by
  induction fuel generalizing text c with
  | zero => exact ⟨List.forall_mem_singleton.2 (Nat.le_refl _), List.pairwise_singleton _ _⟩
  | succ fuel ih =>
      cases next : Scan.next text c with
      | error fault =>
          rw [scan, next]
          exact ⟨List.forall_mem_nil _, .nil⟩
      | ok step =>
          obtain ⟨gap, units, place, -, -, offset, takes⟩ := Scan.next_takes next
          have start := takes.start
          obtain ⟨later, rises⟩ := ih step.rest step.cursor
          rw [takes.cursor] at later
          by_cases last : step.token.kind = .endOfFile
          · rw [scan_endOfFile next last]
            exact ⟨List.forall_mem_singleton.2 (by omega), List.pairwise_singleton _ _⟩
          by_cases comment : step.token.kind = .comment
          · rw [scan_comment next comment]
            exact ⟨fun t member => by have := later t member; omega, rises⟩
          · have some := List.length_pos_iff.2 (mt takes.last.2 last)
            rw [scan_token next last comment, tokens]
            refine ⟨List.forall_mem_cons.2 ⟨by omega, fun t member => ?_⟩, List.pairwise_cons.2 ⟨fun t member => ?_, rises⟩⟩
            · have := later t member
              omega
            · have := later t member
              omega

theorem Ends.front {stream : TokenStream} (ends : stream.Ends) {front back : List Token} {t : Token}
    (split : stream.tokens = front ++ t :: back) : ∀ u ∈ front, u.kind ≠ .endOfFile := by
  induction stream generalizing front with
  | endOfFile token =>
      obtain ⟨rfl, -⟩ | ⟨_, nothing⟩ := List.cons_eq_append_iff.1 split
      · exact List.forall_mem_nil _
      · simp at nothing
  | fault _ => simp [tokens] at split
  | cons token rest ih =>
      obtain ⟨rfl, -⟩ | ⟨others, rfl, behind⟩ := List.cons_eq_append_iff.1 split
      · exact List.forall_mem_nil _
      · exact List.forall_mem_cons.2 ⟨ends.1, ih ends.2 behind⟩

end TokenStream

namespace Source

def readable (source : Source) : List Token := (TokenStream.ofText source.body).tokens

variable {source : Source}

theorem readable_of_tokens {tokens : List Token} (read : source.tokens = .ok tokens) : source.readable = tokens :=
  TokenStream.tokens_of_toList (Source.tokens_ok.1 read)

theorem readable_apart {front back : List Token} {t : Token} (split : source.readable = front ++ t :: back) :
    (∀ u ∈ front, u.start < t.start) ∧ ∀ u ∈ back, t.start < u.start := by
  have rises : source.readable.Pairwise (·.start < ·.start) := (TokenStream.scan_rises ..).2
  rw [split, List.pairwise_append, List.pairwise_cons] at rises
  obtain ⟨-, ⟨below, -⟩, above⟩ := rises
  exact ⟨fun u member => above u member t List.mem_cons_self, below⟩

end Source

namespace ParserState

structure Enters (body : Source) (o : ParseOptions) (s : ParserState) : Prop extends s.Stands o 0 where
  source : s.source = body
  lastToken : s.lastToken = .startOfFile
  ahead : s.ahead = body.readable

end ParserState

namespace Parser

theorem parse_error {α : Type} {p : Parser α} {source : Source} {o : ParseOptions} {d : Diagnostic} :
    parse p source o = .error d ↔ ∃ s, p (start source o) = .error d s := by
  unfold parse start
  split <;> simp [*]

theorem enter (source : Source) (o : ParseOptions) :
    (∃ fault s', source.readable = [] ∧ expectToken .startOfFile (start source o) = .error (.lexical source fault) s') ∨
    (∃ most token text s', o.maxTokens = some most ∧
      expectToken .startOfFile (start source o) = .error (.grammar source token text) s') ∨
    ∃ s, s.Enters source o ∧ expectToken .startOfFile (start source o) = .ok .startOfFile s := by
  have stands : (start source o).Stands o 0 := ⟨⟨start_valid, nofun⟩, rfl, rfl⟩
  have run : expectToken .startOfFile (start source o) = (advance >>= fun _ => pure .startOfFile) (start source o) := rfl
  obtain ⟨fault, s', none, taken⟩ | ⟨most, token, text, s', limit, taken⟩ | ⟨s', taken, stands', source', lastToken, ahead⟩ :=
    advance_takes stands
  · exact .inl ⟨fault, s', none, by rw [run, Run.bind_of_error taken]; rfl⟩
  · exact .inr (.inl ⟨most, token, text, s', limit, by rw [run, Run.bind_of_error taken]; rfl⟩)
  · exact .inr (.inr ⟨s', ⟨stands', source', lastToken, ahead⟩, by rw [run, Run.bind_of_ok taken]; rfl⟩)

end Parser

open QueryPlanner.Parser

namespace Comparison

variable {c : Comparison} {α : Type} {source : Source} {E : Expectation} {entry body : Parser α}

theorem entry_fails (opens : entry (start source c.limited) =
      (expectToken .startOfFile >>= fun _ => body) (start source c.limited))
    (attempt : ∀ s, s.Stands c.limited 0 → c.Attempt E s body body) {d : Diagnostic}
    (failed : parse entry source c.limited = .error d) :
    (∃ fault, d = .lexical source fault) ∨
    (∃ most token text, c.limited.maxTokens = some most ∧ d = .grammar source token text) ∨
    ∃ s, s.Enters source c.limited ∧ c.Fails E s body d := by
  obtain ⟨s₁, failed⟩ := parse_error.1 failed
  rw [opens] at failed
  obtain ⟨fault, s', -, taken⟩ | ⟨most, token, text, s', limit, taken⟩ | ⟨s, enters, taken⟩ := enter source c.limited
  · rw [Run.bind_of_error taken] at failed
    exact .inl ⟨fault, (EStateM.Result.error.inj failed).1.symm⟩
  · rw [Run.bind_of_error taken] at failed
    exact .inr (.inl ⟨most, token, text, limit, (EStateM.Result.error.inj failed).1.symm⟩)
  · rw [Run.bind_of_ok taken] at failed
    have fails := attempt s enters.toStands
    unfold Attempt at fails
    rw [failed] at fails
    exact .inr (.inr ⟨s, enters, fails⟩)

theorem toEnd_attempt {β : Type} {p q : Parser α} {bare : α → β} {H : Nat → List Lexeme → β → Prop}
    {G : List Lexeme → β → Prop} (reads : c.Reads 0 p q bare H G) {s : ParserState} (stands : s.Stands c.limited 0) :
    c.Attempt { viable := Viable G } s (toEnd p) (toEnd q) :=
  reads.andThen stands rfl (fun _ viable => viable) fun made ls s₁ derives stands₁ =>
    Attempt.expectThen .endOfFile stands₁ (.of_derives (by simpa using derives)) fun _ _ stands₂ => .pure stands₂ made

theorem definitionsFrom_attempt (sets : c.sets) (first : Token) {s : ParserState} (stands : s.Stands c.limited 0) :
    c.Attempt { viable := Viable (IsDocument c.limited.allowFragmentVariables) } s (definitionsFrom first)
      (definitionsFrom first) :=
  (definitions_attempt sets stands).bind fun definitions _ _ _ _ stands₁ =>
    .located (stands.depth ▸ stands₁) first (Document.mk definitions)

end Comparison

end QueryPlanner
