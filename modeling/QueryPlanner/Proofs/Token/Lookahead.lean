import QueryPlanner.Token.Reader
import QueryPlanner.Proofs.Token.Position
import QueryPlanner.Proofs.Parser.EntryAttempts

/-!
# Looking ahead and moving on

A reader holds a part of the stream of its source: the token looked at, if any, and what is read of the text behind
it. Looking ahead keeps that part, moving on drops its first token. A look that fails may leave the reader with other
counts of lines, but why no token can be read does not depend on these.
-/

namespace QueryPlanner

/-! ## Faults do not depend on lines -/

theorem BlockLiteral.characters_error {start : Nat} {text : Text} {r r' : Reading} {fault : LexicalFault}
    (h : characters start text r = .error fault) (same : r'.offset = r.offset) :
    characters start text r' = .error fault := by
  fun_induction characters start text r generalizing r' with
  | case1 => exact h
  | case2 => contradiction
  | case3 rest r ih => exact ih h (congrArg (· + 4) same)
  | case4 rest r ih => exact ih h (congrArg (· + 1) same)
  | case5 rest r ih => exact ih h (congrArg (· + 2) same)
  | case6 rest r single ih =>
      rw [characters.eq_6 _ _ _ single]
      exact ih h (congrArg (· + 1) same)
  | case7 u r feed ret => rwa [characters.eq_7 _ _ _ feed ret, same]
  | case8 u v rest r closing quoted feed pair ret single ih =>
      rw [characters.eq_8 _ _ _ _ _ closing quoted feed pair ret, if_pos single]
      exact ih h (congrArg (· + 1) same)
  | case9 u v rest r closing quoted feed pair ret half whole ih =>
      rw [characters.eq_8 _ _ _ _ _ closing quoted feed pair ret, if_neg half, if_pos whole]
      exact ih h (congrArg (· + 2) same)
  | case10 u v rest r closing quoted feed pair ret half broken =>
      rwa [characters.eq_8 _ _ _ _ _ closing quoted feed pair ret, if_neg half, if_neg broken, same]

namespace Scan

theorem skipIgnored_of_offset (text : Text) {c c' : Cursor} (same : c'.offset = c.offset) :
    (skipIgnored text c').1 = (skipIgnored text c).1 ∧ (skipIgnored text c').2.offset = (skipIgnored text c).2.offset := by
  fun_induction skipIgnored text c generalizing c' with
  | case1 rest c ih => exact ih (congrArg (· + 1) same)
  | case2 rest c ih => exact ih (congrArg (· + 2) same)
  | case3 rest c single ih =>
      rw [skipIgnored.eq_3 _ _ single]
      exact ih (congrArg (· + 1) same)
  | case4 u rest c feed pair ret skipped ih =>
      rw [skipIgnored.eq_4 _ _ _ feed pair ret, if_pos skipped]
      exact ih (congrArg (· + 1) same)
  | case5 u rest c feed pair ret kept =>
      rw [skipIgnored.eq_4 _ _ _ feed pair ret, if_neg kept]
      exact ⟨rfl, same⟩
  | case6 => exact ⟨rfl, same⟩

variable {text : Text} {c c' : Cursor} {fault : LexicalFault}

theorem lexeme_error (h : lexeme text c = .error fault) (same : c'.offset = c.offset) :
    lexeme text c' = .error fault := by
  unfold lexeme at h
  split at h
  · contradiction
  · contradiction
  · rename_i rest
    cases read : BlockLiteral.scan c.offset c.lineStart rest with
    | error found =>
        rw [read] at h
        rw [lexeme, same, BlockLiteral.scan, BlockLiteral.characters_error read (congrArg (· + 3) rfl)]
        exact h
    | ok literal =>
        rw [read] at h
        contradiction
  · rename_i u rest dots quotes
    rw [lexeme.eq_4 _ _ _ dots quotes]
    split_ifs at h ⊢ with hash quoted digit letter
    · rw [same]
      cases read : StringLiteral.scan c.offset rest with
      | error found => rwa [read] at h
      | ok literal =>
          rw [read] at h
          contradiction
    · rw [same]
      cases read : Number.scan c.offset (u :: rest) with
      | error found => rwa [read] at h
      | ok number =>
          rw [read] at h
          contradiction
    · split at h
      · contradiction
      · rwa [same]

theorem next_error (h : next text c = .error fault) (same : c'.offset = c.offset) : next text c' = .error fault := by
  obtain ⟨rest, offset⟩ := skipIgnored_of_offset text same
  change lexeme (skipIgnored text c').1 (skipIgnored text c').2 = .error fault
  rw [rest]
  exact lexeme_error h offset

end Scan

/-! ## Streams from one token on -/

namespace TokenStream

def front : TokenStream → Except LexicalFault Token
  | endOfFile token => .ok token
  | fault f => .error f
  | cons token _ => .ok token

def tail : TokenStream → TokenStream
  | cons _ rest => rest
  | stream => stream

def drop : Nat → TokenStream → TokenStream
  | 0, stream => stream
  | n + 1, stream => drop n stream.tail

variable {stream : TokenStream} {i : Nat} {t : Token}

theorem drop_tail : stream.tail.drop i = (stream.drop i).tail := by
  induction i generalizing stream with
  | zero => rfl
  | succ i ih => exact ih

theorem drop_of_stuck (stuck : stream.tail = stream) (i : Nat) : stream.drop i = stream := by
  induction i with
  | zero => rfl
  | succ i ih => rw [drop, stuck, ih]

theorem tail_of_error {ε : Type} {report : LexicalFault → ε} {e : ε} (h : .error e = stream.front.mapError report) :
    stream.tail = stream := by
  cases stream <;> first | rfl | contradiction

theorem Ends.drop (ends : stream.Ends) (i : Nat) : (stream.drop i).Ends := by
  induction i generalizing stream with
  | zero => exact ends
  | succ i ih =>
      cases stream with
      | cons token rest => exact ih ends.2
      | _ => exact ih ends

theorem front_drop (found : stream.tokens[i]? = some t) : (stream.drop i).front = .ok t := by
  induction stream generalizing i with
  | endOfFile token =>
      rw [drop_of_stuck rfl]
      rw [tokens, List.getElem?_singleton] at found
      split_ifs at found
      exact congrArg Except.ok (Option.some.inj found)
  | fault f => contradiction
  | cons token rest ih =>
      cases i with
      | zero => exact congrArg Except.ok (Option.some.inj found)
      | succ i => exact ih found

theorem drop_of_length_le (past : stream.tokens.length ≤ i) :
    (∃ eof, stream.drop i = endOfFile eof ∧ stream.tokens.getLast? = some eof) ∨
      ∃ f, stream.drop i = fault f ∧ stream.toList = .error f := by
  induction stream generalizing i with
  | endOfFile token => exact .inl ⟨token, drop_of_stuck rfl i, rfl⟩
  | fault f => exact .inr ⟨f, drop_of_stuck rfl i, rfl⟩
  | cons token rest ih =>
      obtain ⟨i, rfl⟩ := Nat.exists_eq_add_one.2 (Nat.zero_lt_of_lt past)
      obtain ⟨eof, behind, last⟩ | ⟨f, behind, broken⟩ := ih (Nat.le_of_succ_le_succ past)
      · exact .inl ⟨eof, behind, by simp [tokens, List.getLast?_cons, last]⟩
      · exact .inr ⟨f, behind, by rw [toList, broken]; rfl⟩

end TokenStream

theorem Source.drop_of_last (source : Source) {i : Nat} {t : Token}
    (found : (Token.startOfFile :: source.readable)[i]? = some t) (past : source.readable.length ≤ i) :
    (TokenStream.ofText source.body).drop i = .endOfFile t ∨
      ∃ fault, (TokenStream.ofText source.body).drop i = .fault fault ∧
        source.tokens = .error (.lexical source fault) := by
  obtain ⟨eof, behind, last⟩ | ⟨fault, behind, broken⟩ := TokenStream.drop_of_length_le past
  · have place : i ≤ source.readable.length := Nat.le_of_lt_succ (List.getElem?_eq_some_iff.1 found).1
    rw [Nat.le_antisymm place past] at found
    have whole : (Token.startOfFile :: source.readable).getLast? = some t := List.getLast?_eq_getElem?.trans found
    rw [List.getLast?_cons, Source.readable, last] at whole
    exact .inl (Option.some.inj whole ▸ behind)
  · exact .inr ⟨fault, behind, by rw [Source.tokens, broken]; rfl⟩

/-! ## Readers -/

namespace TokenReader

def unread (r : TokenReader) : TokenStream := .scan (r.rest.length + 1) r.rest r.cursor

def upcoming (r : TokenReader) : TokenStream :=
  if r.token.kind = .endOfFile then .endOfFile r.token
  else match r.ahead with
    | none => r.unread
    | some token => if token.kind = .endOfFile then .endOfFile token else .cons token r.unread

section
variable {r : TokenReader} {t : Token}

theorem upcoming_of_ended (ended : r.token.kind = .endOfFile) : r.upcoming = .endOfFile r.token := if_pos ended

theorem upcoming_of_unread (more : r.token.kind ≠ .endOfFile) (fresh : r.ahead = none) : r.upcoming = r.unread := by
  rw [upcoming, if_neg more, fresh]

theorem upcoming_of_ahead (more : r.token.kind ≠ .endOfFile) (ahead : r.ahead = some t) :
    r.upcoming = if t.kind = .endOfFile then .endOfFile t else .cons t r.unread := by
  rw [upcoming, if_neg more, ahead]

theorem front_of_ahead (more : r.token.kind ≠ .endOfFile) (ahead : r.ahead = some t) : r.upcoming.front = .ok t := by
  rw [upcoming_of_ahead more ahead]
  split_ifs <;> rfl

end

section
variable {r : TokenReader} {fault : LexicalFault} {step : Scan.Step}

theorem unread_error (next : Scan.next r.rest r.cursor = .error fault) : r.unread = .fault fault := by
  rw [unread, TokenStream.scan, next]

theorem unread_skipLines (next : Scan.next r.rest r.cursor = .error fault) : r.skipLines.unread = r.unread := by
  have again : Scan.next r.skipLines.rest r.skipLines.cursor = .error fault := Scan.next_error next rfl
  rw [unread_error next, unread_error again]

variable (next : Scan.next r.rest r.cursor = .ok step)
include next

theorem unread_comment (comment : step.token.kind = .comment) :
    r.unread = { r with rest := step.rest, cursor := step.cursor }.unread := by
  rw [unread, TokenStream.scan_comment next comment]
  exact TokenStream.scan_enough (Scan.next_shorter next (by rw [comment]; decide)) (Nat.lt_succ_self _)

theorem unread_shown (shown : step.token.kind ≠ .comment) :
    r.unread = if step.token.kind = .endOfFile then .endOfFile step.token
      else .cons step.token { r with rest := step.rest, cursor := step.cursor }.unread := by
  split_ifs with last
  · rw [unread, TokenStream.scan_endOfFile next last]
  · rw [unread, TokenStream.scan_token next last shown]
    exact congrArg _ (TokenStream.scan_enough (Scan.next_shorter next last) (Nat.lt_succ_self _))

end

structure Looks (r : TokenReader) (answer : Except Diagnostic Token) (r' : TokenReader) : Prop where
  front : answer = r.upcoming.front.mapError (.lexical r.source)
  upcoming : r'.upcoming = r.upcoming
  source : r'.source = r.source
  token : r'.token = r.token
  lastToken : r'.lastToken = r.lastToken
  kept : r.token.kind ≠ .endOfFile → ∀ t, answer = .ok t → r'.ahead = some t

theorem read_looks {r : TokenReader} (more : r.token.kind ≠ .endOfFile) (fresh : r.ahead = none) {fuel : Nat}
    (enough : r.rest.length < fuel) : r.Looks (read fuel r).1 (read fuel r).2 := by
  induction fuel generalizing r with
  | zero => contradiction
  | succ fuel ih =>
      have here := upcoming_of_unread more fresh
      cases next : Scan.next r.rest r.cursor with
      | error fault =>
          rw [read, next]
          exact {
            front := by rw [here, unread_error next]; rfl
            upcoming := by rw [here, upcoming_of_unread (r := r.skipLines) more fresh, unread_skipLines next]
            source := rfl
            token := rfl
            lastToken := rfl
            kept := nofun }
      | ok step =>
          rw [read, next]
          dsimp only
          let r₁ : TokenReader := { r with rest := step.rest, cursor := step.cursor }
          by_cases comment : step.token.kind = .comment
          · rw [if_pos comment]
            -- Passing the comment keeps what is to come, and leaves less text to read.
            have same : r₁.upcoming = r.upcoming :=
              (upcoming_of_unread (r := r₁) more fresh).trans (here.trans (unread_comment next comment)).symm
            have shorter := Scan.next_shorter next (by rw [comment]; decide)
            have looks := ih (r := r₁) more fresh (Nat.lt_of_lt_of_le shorter (Nat.le_of_lt_succ enough))
            exact { looks with front := same ▸ looks.front, upcoming := same ▸ looks.upcoming }
          · rw [if_neg comment]
            let r₂ : TokenReader := { r₁ with ahead := some step.token }
            have same : r₂.upcoming = r.upcoming := by
              rw [here, unread_shown next comment, upcoming_of_ahead (r := r₂) more rfl]
              rfl
            exact {
              front := by rw [← same, front_of_ahead (r := r₂) more rfl]; rfl
              upcoming := same
              source := rfl
              token := rfl
              lastToken := rfl
              kept := fun _ t same => congrArg some (Except.ok.inj same) }

theorem lookahead_looks (r : TokenReader) : r.Looks r.lookahead.1 r.lookahead.2 := by
  unfold lookahead
  by_cases ended : r.token.kind = .endOfFile
  · rw [if_pos ended]
    exact {
      front := by rw [upcoming_of_ended ended]; rfl
      upcoming := rfl
      source := rfl
      token := rfl
      lastToken := rfl
      kept := fun more => absurd ended more }
  rw [if_neg ended]
  cases ahead : r.ahead with
  | none => exact read_looks ended ahead (Nat.lt_succ_self _)
  | some token =>
      exact {
        front := by rw [front_of_ahead ended ahead]; rfl
        upcoming := rfl
        source := rfl
        token := rfl
        lastToken := rfl
        kept := fun _ t same => ahead.trans (congrArg some (Except.ok.inj same)) }

structure Moves (r : TokenReader) (answer : Except Diagnostic Token) (r' : TokenReader) : Prop where
  front : answer = r.upcoming.front.mapError (.lexical r.source)
  upcoming : r'.upcoming = r.upcoming.tail
  source : r'.source = r.source
  token : r'.token = answer.toOption.getD r.token
  lastToken : r'.lastToken = r.token

theorem advance_moves (r : TokenReader) : r.Moves r.advance.1 r.advance.2 := by
  unfold advance
  have looks := lookahead_looks { r with lastToken := r.token }
  generalize lookahead { r with lastToken := r.token } = found at looks ⊢
  obtain ⟨answer, r₁⟩ := found
  cases answer with
  | error d =>
      exact {
        front := looks.front
        upcoming := looks.upcoming.trans (TokenStream.tail_of_error looks.front).symm
        source := looks.source
        token := looks.token
        lastToken := looks.lastToken }
  | ok token =>
      have upcoming : upcoming { r₁ with token, ahead := none } = r.upcoming.tail := by
        by_cases ended : r.token.kind = .endOfFile
        · have front := looks.front
          rw [upcoming_of_ended (r := { r with lastToken := r.token }) ended] at front
          obtain rfl : token = r.token := Except.ok.inj front
          rw [upcoming_of_ended ended]
          exact upcoming_of_ended ended
        · have same : r₁.upcoming = r.upcoming := looks.upcoming
          have more : r₁.token.kind ≠ .endOfFile := looks.token ▸ ended
          rw [← same, upcoming_of_ahead more (looks.kept ended token rfl)]
          by_cases last : token.kind = .endOfFile
          · rw [if_pos last]
            exact upcoming_of_ended last
          · rw [if_neg last]
            exact upcoming_of_unread last rfl
      exact {
        front := looks.front
        upcoming := upcoming
        source := looks.source
        token := rfl
        lastToken := looks.lastToken }

/-! ## Series of calls -/

inductive Call where
  | lookahead
  | advance
  deriving DecidableEq

def perform (r : TokenReader) : Call → Except Diagnostic Token × TokenReader
  | .lookahead => r.lookahead
  | .advance => r.advance

def after (source : Source) (calls : List Call) : TokenReader :=
  calls.foldl (fun r call => (r.perform call).2) { source }

/-- The reader stands at the token at the place `i`, the start of the file being at the place 0. -/
structure Stands (body : Source) (i : Nat) (r : TokenReader) : Prop where
  source : r.source = body
  token : (Token.startOfFile :: body.readable)[i]? = some r.token
  upcoming : r.upcoming = (TokenStream.ofText body.body).drop i

variable {source : Source} {i : Nat} {r : TokenReader}

theorem start_stands (source : Source) : Stands source 0 { source } := ⟨rfl, rfl, rfl⟩

theorem Stands.le (stands : r.Stands source i) : i ≤ source.readable.length :=
  Nat.le_of_lt_succ (List.getElem?_eq_some_iff.1 stands.token).1

theorem Stands.last (stands : r.Stands source i) (past : source.readable.length ≤ i) :
    r.upcoming = .endOfFile r.token ∨
      ∃ fault, r.upcoming = .fault fault ∧ source.tokens = .error (.lexical source fault) :=
  stands.upcoming ▸ source.drop_of_last stands.token past

theorem Stands.lookahead (stands : r.Stands source i) : r.lookahead.2.Stands source i := by
  have looks := lookahead_looks r
  exact ⟨looks.source.trans stands.source, looks.token ▸ stands.token, looks.upcoming.trans stands.upcoming⟩

theorem Stands.advance (stands : r.Stands source i) : r.advance.2.Stands source (min (i + 1) source.readable.length) := by
  have moves := advance_moves r
  have source' := moves.source.trans stands.source
  have token := moves.token
  rw [moves.front] at token
  by_cases more : i < source.readable.length
  · rw [Nat.min_eq_left more]
    have found := List.getElem?_eq_getElem more
    have front : r.upcoming.front = .ok source.readable[i] := stands.upcoming ▸ TokenStream.front_drop found
    rw [front] at token
    refine ⟨source', token ▸ found, ?_⟩
    rw [moves.upcoming, stands.upcoming, ← TokenStream.drop_tail]
    rfl
  · have past := Nat.le_of_not_lt more
    rw [Nat.min_eq_right (Nat.le_succ_of_le past), ← Nat.le_antisymm stands.le past]
    obtain ended | ⟨fault, stuck, -⟩ := stands.last past
    · rw [ended] at token
      exact ⟨source', token ▸ stands.token, by rw [moves.upcoming, ← stands.upcoming, ended]; rfl⟩
    · rw [stuck] at token
      exact ⟨source', token ▸ stands.token, by rw [moves.upcoming, ← stands.upcoming, stuck]; rfl⟩

theorem Stands.foldl (stands : r.Stands source i) (calls : List Call) :
    (calls.foldl (fun r call => (r.perform call).2) r).Stands source
      (min (i + calls.count .advance) source.readable.length) := by
  induction calls generalizing r i with
  | nil =>
      rw [List.count_nil, Nat.add_zero, Nat.min_eq_left stands.le]
      exact stands
  | cons call calls ih =>
      cases call with
      | lookahead => exact ih stands.lookahead
      | advance =>
          have here := ih stands.advance
          rw [List.count_cons_self]
          rwa [show min (i + (calls.count .advance + 1)) source.readable.length =
            min (min (i + 1) source.readable.length + calls.count .advance) source.readable.length by omega]

theorem after_stands (source : Source) (calls : List Call) :
    (after source calls).Stands source (min (calls.count .advance) source.readable.length) := by
  have stands := (start_stands source).foldl calls
  rwa [Nat.zero_add] at stands

end TokenReader

/-! ## What calls return -/

/--
What follows the token `t` at the place `i`: the next token that can be read, the end of the file again behind
itself, and otherwise the fault that the tokens of the source end with.
-/
structure Source.Answers (source : Source) (i : Nat) (t : Token) (answer : Except Diagnostic Token) : Prop where
  next : ∀ t', source.readable[i]? = some t' → answer = .ok t'
  last : t.kind = .endOfFile → answer = .ok t
  fault : source.readable[i]? = none → t.kind ≠ .endOfFile → ∃ d, source.tokens = .error d ∧ answer = .error d

theorem Source.readable_nodup (source : Source) : (Token.startOfFile :: source.readable).Nodup := by
  have rises : source.readable.Pairwise (·.start < ·.start) := (TokenStream.scan_rises ..).2
  refine List.nodup_cons.2 ⟨fun member => ?_, rises.imp fun below same => ?_⟩
  · have line := (TokenStream.ofText_isPlacedIn source.body _ member).line
    change 0 = _ at line
    omega
  · subst same
    exact Nat.lt_irrefl _ below

namespace TokenReader

/-- At every token of its source the reader returns what follows it, and only moving on changes where it stands. -/
structure Follows (source : Source) (r : TokenReader) : Prop where
  current : ∃ i : Nat, (Token.startOfFile :: source.readable)[i]? = some r.token
  answers : ∀ i : Nat, (Token.startOfFile :: source.readable)[i]? = some r.token → ∀ call,
    source.Answers i r.token (r.perform call).1
  looked : (r.perform .lookahead).2.token = r.token ∧ (r.perform .lookahead).2.lastToken = r.lastToken
  moved : ∀ t, (r.perform .advance).1 = .ok t → (r.perform .advance).2.token = t
  failed : ∀ d, (r.perform .advance).1 = .error d → (r.perform .advance).2.token = r.token
  lastToken : (r.perform .advance).2.lastToken = r.token

theorem perform_front (r : TokenReader) (call : Call) :
    (r.perform call).1 = r.upcoming.front.mapError (.lexical r.source) := by
  cases call with
  | lookahead => exact (lookahead_looks r).front
  | advance => exact (advance_moves r).front

variable {source : Source} {i : Nat} {r : TokenReader}

theorem Stands.answers (stands : r.Stands source i) (call : Call) : source.Answers i r.token (r.perform call).1 := by
  rw [perform_front, stands.source]
  refine ⟨fun t found => ?_, fun ended => ?_, fun past more => ?_⟩
  · rw [stands.upcoming, TokenStream.front_drop found]
    rfl
  · rw [upcoming_of_ended ended]
    rfl
  · obtain ended | ⟨fault, stuck, broken⟩ := stands.last (List.getElem?_eq_none_iff.1 past)
    · have ends := (TokenStream.ofText_ends source.body).drop i
      rw [← stands.upcoming, ended] at ends
      exact absurd ends more
    · exact ⟨_, broken, by rw [stuck]; rfl⟩

theorem Stands.follows (stands : r.Stands source i) : r.Follows source := by
  have looks := lookahead_looks r
  have moves := advance_moves r
  refine ⟨⟨i, stands.token⟩, fun j found call => ?_, ⟨looks.token, looks.lastToken⟩, fun t answer => ?_,
    fun d answer => ?_, moves.lastToken⟩
  · obtain rfl : i = j := (List.getElem?_inj (List.getElem?_eq_some_iff.1 stands.token).1 source.readable_nodup).1
      (stands.token.trans found.symm)
    exact stands.answers call
  · exact moves.token.trans (by rw [show r.advance.1 = .ok t from answer]; rfl)
  · exact moves.token.trans (by rw [show r.advance.1 = .error d from answer]; rfl)

/-- Whatever was called before, a reader goes through the tokens of its source one by one. -/
theorem after_follows (source : Source) (calls : List Call) : (after source calls).Follows source :=
  (after_stands source calls).follows

end TokenReader

end QueryPlanner
