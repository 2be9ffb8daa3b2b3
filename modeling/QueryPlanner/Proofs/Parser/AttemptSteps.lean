import QueryPlanner.Proofs.Parser.Attempt

namespace QueryPlanner
open Grammar ParserState
open Lexeme (mark word)

namespace Parser
open Run

variable {s s' : ParserState} {o : ParseOptions} {k : Nat}

theorem exceedsTokens_eq_some {d : Diagnostic} (exceeds : exceedsTokens s = some d) :
    ∃ most text, s.options.maxTokens = some most ∧ d = .grammar s.source s.token text := by
  unfold exceedsTokens at exceeds
  obtain ⟨most, limit, exceeds⟩ := Option.bind_eq_some_iff.1 exceeds
  split_ifs at exceeds
  · contradiction
  · exact ⟨most, _, limit, (Option.some.inj exceeds).symm⟩

theorem optionalToken_found {kind : TokenKind} {β : Type} {h : Bool → Parser β} (found : s.token.kind = kind) :
    (optionalToken kind >>= h) s = (advance >>= fun _ => h true) s := by
  unfold optionalToken
  rw [bind_assoc, get_bind, if_pos found, bind_assoc]
  rfl

theorem optionalToken_missing {kind : TokenKind} {β : Type} {h : Bool → Parser β} (missing : s.token.kind ≠ kind) :
    (optionalToken kind >>= h) s = h false s := by
  unfold optionalToken
  rw [bind_assoc, get_bind, if_neg missing]
  rfl

theorem advance_at_end (stands : s.Stands o k) (last : s.token.kind = .endOfFile) :
    advance s = .ok () (ended s s.token) :=
  advance_ok.2 (.inl ⟨s.token, stands.lasting last, rfl⟩)

theorem advance_takes (stands : s.Stands o k) :
    (∃ fault s', s.upcoming.tokens = [] ∧ advance s = .error (.lexical s.source fault) s') ∨
    (∃ most token text s', o.maxTokens = some most ∧ advance s = .error (.grammar s.source token text) s') ∨
    ∃ s', advance s = .ok () s' ∧ s'.Stands o k ∧ s'.source = s.source ∧ s'.lastToken = s.token ∧
      s'.ahead = s.upcoming.tokens := by
  have ends := stands.ends
  cases upcoming : s.upcoming with
  | endOfFile token =>
      rw [upcoming] at ends
      have last : token.kind = .endOfFile := ends
      refine .inr (.inr ⟨ended s token, advance_ok.2 (.inl ⟨token, upcoming, rfl⟩), ?_, rfl, rfl, ?_⟩)
      · exact ⟨⟨⟨stands.ends, fun _ => ⟨token, upcoming⟩, stands.counted⟩, fun _ => upcoming⟩, stands.options, stands.depth⟩
      · rw [ahead, ended, if_pos last, TokenStream.tokens]
  | fault fault => exact .inl ⟨fault, missed s, rfl, advance_of_fault upcoming⟩
  | cons token rest =>
      rw [upcoming] at ends
      cases within : exceedsTokens (taking s token rest) with
      | none =>
          refine .inr (.inr ⟨taking s token rest, advance_ok.2 (.inr ⟨token, rest, upcoming, rfl, exceedsTokens_eq_none_iff.1 within⟩),
            ?_, rfl, rfl, ?_⟩)
          · exact ⟨⟨⟨ends.2, fun last => (ends.1 last).elim, .inr (exceedsTokens_eq_none_iff.1 within)⟩,
              fun last => (ends.1 last).elim⟩, stands.options, stands.depth⟩
          · rw [ahead, taking, if_neg ends.1, TokenStream.tokens]
      | some d =>
          refine .inr (.inl ?_)
          obtain ⟨most, text, limit, rfl⟩ := exceedsTokens_eq_some within
          exact ⟨most, token, text, taking s token rest, stands.options ▸ limit, advance_of_excess upcoming within⟩

end Parser

namespace Comparison
open QueryPlanner.Parser

variable {c : Comparison} {E : Expectation} {s : ParserState} {α β : Type} {k : Nat}

theorem Attempt.advance (stands : s.Stands c.limited k) : c.Attempt E s Parser.advance Parser.advance := by
  unfold Attempt
  by_cases last : s.token.kind = .endOfFile
  · rw [advance_at_end stands last]
    have ahead (t : ParserState) : (ended t t.token).ahead = t.ahead := rfl
    refine ⟨⟨⟨⟨stands.ends, stands.last, stands.counted⟩, stands.lasting⟩, stands.options, rfl⟩, rfl, [], (ahead s).symm, ?_⟩
    intro us s₂ some beside
    have token := beside.token_eq some
    have stands₂ := beside.stands
    refine ⟨_, advance_at_end stands₂ (token ▸ last), ?_, beside.source, token, ?_, ?_⟩
    · exact ⟨⟨⟨stands₂.ends, stands₂.last, stands₂.counted⟩, stands₂.lasting⟩, stands₂.options, stands₂.depth⟩
    · exact (ahead s).symm ▸ beside.left
    · exact (ahead s₂).symm ▸ beside.right
  · obtain ⟨fault, s', -, run⟩ | ⟨most, token, text, s', limit, run⟩ | ⟨s', run, stands', source, lastToken, ahead⟩ :=
      advance_takes stands
    · rw [run]
      exact .lexical fault
    · rw [run]
      exact .overrun token text limit
    · rw [run]
      have whole : s.ahead = [s.token] ++ s'.ahead := by
        rw [ahead, ParserState.ahead, if_neg last, List.singleton_append]
      refine ⟨stands.depth ▸ stands', source, [s.token], whole, fun us s₂ some beside => ?_⟩
      have token := beside.token_eq (List.cons_ne_nil _ _)
      have more : s₂.token.kind ≠ .endOfFile := token ▸ last
      have right := beside.right
      rw [ParserState.ahead, if_neg more, token, List.singleton_append] at right
      have right := (List.prefix_cons_inj _).1 right
      have left := beside.left
      rw [whole, List.singleton_append, List.singleton_append] at left
      have left := (List.prefix_cons_inj _).1 left
      obtain ⟨fault, s₂', nothing, -⟩ | ⟨most, token, text, s₂', limit, -⟩ | ⟨s₂', run₂, stands₂, source₂, lastToken₂, ahead₂⟩ :=
        advance_takes beside.stands
      · rw [nothing, List.prefix_nil] at right
        contradiction
      · rw [c.tokens] at limit
        contradiction
      · refine ⟨s₂', run₂, ?_, ?_, ?_, left, ahead₂ ▸ right⟩
        · rwa [stands'.depth.trans stands.depth.symm]
        · rw [source₂, source, beside.source]
        · rw [lastToken₂, lastToken, token]

theorem written_of_consumes {ls : List Lexeme} {ts : List Token} {s' : ParserState} (settled : s.Settled)
    (settled' : s'.Settled) (takes : Consumes ls s s') (ahead : s.ahead = ts ++ s'.ahead) :
    ts.flatMap Token.written = ls := by
  have remaining := takes.remaining
  rw [settled.remaining_eq, settled'.remaining_eq, ahead, List.flatMap_append] at remaining
  exact List.append_cancel_right remaining

section
variable {p q : Parser α} {f g : α → Parser β}

theorem Attempt.andThen {Q : α → List Lexeme → Prop} (stands : s.Stands c.limited k) (first : c.Attempt E s p q)
    (takes : ∀ a s', p s = .ok a s' → ∃ ls, Q a ls ∧ Consumes ls s s')
    (next : ∀ a ls s', Q a ls → Consumes ls s s' → s'.Stands c.limited k → c.Attempt (E.after ls) s' (f a) (g a)) :
    c.Attempt E s (p >>= f) (q >>= g) := by
  refine first.bind fun a s' ts run ahead stands' => ?_
  obtain ⟨ls, holds, taken⟩ := takes a s' run
  rw [written_of_consumes stands.toSettled stands'.toSettled taken ahead]
  exact next a ls s' holds taken (stands.depth ▸ stands')

end

section
variable {f g : Unit → Parser β} {f' g' : Token → Parser β} {f'' g'' : Bool → Parser β}

theorem Attempt.advanceThen (stands : s.Stands c.limited k)
    (next : ∀ s', s'.Stands c.limited k → c.Attempt (E.after s.token.written) s' (f ()) (g ())) :
    c.Attempt E s (Parser.advance >>= f) (Parser.advance >>= g) := by
  refine Attempt.andThen (Q := fun _ ls => ls = s.token.written) stands (Attempt.advance stands)
    (fun _ s' run => ⟨_, rfl, advance_sound stands.toValid run⟩) ?_
  rintro _ _ s' rfl - stands'
  exact next s' stands'

theorem Attempt.current (next : c.Attempt E s (f' s.token) (g' s.token)) :
    c.Attempt E s (currentToken >>= f') (currentToken >>= g') := by
  refine next.congr rfl fun us s₂ some beside => ?_
  rw [currentToken_bind, beside.token_eq some]

theorem Attempt.peekThen (kind : TokenKind) (next : c.Attempt E s (f'' (decide (s.token.kind = kind))) (g'' (decide (s.token.kind = kind)))) :
    c.Attempt E s (peek kind >>= f'') (peek kind >>= g'') := by
  refine next.congr rfl fun us s₂ some beside => ?_
  rw [← beside.token_eq some]
  rfl

theorem Fails.here {q : Parser α} (text : Text) (expected : Option Text) (begins : E.viable [])
    (refuses : ∀ s₂, s₂.token = s.token → ∀ a s₂', q s₂ ≠ .ok a s₂') :
    c.Fails E s q (.grammar s.source s.token text expected) := by
  obtain ⟨rest, ahead⟩ := s.ahead_split
  exact .unexpected text expected ahead begins fun s₂ beside => refuses s₂ (beside.token_eq (by simp))

theorem Attempt.unexpected {q : Parser α} (begins : E.viable [])
    (refuses : ∀ s₂, s₂.token = s.token → ∀ a s₂', q s₂ ≠ .ok a s₂') :
    c.Attempt E s (do throw (← Parser.unexpected)) q :=
  Fails.here _ _ begins refuses

theorem Attempt.unexpectedAt {q : Parser α} (begins : E.viable [])
    (refuses : ∀ s₂, s₂.token = s.token → ∀ a s₂', q s₂ ≠ .ok a s₂') :
    c.Attempt E s (do throw (← Parser.unexpectedAt s.token)) q :=
  Fails.here _ _ begins refuses

theorem Attempt.expectThen (kind : TokenKind) (stands : s.Stands c.limited k) (begins : E.viable [])
    (next : s.token.kind = kind → ∀ s', s'.Stands c.limited k → c.Attempt (E.after s.token.written) s' (f' s.token) (g' s.token)) :
    c.Attempt E s (expectToken kind >>= f') (expectToken kind >>= g') := by
  by_cases found : s.token.kind = kind
  · have run {t : ParserState} (token : t.token = s.token) {h : Token → Parser β} :
        (expectToken kind >>= h) t = (Parser.advance >>= fun _ => h s.token) t := by
      unfold expectToken
      rw [bind_assoc, Run.get_bind, if_pos (token ▸ found), bind_assoc, token]
      rfl
    refine Attempt.congr (run rfl) (fun us s₂ some beside => run (beside.token_eq some)) ?_
    exact Attempt.advanceThen stands (next found)
  · have refuses (t : ParserState) (token : t.token = s.token) (a : β) (t' : ParserState) :
        (expectToken kind >>= g') t ≠ .ok a t' := by
      intro run
      obtain ⟨_, _, run, -⟩ := Run.bind_ok.1 run
      exact found (token ▸ (expectToken_ok.1 run).1)
    have run : expectToken kind s = .error (.grammar s.source s.token
        ("Expected " ++ kind.describe ++ ", found " ++ s.token.describe ++ ".") (some kind.text)) s := by
      unfold expectToken
      rw [Run.get_bind, if_neg found]
      rfl
    unfold Attempt
    rw [Run.bind_of_error run]
    exact Fails.here _ _ begins refuses

theorem Attempt.optionalThen (kind : TokenKind) (stands : s.Stands c.limited k)
    (taken : s.token.kind = kind → ∀ s', s'.Stands c.limited k → c.Attempt (E.after s.token.written) s' (f'' true) (g'' true))
    (skipped : s.token.kind ≠ kind → c.Attempt E s (f'' false) (g'' false)) :
    c.Attempt E s (optionalToken kind >>= f'') (optionalToken kind >>= g'') := by
  by_cases found : s.token.kind = kind
  · refine Attempt.congr (optionalToken_found found)
      (fun us s₂ some beside => optionalToken_found (beside.token_eq some ▸ found)) ?_
    exact Attempt.advanceThen stands (taken found)
  · refine Attempt.congr (optionalToken_missing found)
      (fun us s₂ some beside => optionalToken_missing (beside.token_eq some ▸ found)) ?_
    exact skipped found

theorem Attempt.keywordThen (text : Text) (stands : s.Stands c.limited k) (begins : E.viable [])
    (next : isKeyword s.token text = true → ∀ s', s'.Stands c.limited k → c.Attempt (E.behind [word text]) s' (f ()) (g ())) :
    c.Attempt E s (expectKeyword text >>= f) (expectKeyword text >>= g) := by
  by_cases found : isKeyword s.token text = true
  · have run {t : ParserState} (token : t.token = s.token) {h : Unit → Parser β} :
        (expectKeyword text >>= h) t = (Parser.advance >>= h) t := by
      unfold expectKeyword
      rw [bind_assoc, Run.get_bind, if_pos (token ▸ found)]
    refine Attempt.congr (run rfl) (fun us s₂ some beside => run (beside.token_eq some)) ?_
    refine Attempt.advanceThen stands fun s' stands' => ?_
    rw [written_of_keyword found, Expectation.after_eq_behind (.word text)]
    exact next found s' stands'
  · have refuses (t : ParserState) (token : t.token = s.token) (a : β) (t' : ParserState) :
        (expectKeyword text >>= g) t ≠ .ok a t' := by
      intro run
      obtain ⟨_, _, run, -⟩ := Run.bind_ok.1 run
      exact found (token ▸ (expectKeyword_ok.1 run).1)
    have run : expectKeyword text s = .error (.grammar s.source s.token
        ("Expected \"" ++ text ++ "\", found " ++ s.token.describe ++ ".") (some text)) s := by
      unfold expectKeyword
      rw [Run.get_bind, if_neg found]
      rfl
    unfold Attempt
    rw [Run.bind_of_error run]
    exact Fails.here _ _ begins refuses

theorem Attempt.optionalKeywordThen (text : Text) (stands : s.Stands c.limited k)
    (taken : ∀ s', s'.Stands c.limited k → c.Attempt (E.behind [word text]) s' (f'' true) (g'' true))
    (skipped : isKeyword s.token text = false → c.Attempt E s (f'' false) (g'' false)) :
    c.Attempt E s (optionalKeyword text >>= f'') (optionalKeyword text >>= g'') := by
  cases found : isKeyword s.token text with
  | true =>
      have run {t : ParserState} (token : t.token = s.token) {h : Bool → Parser β} :
          (optionalKeyword text >>= h) t = (Parser.advance >>= fun _ => h true) t := by
        unfold optionalKeyword
        rw [bind_assoc, Run.get_bind, if_pos (token ▸ found), bind_assoc]
        rfl
      refine Attempt.congr (run rfl) (fun us s₂ some beside => run (beside.token_eq some)) ?_
      refine Attempt.advanceThen stands fun s' stands' => ?_
      rw [written_of_keyword found, Expectation.after_eq_behind (.word text)]
      exact taken s' stands'
  | false =>
      have run {t : ParserState} (token : t.token = s.token) {h : Bool → Parser β} :
          (optionalKeyword text >>= h) t = h false t := by
        unfold optionalKeyword
        rw [bind_assoc, Run.get_bind, if_neg (by simp [token, found])]
        rfl
      exact Attempt.congr (run rfl) (fun us s₂ some beside => run (beside.token_eq some)) (skipped found)

theorem Attempt.locatedThen {f g : Option Location → Parser β} (stands : s.Stands c.limited k) (start : Token)
    (next : ∀ loc, c.Attempt E s (f loc) (g loc)) : c.Attempt E s (locationFrom start >>= f) (locationFrom start >>= g) := by
  refine (next (Parser.located s start)).congr ?_ fun us s₂ some beside => ?_
  · exact Run.bind_of_ok (locationFrom_ok.2 ⟨rfl, rfl⟩)
  · refine Run.bind_of_ok (locationFrom_ok.2 ⟨?_, rfl⟩)
    rw [Parser.located, Parser.located, beside.stands.options, stands.options, c.locations, beside.source, beside.lastToken]

theorem Attempt.located (stands : s.Stands c.limited k) (start : Token) (make : Option Location → α) :
    c.Attempt E s (do return make (← locationFrom start)) (do return make (← locationFrom start)) :=
  .locatedThen stands start fun loc => .pure stands (make loc)

end

end Comparison

end QueryPlanner
