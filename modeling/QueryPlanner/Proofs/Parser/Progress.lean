import QueryPlanner.Proofs.Parser.AttemptLists
import QueryPlanner.Proofs.Token.Lookahead

/-!
# Progress along the tokens

A parser stands at a place among the tokens of its source. Only `advance` moves it, by one place; a call is in vain at
the end of the file and in front of a fault. Productions call it at other places only, so that no call of a production
that returns is in vain, and at most one of a production that fails.
-/

namespace QueryPlanner

/-! ## The number of tokens -/

theorem TokenStream.scan_length_le (fuel : Nat) (text : Text) (c : Cursor) :
    (scan fuel text c).tokens.length ≤ text.length + 1 := by
  induction fuel generalizing text c with
  | zero => exact Nat.le_add_left 1 _
  | succ fuel ih =>
      cases next : Scan.next text c with
      | error fault =>
          rw [scan, next]
          exact Nat.zero_le _
      | ok step =>
          by_cases last : step.token.kind = .endOfFile
          · rw [scan_endOfFile next last]
            exact Nat.le_add_left 1 _
          have shorter := Scan.next_shorter next last
          have rest := ih step.rest step.cursor
          by_cases comment : step.token.kind = .comment
          · rw [scan_comment next comment]
            omega
          · rw [scan_token next last comment, tokens, List.length_cons]
            omega

theorem Source.readable_length_le (source : Source) : source.readable.length ≤ source.body.length + 1 :=
  TokenStream.scan_length_le _ _ _

/-! ## Places -/

namespace ParserState

/--
Stands at a place among the tokens of a source, the start of the file being at the place 0. The tokens up to there are
counted, and at most `vain` calls of `advance` did not lead to a further place.
-/
structure StandsAt (body : Source) (place vain : Nat) (s : ParserState) : Prop where
  source : s.source = body
  token : (Token.startOfFile :: body.readable)[place]? = some s.token
  upcoming : s.upcoming = (TokenStream.ofText body.body).drop place
  count : s.tokenCount = (body.readable.take place).countP (·.kind ≠ .endOfFile)
  calls : s.advances ≤ place + vain

namespace StandsAt

variable {source : Source} {place vain vain' : Nat} {s : ParserState} {t : Token} {rest : TokenStream}

theorem start (source : Source) (options : ParseOptions) : StandsAt source 0 0 { source, options } :=
  ⟨rfl, rfl, rfl, rfl, Nat.le_refl 0⟩

theorem le (stands : s.StandsAt source place vain) : place ≤ source.readable.length :=
  Nat.le_of_lt_succ (List.getElem?_eq_some_iff.1 stands.token).1

theorem mono (stands : s.StandsAt source place vain) (fewer : vain ≤ vain') : s.StandsAt source place vain' where
  __ := stands
  calls := Nat.le_trans stands.calls (Nat.add_le_add_left fewer place)

theorem leveled (stands : s.StandsAt source place vain) (depth : Nat) :
    StandsAt source place vain { s with depth } :=
  ⟨stands.source, stands.token, stands.upcoming, stands.count, stands.calls⟩

theorem last (stands : s.StandsAt source place vain) (past : source.readable.length ≤ place) :
    s.upcoming = .endOfFile s.token ∨ ∃ fault, s.upcoming = .fault fault := by
  rw [stands.upcoming]
  exact (source.drop_of_last stands.token past).imp_right fun ⟨fault, behind, _⟩ => ⟨fault, behind⟩

theorem next (stands : s.StandsAt source place vain) (front : s.upcoming.front = .ok t)
    (more : place < source.readable.length) : source.readable[place]? = some t := by
  have found := List.getElem?_eq_getElem more
  rw [stands.upcoming, TokenStream.front_drop found] at front
  rw [found, Except.ok.inj front]

theorem count_next (stands : s.StandsAt source place vain) (next : source.readable[place]? = some t) :
    (source.readable.take (place + 1)).countP (·.kind ≠ .endOfFile) =
      s.tokenCount + if t.kind ≠ .endOfFile then 1 else 0 := by
  rw [List.take_add_one, next, List.countP_append, ← stands.count]
  simp [List.countP_singleton]

theorem ended (stands : s.StandsAt source place vain) (upcoming : s.upcoming = .endOfFile t) :
    (s.token = t ∧ (Parser.ended s t).StandsAt source place (vain + 1)) ∨
      (Parser.ended s t).StandsAt source (place + 1) vain := by
  have calls := stands.calls
  by_cases more : place < source.readable.length
  · have next := stands.next (t := t) (by rw [upcoming]; rfl) more
    have ends := (TokenStream.ofText_ends source.body).drop place
    rw [← stands.upcoming, upcoming] at ends
    refine .inr ⟨stands.source, next, ?_, ?_, ?_⟩
    · change s.upcoming = (TokenStream.ofText source.body).tail.drop place
      rw [TokenStream.drop_tail, ← stands.upcoming, upcoming]
      rfl
    · rw [stands.count_next next, if_neg (not_not_intro (show t.kind = .endOfFile from ends))]
      rfl
    · change s.advances + 1 ≤ place + 1 + vain
      omega
  · obtain same | ⟨fault, same⟩ := stands.last (Nat.le_of_not_lt more)
    · obtain rfl : t = s.token := by rw [upcoming] at same; exact TokenStream.endOfFile.inj same
      refine .inl ⟨rfl, stands.source, stands.token, stands.upcoming, stands.count, ?_⟩
      change s.advances + 1 ≤ place + (vain + 1)
      omega
    · rw [upcoming] at same
      contradiction

theorem missed (stands : s.StandsAt source place vain) : (Parser.missed s).StandsAt source place (vain + 1) where
  source := stands.source
  token := stands.token
  upcoming := stands.upcoming
  count := stands.count
  calls := by
    have calls := stands.calls
    change s.advances + 1 ≤ place + (vain + 1)
    omega

theorem taking (stands : s.StandsAt source place vain) (upcoming : s.upcoming = .cons t rest) :
    (Parser.taking s t rest).StandsAt source (place + 1) vain := by
  have calls := stands.calls
  have more : place < source.readable.length := by
    by_contra past
    obtain same | ⟨fault, same⟩ := stands.last (Nat.le_of_not_lt past) <;> rw [upcoming] at same <;> contradiction
  have next := stands.next (t := t) (by rw [upcoming]; rfl) more
  have ends := (TokenStream.ofText_ends source.body).drop place
  rw [← stands.upcoming, upcoming] at ends
  refine ⟨stands.source, next, ?_, ?_, ?_⟩
  · change rest = (TokenStream.ofText source.body).tail.drop place
    rw [TokenStream.drop_tail, ← stands.upcoming, upcoming]
    rfl
  · rw [stands.count_next next, if_pos ends.1]
    rfl
  · change s.advances + 1 ≤ place + 1 + vain
    omega

end StandsAt

end ParserState

namespace Parser
open Run ParserState

variable {α β : Type} {source : Source} {place vain least extra : Nat} {s : ParserState} {p q : Parser α}
  {f : α → Parser β} {kind opening close : TokenKind}

/-! ## Moves -/

/--
A run from a place ends at that place or behind it, and if it returns at least `least` places behind it. No more than
`extra` calls are in vain then, and no more than one if it fails.
-/
def Moves (least extra : Nat) (p : Parser α) (s : ParserState) : Prop :=
  ∀ ⦃source place vain⦄, s.StandsAt source place vain → match p s with
    | .ok _ s' => ∃ place', place + least ≤ place' ∧ s'.StandsAt source place' (vain + extra)
    | .error _ s' => ∃ place', place ≤ place' ∧ s'.StandsAt source place' (vain + 1)

theorem advance_leads (stands : s.StandsAt source place vain) :
    (∃ s', advance s = .ok () s' ∧ s'.StandsAt source (place + 1) vain) ∨
    (s.token.kind = .endOfFile ∧ ∃ s', advance s = .ok () s' ∧ s'.StandsAt source place (vain + 1)) ∨
    ∃ d s' place', advance s = .error d s' ∧ place ≤ place' ∧ s'.StandsAt source place' (vain + 1) := by
  cases upcoming : s.upcoming with
  | endOfFile token =>
      have run : advance s = .ok () (ended s token) := advance_ok.2 (.inl ⟨token, upcoming, rfl⟩)
      have ends := (TokenStream.ofText_ends source.body).drop place
      rw [← stands.upcoming, upcoming] at ends
      obtain ⟨same, stands'⟩ | stands' := stands.ended upcoming
      · exact .inr (.inl ⟨same ▸ ends, _, run, stands'⟩)
      · exact .inl ⟨_, run, stands'⟩
  | fault fault => exact .inr (.inr ⟨_, _, place, advance_of_fault upcoming, Nat.le_refl _, stands.missed⟩)
  | cons token rest =>
      have stands' := stands.taking upcoming
      cases within : exceedsTokens (taking s token rest) with
      | none =>
          exact .inl ⟨_, advance_ok.2 (.inr ⟨token, rest, upcoming, rfl, exceedsTokens_eq_none_iff.1 within⟩), stands'⟩
      | some d =>
          exact .inr (.inr ⟨d, _, _, advance_of_excess upcoming within, Nat.le_succ _, stands'.mono (Nat.le_succ _)⟩)

theorem advance_moves (more : s.token.kind ≠ .endOfFile) : Moves 1 0 advance s := by
  intro source place vain stands
  obtain ⟨s', run, stands'⟩ | ⟨last, -⟩ | ⟨d, s', place', run, farther, stands'⟩ := advance_leads stands
  · rw [run]
    exact ⟨_, Nat.le_refl _, stands'⟩
  · contradiction
  · rw [run]
    exact ⟨place', farther, stands'⟩

theorem advance_moves_anywhere : Moves 0 1 advance s := by
  intro source place vain stands
  obtain ⟨s', run, stands'⟩ | ⟨-, s', run, stands'⟩ | ⟨d, s', place', run, farther, stands'⟩ := advance_leads stands
  · rw [run]
    exact ⟨_, Nat.le_succ _, stands'.mono (Nat.le_succ _)⟩
  · rw [run]
    exact ⟨_, Nat.le_refl _, stands'⟩
  · rw [run]
    exact ⟨place', farther, stands'⟩

namespace Moves

variable {least' : Nat}

theorem of_ok {a : α} {s' : ParserState} (moves : Moves least extra p s) (stands : s.StandsAt source place vain)
    (run : p s = .ok a s') : ∃ place', place + least ≤ place' ∧ s'.StandsAt source place' (vain + extra) := by
  have here := moves stands
  rwa [run] at here

theorem of_error {d : Diagnostic} {s' : ParserState} (moves : Moves least extra p s)
    (stands : s.StandsAt source place vain) (run : p s = .error d s') :
    ∃ place', place ≤ place' ∧ s'.StandsAt source place' (vain + 1) := by
  have here := moves stands
  rwa [run] at here

theorem mono {extra' : Nat} (moves : Moves least extra p s) (less : least' ≤ least) (more : extra ≤ extra') :
    Moves least' extra' p s := by
  intro source place vain stands
  cases run : p s with
  | ok _ s' =>
      obtain ⟨place', farther, stands'⟩ := moves.of_ok stands run
      exact ⟨place', by omega, stands'.mono (Nat.add_le_add_left more vain)⟩
  | error _ s' => exact moves.of_error stands run

theorem still {a : α} (run : p s = .ok a s) : Moves 0 extra p s := by
  intro source place vain stands
  rw [run]
  exact ⟨place, Nat.le_refl _, stands.mono (Nat.le_add_right vain extra)⟩

theorem refuses {d : Diagnostic} (run : p s = .error d s) : Moves least extra p s := by
  intro source place vain stands
  rw [run]
  exact ⟨place, Nat.le_refl _, stands.mono (Nat.le_succ vain)⟩

theorem bind (first : Moves least 0 p s) (next : ∀ a s', p s = .ok a s' → Moves least' extra (f a) s') :
    Moves (least + least') extra (p >>= f) s := by
  intro source place vain stands
  cases run : p s with
  | error d s' =>
      rw [bind_of_error run]
      exact first.of_error stands run
  | ok a s' =>
      obtain ⟨place', farther, stands'⟩ := first.of_ok stands run
      have second := next a s' run
      rw [bind_of_ok run]
      cases run' : f a s' with
      | error d s'' =>
          obtain ⟨place'', farther', stands''⟩ := second.of_error stands' run'
          exact ⟨place'', by omega, stands''⟩
      | ok b s'' =>
          obtain ⟨place'', farther', stands''⟩ := second.of_ok stands' run'
          exact ⟨place'', by omega, stands''⟩

theorem congr (same : p s = q s) (moves : Moves least extra q s) : Moves least extra p s := by
  intro source place vain stands
  rw [same]
  exact moves stands

theorem get {h : ParserState → Parser α} (moves : Moves least extra (h s) s) :
    Moves least extra (MonadState.get >>= h) s := moves

theorem finish (moves : Moves least extra p s) (still : ∀ a s', ∃ b, f a s' = .ok b s') :
    Moves least extra (p >>= f) s := by
  intro source place vain stands
  cases run : p s with
  | ok a s' =>
      obtain ⟨b, looked⟩ := still a s'
      rw [bind_of_ok run, looked]
      exact moves.of_ok stands run
  | error d s' =>
      rw [bind_of_error run]
      exact moves.of_error stands run

theorem map {F : α → β} (moves : Moves least extra p s) : Moves least extra (p >>= fun a => pure (F a)) s :=
  moves.finish fun a _ => ⟨F a, rfl⟩

end Moves

/-! ## Productions -/

def Proceeds (least : Nat) (p : Parser α) : Prop := ∀ s, Moves least 0 p s

namespace Proceeds

variable {n : Nat} {F : α → β} {read : ParserState → Parser α}

theorem mono (proceeds : Proceeds least p) (less : n ≤ least) : Proceeds n p :=
  fun s => (proceeds s).mono less (Nat.le_refl 0)

theorem weaken (proceeds : Proceeds least p) : Proceeds 0 p := proceeds.mono (Nat.zero_le least)

theorem pure (a : α) : Proceeds 0 (Pure.pure a : Parser α) := fun _ => .still rfl

theorem throw (d : Diagnostic) : Proceeds least (MonadExcept.throw d : Parser α) := fun _ => .refuses rfl

theorem get (next : ∀ s, Moves least 0 (read s) s) : Proceeds least (MonadState.get >>= read) := next

theorem bind (first : Proceeds least p) (next : ∀ a, Proceeds n (f a)) : Proceeds least (p >>= f) :=
  fun s => ((first s).bind fun a s' _ => next a s').mono (Nat.le_add_right _ _) (Nat.le_refl 0)

theorem andThen (first : Proceeds n p) (next : ∀ a, Proceeds least (f a)) : Proceeds least (p >>= f) :=
  fun s => ((first s).bind fun a s' _ => next a s').mono (Nat.le_add_left _ _) (Nat.le_refl 0)

theorem map (proceeds : Proceeds least p) : Proceeds least (F <$> p) := by
  rw [map_eq_pure_bind]
  exact proceeds.bind fun a => .pure (F a)

theorem ite {c : Prop} [Decidable c] (yes : Proceeds least p) (no : Proceeds least q) :
    Proceeds least (if c then p else q) := by
  split_ifs
  · exact yes
  · exact no

end Proceeds

theorem currentToken_proceeds : Proceeds 0 currentToken := fun _ => .still rfl

theorem peek_proceeds (kind : TokenKind) : Proceeds 0 (peek kind) := fun _ => .still rfl

theorem unexpectedAt_proceeds (token : Token) : Proceeds 0 (unexpectedAt token) := fun _ => .still rfl

theorem unexpected_proceeds : Proceeds 0 unexpected := fun _ => .still rfl

theorem locationFrom_proceeds (start : Token) : Proceeds 0 (locationFrom start) :=
  fun _ => .still (locationFrom_ok.2 ⟨rfl, rfl⟩)

theorem tooDeep_proceeds : Proceeds least (tooDeep : Parser α) := fun _ => .refuses rfl

theorem expectToken_proceeds (more : kind ≠ .endOfFile) : Proceeds 1 (expectToken kind) := by
  refine .get fun s => ?_
  split_ifs with found
  · exact (advance_moves (found ▸ more)).bind fun _ s' _ => .still rfl
  · exact .refuses rfl

theorem expectToken_moves (kind : TokenKind) : Moves 0 1 (expectToken kind) s := by
  refine .get ?_
  split_ifs with found
  · exact advance_moves_anywhere.map
  · exact .refuses rfl

theorem optionalToken_proceeds (more : kind ≠ .endOfFile) : Proceeds 0 (optionalToken kind) := by
  refine .get fun s => ?_
  split_ifs with found
  · exact ((advance_moves (found ▸ more)).bind fun _ s' _ => .still rfl).mono (Nat.zero_le _) (Nat.le_refl 0)
  · exact .still rfl

theorem optionalToken_moves (kind : TokenKind) : Moves 0 1 (optionalToken kind) s := by
  refine .get ?_
  split_ifs with found
  · exact advance_moves_anywhere.map
  · exact .still rfl

theorem isKeyword_more {t : Token} {word : Text} (keyword : isKeyword t word = true) : t.kind ≠ .endOfFile := by
  rw [isKeyword, Bool.and_eq_true, beq_iff_eq] at keyword
  rw [keyword.1]
  decide

theorem expectKeyword_proceeds (word : Text) : Proceeds 1 (expectKeyword word) := by
  refine .get fun s => ?_
  split_ifs with found
  · exact advance_moves (isKeyword_more found)
  · exact .refuses rfl

theorem optionalKeyword_proceeds (word : Text) : Proceeds 0 (optionalKeyword word) := by
  refine .get fun s => ?_
  split_ifs with found
  · exact ((advance_moves (isKeyword_more found)).bind fun _ s' _ => .still rfl).mono (Nat.zero_le _) (Nat.le_refl 0)
  · exact .still rfl

theorem nested_proceeds (proceeds : Proceeds least p) : Proceeds least (nested p) := by
  intro s
  by_cases full : s.options.depthLimit ≤ s.depth
  · exact .refuses (nested_of_full full)
  · intro source place vain stands
    rw [nested_of_room full]
    refine ((proceeds s.deeper).bind fun a s' _ => ?_ : Moves (least + 0) 0 _ _) (stands.leveled _)
    intro source place vain stands
    exact ⟨place, Nat.le_refl _, stands.leveled _⟩

/-! ## Lists -/

theorem itemsUntil_moves (item : Proceeds least q) (enough : close = .endOfFile → 1 ≤ extra) (fuel : Nat) :
    Moves 0 extra (itemsUntil close q fuel) s := by
  induction fuel generalizing s with
  | zero => exact .still rfl
  | succ fuel ih =>
      by_cases found : s.token.kind = close
      · refine .congr (optionalToken_found found) (Moves.map ?_)
        by_cases last : close = .endOfFile
        · exact advance_moves_anywhere.mono (Nat.le_refl 0) (enough last)
        · exact (advance_moves (found ▸ last)).mono (Nat.zero_le 1) (Nat.zero_le extra)
      · refine .congr (optionalToken_missing found) ?_
        exact ((item s).bind fun first s₁ _ => Moves.map ih).mono (Nat.zero_le _) (Nat.le_refl extra)

theorem itemsUntil_proceeds (item : Proceeds least q) (more : close ≠ .endOfFile) (fuel : Nat) :
    Proceeds 0 (itemsUntil close q fuel) :=
  fun _ => itemsUntil_moves item (fun last => absurd last more) fuel

theorem oneOrMore_moves (item : Proceeds least q) (enough : close = .endOfFile → 1 ≤ extra) :
    Moves least extra (oneOrMore q close) s :=
  (item s).bind fun _ _ _ => .get (.map (itemsUntil_moves item enough _))

theorem any_proceeds (item : Proceeds least q) (opens : opening ≠ .endOfFile) (closes : close ≠ .endOfFile) :
    Proceeds 1 (any opening q close) :=
  (expectToken_proceeds opens).bind fun _ => .get fun s => itemsUntil_proceeds item closes _ s

theorem many_moves (item : Proceeds least q) (opens : opening ≠ .endOfFile) (enough : close = .endOfFile → 1 ≤ extra) :
    Moves 1 extra (many opening q close) s :=
  ((expectToken_proceeds opens s).bind fun _ _ _ => oneOrMore_moves item enough).mono (Nat.le_add_right 1 least)
    (Nat.le_refl extra)

theorem many_proceeds (item : Proceeds least q) (opens : opening ≠ .endOfFile) (closes : close ≠ .endOfFile) :
    Proceeds 1 (many opening q close) :=
  fun _ => many_moves item opens fun last => absurd last closes

theorem optionalMany_proceeds (item : Proceeds least q) (opens : opening ≠ .endOfFile) (closes : close ≠ .endOfFile) :
    Proceeds 0 (optionalMany opening q close) :=
  have some : Proceeds least (oneOrMore q close) := fun _ => oneOrMore_moves item fun last => absurd last closes
  (optionalToken_proceeds opens).bind fun _ => .ite some.weaken (.pure [])

theorem itemsWhile_proceeds (item : Proceeds least q) (kind : TokenKind) (fuel : Nat) : Proceeds 0 (itemsWhile kind q fuel) := by
  induction fuel with
  | zero => exact .pure []
  | succ fuel ih =>
      refine (peek_proceeds kind).bind fun more => .ite ?_ (.pure [])
      exact (item.bind fun first => ih.bind fun rest => .pure _).weaken

end Parser

end QueryPlanner
