import QueryPlanner.Proofs.Parser.AttemptSteps
import QueryPlanner.Proofs.Parser.Values

namespace QueryPlanner
open Grammar ParserState
open Lexeme (mark word)

namespace Run

theorem bind_congr_left {ε σ α β : Type} {p q : EStateM ε σ α} {f : α → EStateM ε σ β} {s : σ} (same : p s = q s) :
    (p >>= f) s = (q >>= f) s := by
  change EStateM.bind p f s = EStateM.bind q f s
  rw [EStateM.bind, EStateM.bind, same]

theorem bind_congr_ok {ε σ α β : Type} {p : EStateM ε σ α} {f g : α → EStateM ε σ β} {s : σ}
    (same : ∀ a s', p s = .ok a s' → f a s' = g a s') : (p >>= f) s = (p >>= g) s := by
  cases run : p s with
  | ok a s' => rw [bind_of_ok run, bind_of_ok run, same a s' run]
  | error e s' => rw [bind_of_error run, bind_of_error run]

end Run

namespace Parser
open Run

variable {α β : Type} {o : ParseOptions} {n : Nat} {item : Parser α} {bare : α → β} {G : List Lexeme → β → Prop}
  {kinds : List TokenKind} {s : ParserState}

section
variable (begins : BeginsWith G kinds) (sound : SoundAt o n item bare G)
include begins sound

theorem itemsUntil_fuel (close : TokenKind) {fuel fuel' : Nat} (valid : s.Valid) (here : s.At o n) (enough : s.stock ≤ fuel)
    (enough' : s.stock ≤ fuel') : itemsUntil close item fuel s = itemsUntil close item fuel' s := by
  have positive := valid.stock_pos
  induction fuel generalizing s fuel' with
  | zero => omega
  | succ fuel ih =>
      obtain ⟨fuel', rfl⟩ := Nat.exists_eq_succ_of_ne_zero (n := fuel') (by omega)
      refine bind_congr_ok fun closed s₁ looked => ?_
      obtain ⟨-, rfl, -⟩ | ⟨-, rfl, rfl⟩ := optionalToken_ok.1 looked
      · rfl
      · refine bind_congr_ok fun first s₁ read => ?_
        obtain ⟨ls, derives, taken⟩ := sound valid here read
        have shorter := taken.stock
        have := begins.length_pos derives
        exact bind_congr_left (ih taken.valid (taken.at_iff.2 here) (by omega) (by omega) taken.valid.stock_pos)

theorem itemsWhile_fuel (kind : TokenKind) {fuel fuel' : Nat} (valid : s.Valid) (here : s.At o n) (enough : s.stock ≤ fuel)
    (enough' : s.stock ≤ fuel') : itemsWhile kind item fuel s = itemsWhile kind item fuel' s := by
  have positive := valid.stock_pos
  induction fuel generalizing s fuel' with
  | zero => omega
  | succ fuel ih =>
      obtain ⟨fuel', rfl⟩ := Nat.exists_eq_succ_of_ne_zero (n := fuel') (by omega)
      refine bind_congr_ok fun more s₁ looked => ?_
      obtain ⟨-, rfl⟩ := peek_ok.1 looked
      cases more with
      | false => rfl
      | true =>
          refine bind_congr_ok fun first s₁ read => ?_
          obtain ⟨ls, derives, taken⟩ := sound valid here read
          have shorter := taken.stock
          have := begins.length_pos derives
          exact bind_congr_left (ih taken.valid (taken.at_iff.2 here) (by omega) (by omega) taken.valid.stock_pos)

def upTo (close : TokenKind) (item : Parser α) : Parser (List α) := do
  itemsUntil close item ((← get).tokensLeft + 1)

theorem upTo_run (close : TokenKind) (valid : s.Valid) (here : s.At o n) : upTo close item s = (do
    if ← optionalToken close then return []
    let first ← item
    return first :: (← upTo close item) : Parser (List α)) s := by
  unfold upTo
  rw [get_bind]
  refine bind_congr_ok fun closed s₁ looked => ?_
  obtain ⟨-, rfl, -⟩ | ⟨-, rfl, rfl⟩ := optionalToken_ok.1 looked
  · rfl
  · refine bind_congr_ok fun first s₁ read => ?_
    obtain ⟨ls, derives, taken⟩ := sound valid here read
    have stock := s.stock_le
    have shorter := taken.stock
    have := begins.length_pos derives
    exact bind_congr_left (itemsUntil_fuel begins sound close taken.valid (taken.at_iff.2 here) (by omega) s₁.stock_le)

def asLong (kind : TokenKind) (item : Parser α) : Parser (List α) := do
  itemsWhile kind item ((← get).tokensLeft + 1)

theorem asLong_run (kind : TokenKind) (valid : s.Valid) (here : s.At o n) : asLong kind item s = (do
    if ← peek kind then
      let first ← item
      return first :: (← asLong kind item)
    return [] : Parser (List α)) s := by
  unfold asLong
  rw [get_bind]
  refine bind_congr_ok fun more s₁ looked => ?_
  obtain ⟨-, rfl⟩ := peek_ok.1 looked
  cases more with
  | false => rfl
  | true =>
      refine bind_congr_ok fun first s₁ read => ?_
      obtain ⟨ls, derives, taken⟩ := sound valid here read
      have stock := s.stock_le
      have shorter := taken.stock
      have := begins.length_pos derives
      exact bind_congr_left (itemsWhile_fuel begins sound kind taken.valid (taken.at_iff.2 here) (by omega) s₁.stock_le)

end

theorem nested_of_full {p : Parser α} (full : s.options.depthLimit ≤ s.depth) :
    nested p s = .error ⟨.depthLimit s.options.depthLimit, .position s.source s.token.start⟩ s := by
  unfold nested
  rw [get_bind, if_pos full]
  rfl

theorem nested_of_room {p : Parser α} (room : ¬ s.options.depthLimit ≤ s.depth) :
    nested p s = (do
      let result ← p
      modify fun s => { s with depth := s.depth - 1 }
      return result : Parser α) s.deeper := by
  unfold nested
  rw [get_bind, if_neg room]
  rfl

end Parser

namespace Comparison
open QueryPlanner.Parser

variable {c : Comparison} {E : Expectation} {s : ParserState} {α β γ : Type} {k : Nat} {p q : Parser α}
  {bare : α → β} {H : Nat → List Lexeme → β → Prop} {G : List Lexeme → β → Prop} {f g : α → Parser γ}

structure Reads (c : Comparison) (k : Nat) (p q : Parser α) (bare : α → β) (H : Nat → List Lexeme → β → Prop)
    (G : List Lexeme → β → Prop) : Prop where
  sound : SoundAt c.limited (c.room k) p bare (H (c.room k))
  sound' : SoundAt c.free (c.room' k) q bare (H (c.room' k))
  derives : ∀ ⦃n ls part⦄, H n ls part → G ls part
  matched : ∀ ⦃ls part⦄, G ls part → Bracketed ls
  attempt : ∀ ⦃s⦄, s.Stands c.limited k → c.Attempt { viable := Viable G } s p q

theorem at_room {o : ParseOptions} (stands : s.Stands o k) : s.At o (o.depthLimit - k).toNat :=
  ⟨stands.options, by rw [levelsLeft, stands.options, stands.depth]⟩

theorem Reads.andThenTaking (reads : c.Reads k p q bare H G) (stands : s.Stands c.limited k) (offset : E.offset = 0)
    (viable : ∀ ls, Viable G ls → E.viable ls)
    (next : ∀ a ls s', G ls (bare a) → Consumes ls s s' → s'.Stands c.limited k → c.Attempt (E.behind ls) s' (f a) (g a)) :
    c.Attempt E s (p >>= f) (q >>= g) := by
  refine Attempt.andThen (Q := fun a ls => G ls (bare a)) stands
    ((reads.attempt stands).weaken viable offset.symm) (fun a s' run => ?_) fun a ls s' derives taken stands' => ?_
  · obtain ⟨ls, derives, taken⟩ := reads.sound stands.toValid (at_room stands) run
    exact ⟨ls, reads.derives derives, taken⟩
  · rw [Expectation.after_eq_behind (reads.matched derives)]
    exact next a ls s' derives taken stands'

theorem Reads.andThen (reads : c.Reads k p q bare H G) (stands : s.Stands c.limited k) (offset : E.offset = 0)
    (viable : ∀ ls, Viable G ls → E.viable ls)
    (next : ∀ a ls s', G ls (bare a) → s'.Stands c.limited k → c.Attempt (E.behind ls) s' (f a) (g a)) :
    c.Attempt E s (p >>= f) (q >>= g) :=
  reads.andThenTaking stands offset viable fun a ls s' derives _ => next a ls s' derives

theorem Reads.map (reads : c.Reads k p q bare H G) (stands : s.Stands c.limited k) (offset : E.offset = 0)
    (viable : ∀ ls, Viable G ls → E.viable ls) (F : α → γ) : c.Attempt E s (F <$> p) (F <$> q) := by
  rw [map_eq_pure_bind, map_eq_pure_bind]
  exact reads.andThen stands offset viable fun a _ _ _ stands' => .pure stands' (F a)

theorem Beside.deeper {us : List Token} {t : ParserState} (beside : c.Beside us s t) : c.Beside us s.deeper t.deeper where
  stands := ⟨⟨beside.stands.toValid.deeper, beside.stands.lasting⟩, beside.stands.options, by
    simp [ParserState.deeper, beside.stands.depth]⟩
  source := beside.source
  lastToken := beside.lastToken
  left := beside.left
  right := beside.right

theorem stands_deeper {o : ParseOptions} (stands : s.Stands o k) : s.deeper.Stands o (k + 1) :=
  ⟨⟨stands.toValid.deeper, stands.lasting⟩, stands.options, by simp [ParserState.deeper, stands.depth]⟩

def shallower (s : ParserState) : ParserState := { s with depth := s.depth - 1 }

theorem stands_shallower {o : ParseOptions} (stands : s.Stands o (k + 1)) : (shallower s).Stands o k :=
  ⟨⟨⟨stands.ends, stands.last, stands.counted⟩, stands.lasting⟩, stands.options, by simp [shallower, stands.depth]⟩

theorem Beside.shallower {us : List Token} {t : ParserState} (stands : s.Stands c.limited (k + 1))
    (beside : c.Beside us s t) : c.Beside us (Comparison.shallower s) (Comparison.shallower t) where
  stands := by
    have stands₂ := beside.stands
    rw [stands.depth] at stands₂
    simpa [Comparison.shallower, stands.depth] using stands_shallower stands₂
  source := beside.source
  lastToken := beside.lastToken
  left := beside.left
  right := beside.right

theorem Attempt.nested (stands : s.Stands c.limited k)
    (full : c.limited.depthLimit ≤ k →
      c.Fails E s (nested q) ⟨.depthLimit c.limited.depthLimit, .position s.source s.token.start⟩)
    (inner : c.Attempt { E with offset := E.offset - 1 } s.deeper p q) : c.Attempt E s (nested p) (nested q) := by
  by_cases limit : c.limited.depthLimit ≤ k
  · unfold Attempt
    rw [nested_of_full (by rwa [stands.options, stands.depth]), stands.options]
    exact full limit
  · have room : ¬ s.options.depthLimit ≤ s.depth := by rwa [stands.options, stands.depth]
    -- The parser beside allows more levels, so it has one left wherever this one has.
    have room₂ {us : List Token} {t : ParserState} (beside : c.Beside us s t) : ¬ t.options.depthLimit ≤ t.depth := by
      have levels := c.levels
      rw [beside.stands.options, beside.stands.depth, stands.depth]
      omega
    unfold Attempt at inner ⊢
    rw [nested_of_room room]
    have depth : (s.deeper.depth : Int) = s.depth + 1 := by simp [ParserState.deeper]
    have balance (x : Int) : (s.deeper.depth : Int) + (E.offset - 1) + x = s.depth + E.offset + x := by omega
    cases run : p s.deeper with
    | ok a s' =>
        rw [run] at inner
        obtain ⟨stands', source, ts, ahead, next⟩ := inner
        rw [Run.bind_of_ok run]
        have stands' : s'.Stands c.limited (k + 1) := by rwa [← (stands_deeper stands).depth]
        refine ⟨stands.depth ▸ stands_shallower stands', source, ts, ahead, fun us s₂ some beside => ?_⟩
        obtain ⟨s₂', run₂, beside'⟩ := next us s₂.deeper some beside.deeper
        refine ⟨Comparison.shallower s₂', ?_, beside'.shallower stands'⟩
        rw [nested_of_room (room₂ beside), Run.bind_of_ok run₂]
        rfl
    | error d s' =>
        rw [run] at inner
        rw [Run.bind_of_error run]
        cases inner with
        | lexical fault => exact .lexical fault
        | overrun token text most => exact .overrun token text most
        | unexpected text expected ahead viable fails =>
            refine .unexpected text expected ahead viable fun s₂ beside a s₂' run => ?_
            rw [nested_of_room (room₂ beside)] at run
            obtain ⟨b, s₁, run, -⟩ := Run.bind_ok.1 run
            exact fails s₂.deeper beside.deeper b s₁ run
        | deep ahead full => exact .deep ahead (balance _ ▸ full)
        | missing ahead sets full plain fails =>
            refine .missing ahead sets (balance _ ▸ full) plain fun s₂ beside => ?_
            obtain ⟨text, s₂', run⟩ := fails s₂.deeper beside.deeper
            exact ⟨text, s₂', by rw [nested_of_room (room₂ beside), Run.bind_of_error run]; rfl⟩

theorem Fails.full {q : Parser α} (stands : s.Stands c.limited k) (limit : c.limited.depthLimit ≤ k)
    (opened : 0 < E.offset + s.token.kind.opening) :
    c.Fails E s q ⟨.depthLimit c.limited.depthLimit, .position s.source s.token.start⟩ := by
  obtain ⟨rest, ahead⟩ := s.ahead_split
  refine .deep ahead ?_
  rw [List.map_nil, TokenKind.balance_nil, stands.depth]
  omega

theorem Reads.nestedThen (inner : c.Reads (k + 1) p q bare H G) (stands : s.Stands c.limited k) (offset : E.offset = 1)
    (viable : ∀ ls, Viable G ls → E.viable ls)
    (next : ∀ a ls s', G ls (bare a) → s'.Stands c.limited k → c.Attempt (E.behind ls) s' (f a) (g a)) :
    c.Attempt E s (nested p >>= f) (nested q >>= g) := by
  have opening := s.token.kind.opening_nonneg
  have sound : SoundAt c.limited (c.room k) (nested p) bare (Deeper H (c.room k)) := by
    refine nested_sound fun m level => ?_
    have deeper : c.room (k + 1) = m := by unfold room at level ⊢; omega
    exact deeper ▸ inner.sound
  refine Attempt.andThen (Q := fun a ls => G ls (bare a)) stands
    (Attempt.nested stands (fun limit => .full stands limit (by omega))
      ((inner.attempt (stands_deeper stands)).weaken viable (by simp [offset])))
    (fun a s' run => ?_) fun a ls s' derives _ stands' => ?_
  · obtain ⟨ls, ⟨m, -, derives⟩, taken⟩ := sound stands.toValid (at_room stands) run
    exact ⟨ls, inner.derives derives, taken⟩
  · rw [Expectation.after_eq_behind (inner.matched derives)]
    exact next a ls s' derives stands'

theorem tooDeep_sound {o : ParseOptions} {n : Nat} {G : List Lexeme → β → Prop} : SoundAt o n (tooDeep : Parser α) bare G := by
  intro s part s' _ _ run
  simp [tooDeep] at run

theorem tooDeep_attempt (stands : s.Stands c.limited (k + 1)) (limit : c.limited.depthLimit ≤ k) (offset : E.offset = 0) :
    c.Attempt E s tooDeep q := by
  have run : (tooDeep : Parser α) s = .error ⟨.depthLimit c.limited.depthLimit, .position s.source s.token.start⟩ s := by
    rw [← stands.options]
    rfl
  obtain ⟨rest, ahead⟩ := s.ahead_split
  unfold Attempt
  rw [run]
  refine .deep ahead ?_
  have opening := s.token.kind.opening_nonneg
  rw [List.map_nil, TokenKind.balance_nil, stands.depth, offset]
  omega

theorem levels_read (levels : Nat → Parser α) (deeper : Parser α → Parser α) (none : levels 0 = deeper tooDeep)
    (more : ∀ n, levels (n + 1) = deeper (levels n)) (sound : ∀ o n, SoundAt o n (levels n) bare (H n))
    (derives : ∀ ⦃n ls part⦄, H n ls part → G ls part) (matched : ∀ ⦃ls part⦄, G ls part → Bracketed ls)
    (step : ∀ k p q, c.Reads (k + 1) p q bare H G → ∀ s, s.Stands c.limited k →
      c.Attempt { viable := Viable G } s (deeper p) (deeper q)) (k : Nat) :
    c.Reads k (do levels (← get).levelsLeft) (do levels (← get).levelsLeft) bare H G where
  sound := (sound _ _).ofLevels
  sound' := (sound _ _).ofLevels
  derives := derives
  matched := matched
  attempt s stands := by
    have limits := c.levels
    -- The induction is on the levels that the limited side has left; the other side may have more.
    have attempts (n k : Nat) (left : c.room k = n) (s : ParserState) (stands : s.Stands c.limited k) :
        c.Attempt { viable := Viable G } s (levels n) (levels (c.room' k)) := by
      unfold room at left
      induction n generalizing k s with
      | zero =>
          have reads (q : Parser α) (sound' : SoundAt c.free (c.room' (k + 1)) q bare (H (c.room' (k + 1)))) :
              c.Reads (k + 1) tooDeep q bare H G :=
            ⟨tooDeep_sound, sound', derives, matched, fun s stands => tooDeep_attempt stands (by omega) rfl⟩
          rw [none]
          cases room' : c.room' k with
          | zero => exact none ▸ step k _ _ (reads tooDeep tooDeep_sound) s stands
          | succ m =>
              have deeper : c.room' (k + 1) = m := by unfold Comparison.room' at room' ⊢; omega
              exact more m ▸ step k _ _ (reads _ (deeper ▸ sound _ _)) s stands
      | succ n ih =>
          obtain ⟨m, room'⟩ := Nat.exists_eq_add_one.2 (show 0 < c.room' k by unfold Comparison.room'; omega)
          have deeper : c.room (k + 1) = n := by unfold Comparison.room; omega
          have deeper' : c.room' (k + 1) = m := by unfold Comparison.room' at room' ⊢; omega
          rw [more, room', more]
          refine step k _ _ ⟨deeper ▸ sound _ _, deeper' ▸ sound _ _, derives, matched, fun s stands => ?_⟩ s stands
          exact deeper' ▸ ih (k + 1) deeper s stands
    refine (attempts _ k rfl s stands).congr ?_ fun us s₂ _ beside => ?_
    · rw [Run.get_bind, (at_room stands).levels, room]
    · rw [Run.get_bind, levelsLeft, beside.stands.options, beside.stands.depth, stands.depth, room']

section
variable {kinds : List TokenKind} (item : c.Reads k p q bare H G) (begins : BeginsWith G kinds)
  (stands : s.Stands c.limited k) (offset : E.offset = 0)
  (items : ∀ ls, Viable (OneOrMore G) ls → E.viable ls)
include item begins stands offset items

theorem upTo_attempt (close : TokenKind) : c.Attempt E s (upTo close p) (upTo close q) := by
  -- Each item takes a token, so the tokens that remain bound the induction.
  induction left : s.remaining.length using Nat.strongRecOn generalizing s E with
  | _ n ih =>
      have begins₁ : BeginsWith (H (c.room k)) kinds := fun _ _ derives => begins (item.derives derives)
      have begins₂ : BeginsWith (H (c.room' k)) kinds := fun _ _ derives => begins (item.derives derives)
      have here₂ {us : List Token} {t : ParserState} (beside : c.Beside us s t) : t.At c.free (c.room' k) :=
        at_room (stands.depth ▸ beside.stands)
      refine Attempt.congr (upTo_run begins₁ item.sound close stands.toValid (at_room stands))
        (fun us s₂ _ beside => upTo_run begins₂ item.sound' close beside.stands.toValid (here₂ beside)) ?_
      refine Attempt.optionalThen close stands (fun _ s' stands' => .pure stands' []) fun _ => ?_
      refine item.andThenTaking stands offset (fun ls viable => items ls viable.oneOrMore)
        fun first ls s' derives taken stands' => ?_
      have shorter := congrArg List.length taken.remaining
      rw [List.length_append] at shorter
      have := begins.length_pos derives
      have rest := ih s'.remaining.length (by omega) (E := E.behind ls) stands' offset
        (fun ls' viable => items _ (OneOrMore.viable_cons derives viable)) rfl
      exact rest.bind fun others s'' _ _ _ stands'' => .pure (stands'.depth ▸ stands'') (first :: others)

theorem asLong_attempt (kind : TokenKind) : c.Attempt E s (asLong kind p) (asLong kind q) := by
  induction left : s.remaining.length using Nat.strongRecOn generalizing s E with
  | _ n ih =>
      have begins₁ : BeginsWith (H (c.room k)) kinds := fun _ _ derives => begins (item.derives derives)
      have begins₂ : BeginsWith (H (c.room' k)) kinds := fun _ _ derives => begins (item.derives derives)
      have here₂ {us : List Token} {t : ParserState} (beside : c.Beside us s t) : t.At c.free (c.room' k) :=
        at_room (stands.depth ▸ beside.stands)
      refine Attempt.congr (asLong_run begins₁ item.sound kind stands.toValid (at_room stands))
        (fun us s₂ _ beside => asLong_run begins₂ item.sound' kind beside.stands.toValid (here₂ beside)) ?_
      refine Attempt.peekThen kind ?_
      split_ifs
      · refine item.andThenTaking stands offset (fun ls viable => items ls viable.oneOrMore)
          fun first ls s' derives taken stands' => ?_
        have shorter := congrArg List.length taken.remaining
        rw [List.length_append] at shorter
        have := begins.length_pos derives
        have rest := ih s'.remaining.length (by omega) (E := E.behind ls) stands' offset
          (fun ls' viable => items _ (OneOrMore.viable_cons derives viable)) rfl
        exact rest.bind fun others s'' _ _ _ stands'' => .pure (stands'.depth ▸ stands'') (first :: others)
      · exact .pure stands []

theorem oneOrMore_attempt (close : TokenKind) : c.Attempt E s (oneOrMore p close) (oneOrMore q close) := by
  refine item.andThen stands offset (fun ls viable => items ls viable.oneOrMore) fun first ls s' derives stands' => ?_
  have rest := upTo_attempt item begins (E := E.behind ls) stands' offset
    (fun ls' viable => items _ (OneOrMore.viable_cons derives viable)) close
  exact rest.bind fun others s'' _ _ _ stands'' => .pure (stands'.depth ▸ stands'') (first :: others)

end

theorem Attempt.markThen {f g : Token → Parser γ} (kind : TokenKind) (punctuator : kind.isPunctuator = true)
    (plain : (mark kind).isPlain = true) (stands : s.Stands c.limited k) (begins : E.viable [])
    (next : ∀ t s', s'.Stands c.limited k → c.Attempt (E.behind [mark kind]) s' (f t) (g t)) :
    c.Attempt E s (expectToken kind >>= f) (expectToken kind >>= g) := by
  refine Attempt.expectThen kind stands begins fun found s' stands' => ?_
  rw [Token.written_of_kind found (.inl punctuator), TokenKind.written_of_punctuator punctuator]
  exact Expectation.after_eq_behind (E := E) (.plain kind [] plain) ▸ next s.token s' stands'

theorem Attempt.optionalMarkThen {f g : Bool → Parser γ} (kind : TokenKind) (punctuator : kind.isPunctuator = true)
    (plain : (mark kind).isPlain = true) (stands : s.Stands c.limited k)
    (taken : ∀ s', s'.Stands c.limited k → c.Attempt (E.behind [mark kind]) s' (f true) (g true))
    (skipped : c.Attempt E s (f false) (g false)) : c.Attempt E s (optionalToken kind >>= f) (optionalToken kind >>= g) := by
  refine Attempt.optionalThen kind stands (fun found s' stands' => ?_) fun _ => skipped
  rw [Token.written_of_kind found (.inl punctuator), TokenKind.written_of_punctuator punctuator]
  exact Expectation.after_eq_behind (E := E) (.plain kind [] plain) ▸ taken s' stands'

section
variable {kinds : List TokenKind} (item : c.Reads k p q bare H G) (begins : BeginsWith G kinds)
  (stands : s.Stands c.limited k)
include item begins stands

theorem any_attempt (opening close : TokenKind) (punctuator : opening.isPunctuator = true)
    (offset : E.offset + TokenKind.balance [opening] = 0) (empty : E.viable [])
    (items : ∀ ls, Viable (OneOrMore G) ls → E.viable ([mark opening] ++ ls)) :
    c.Attempt E s (any opening p close) (any opening q close) := by
  change c.Attempt E s (expectToken opening >>= fun _ => upTo close p) (expectToken opening >>= fun _ => upTo close q)
  refine Attempt.expectThen opening stands empty fun found s' stands' => ?_
  rw [Token.written_of_kind found (.inl punctuator), TokenKind.written_of_punctuator punctuator]
  exact upTo_attempt item begins (E := E.after [mark opening]) stands' offset items close

theorem many_attempt (opening close : TokenKind) (punctuator : opening.isPunctuator = true)
    (offset : E.offset + TokenKind.balance [opening] = 0) (empty : E.viable [])
    (items : ∀ ls, Viable (OneOrMore G) ls → E.viable ([mark opening] ++ ls)) :
    c.Attempt E s (many opening p close) (many opening q close) := by
  change c.Attempt E s (expectToken opening >>= fun _ => oneOrMore p close) (expectToken opening >>= fun _ => oneOrMore q close)
  refine Attempt.expectThen opening stands empty fun found s' stands' => ?_
  rw [Token.written_of_kind found (.inl punctuator), TokenKind.written_of_punctuator punctuator]
  exact oneOrMore_attempt item begins (E := E.after [mark opening]) stands' offset items close

theorem parenthesized_attempt : c.Attempt { viable := Viable (Parenthesized G) } s (optionalMany .parenOpen p .parenClose)
    (optionalMany .parenOpen q .parenClose) := by
  refine Attempt.optionalMarkThen .parenOpen rfl rfl stands (fun s' stands' => ?_) (.pure stands [])
  refine oneOrMore_attempt item begins stands' rfl (fun ls viable => ?_) .parenClose
  exact viable.lift [mark .parenOpen] fun ls parts derives =>
    .of_append [mark .parenClose] (.present derives.1 derives.2) rfl

end

end Comparison

end QueryPlanner
