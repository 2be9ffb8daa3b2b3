import QueryPlanner.Proofs.Parser.Production

namespace QueryPlanner.Parser
open Run ParserState Grammar
open Lexeme (mark)

variable {α β : Type} {o : ParseOptions} {n : Nat} {item : Parser α} {bare : α → β} {G : List Lexeme → β → Prop}
  {kinds avoid : List TokenKind} {opening close : TokenKind} {s s' : ParserState}

theorem itemsUntil_sound (begins : BeginsWith G kinds) (sound : SoundAt o n item bare G)
    (valueless : close.isPunctuator = true ∨ close = .endOfFile) {fuel : Nat} {parts : List α} (valid : s.Valid)
    (here : s.At o n) (enough : s.stock ≤ fuel) (h : itemsUntil close item fuel s = .ok parts s') :
    ∃ ls s₁, Sequence G ls (parts.map bare) ∧ Consumes ls s s₁ ∧ s₁.token.kind = close ∧ Consumes close.written s₁ s' := by
  -- Every item takes a token, so the fuel lasts until the closing token.
  induction fuel generalizing s parts with
  | zero =>
      have := valid.stock_pos
      omega
  | succ fuel ih =>
      simp only [itemsUntil, bind_ok] at h
      obtain ⟨closed, s₁, looked, h⟩ := h
      obtain ⟨rfl, found, taken⟩ | ⟨rfl, rfl⟩ := optionalToken_sound valid looked valueless
      · obtain ⟨rfl, rfl⟩ := pure_ok.1 h
        exact ⟨[], s, .nil, .refl valid, found, taken⟩
      · simp only [Bool.false_eq_true, if_false, bind_ok, pure_ok] at h
        obtain ⟨first, s₂, firstRead, rest, s₃, restRead, rfl, rfl⟩ := h
        obtain ⟨ls, derives, taken⟩ := sound valid here firstRead
        have shorter := taken.stock
        have := begins.length_pos derives
        obtain ⟨ls', s₄, derives', taken', closed⟩ := ih taken.valid (taken.at_iff.2 here) (by omega) restRead
        exact ⟨ls ++ ls', s₄, .cons derives derives', taken.trans taken', closed⟩

theorem itemsUntil_complete (begins : BeginsWith G kinds) (complete : CompleteAt o n item bare G avoid)
    (apart : ∀ kind ∈ kinds, kind ∉ avoid ∧ kind ≠ close) (closing : close ∉ avoid)
    (valueless : close.isPunctuator = true ∨ close = .endOfFile) {fuel : Nat} {ls rest : List Lexeme} {parts : List β}
    (ready : s.Ready) (here : s.At o n) (derives : Sequence G ls parts)
    (remaining : s.remaining = ls ++ (close.written ++ rest)) (next : nextKind (close.written ++ rest) = close)
    (enough : parts.length < fuel) :
    ∃ made s', itemsUntil close item fuel s = .ok made s' ∧ made.map bare = parts ∧
      Consumes (ls ++ close.written) s s' := by
  induction derives generalizing s fuel with
  | nil =>
      obtain ⟨fuel, rfl⟩ := Nat.exists_eq_succ_of_ne_zero (Nat.ne_of_gt enough)
      obtain ⟨s', taken, consumes⟩ := optionalToken_take close ready (remaining ▸ next) valueless
      exact ⟨[], s', bind_ok.2 ⟨true, s', taken, pure_ok.2 ⟨rfl, rfl⟩⟩, rfl, consumes⟩
  | @cons ls₁ ls₂ part parts first others ih =>
      obtain ⟨fuel, rfl⟩ := Nat.exists_eq_succ_of_ne_zero (Nat.ne_of_gt (Nat.zero_lt_of_lt enough))
      rw [List.append_assoc] at remaining
      have skipped := optionalToken_skip close ready.toValid
        (remaining ▸ (apart _ (begins.nextKind first (ls₂ ++ (close.written ++ rest)))).2)
      have follows : nextKind (ls₂ ++ (close.written ++ rest)) ∉ avoid := by
        cases others with
        | nil => rw [List.nil_append, next]; exact closing
        | cons second _ =>
            rw [List.append_assoc]
            exact (apart _ (begins.nextKind second _)).1
      obtain ⟨made, s₁, firstRead, rfl, consumes⟩ := complete ready here first remaining follows
      obtain ⟨others', s₂, restRead, rfl, consumes'⟩ := ih (consumes.ready ready) (consumes.at_iff.2 here)
        (consumes.rest remaining) (Nat.lt_of_succ_lt_succ enough)
      refine ⟨made :: others', s₂, ?_, rfl, List.append_assoc ls₁ ls₂ _ ▸ consumes.trans consumes'⟩
      refine bind_ok.2 ⟨false, s, skipped, ?_⟩
      exact bind_ok.2 ⟨made, s₁, firstRead, bind_ok.2 ⟨others', s₂, restRead, pure_ok.2 ⟨rfl, rfl⟩⟩⟩

theorem enough_fuel (begins : BeginsWith G kinds) {ls rest : List Lexeme} {parts : List β} (ready : s.Ready)
    (derives : Sequence G ls parts) (remaining : s.remaining = ls ++ rest) : parts.length < s.tokensLeft + 1 := by
  have items := derives.length_le begins
  have stock := s.stock_le
  rw [ParserState.stock, ready.whole, if_pos rfl, remaining, List.length_append] at stock
  omega

theorem oneOrMore_sound (begins : BeginsWith G kinds) (sound : SoundAt o n item bare G)
    (valueless : close.isPunctuator = true ∨ close = .endOfFile) {parts : List α} (valid : s.Valid) (here : s.At o n)
    (h : oneOrMore item close s = .ok parts s') :
    ∃ ls s₁, Sequence G ls (parts.map bare) ∧ parts.map bare ≠ [] ∧ Consumes ls s s₁ ∧ s₁.token.kind = close ∧
      Consumes close.written s₁ s' := by
  unfold oneOrMore at h
  obtain ⟨first, s₁, firstRead, h⟩ := bind_ok.1 h
  rw [get_bind] at h
  obtain ⟨rest, s₂, restRead, h⟩ := bind_ok.1 h
  obtain ⟨rfl, rfl⟩ := pure_ok.1 h
  obtain ⟨ls, derives, taken⟩ := sound valid here firstRead
  obtain ⟨ls', s₃, derives', taken', closed⟩ := itemsUntil_sound begins sound valueless taken.valid
    (taken.at_iff.2 here) s₁.stock_le restRead
  exact ⟨ls ++ ls', s₃, .cons derives derives', by simp, taken.trans taken', closed⟩

theorem oneOrMore_complete (close : TokenKind) (begins : BeginsWith G kinds) (complete : CompleteAt o n item bare G avoid)
    (apart : ∀ kind ∈ kinds, kind ∉ avoid ∧ kind ≠ close) (closing : close ∉ avoid)
    (valueless : close.isPunctuator = true ∨ close = .endOfFile) {ls rest : List Lexeme} {parts : List β}
    (ready : s.Ready) (here : s.At o n) (derives : Sequence G ls parts) (some : parts ≠ [])
    (remaining : s.remaining = ls ++ (close.written ++ rest)) (next : nextKind (close.written ++ rest) = close) :
    ∃ made s', oneOrMore item close s = .ok made s' ∧ made.map bare = parts ∧ Consumes (ls ++ close.written) s s' := by
  cases derives with
  | nil => contradiction
  | @cons ls₁ ls₂ part parts first others =>
      rw [List.append_assoc] at remaining
      have follows : nextKind (ls₂ ++ (close.written ++ rest)) ∉ avoid := by
        cases others with
        | nil => rw [List.nil_append, next]; exact closing
        | cons second _ =>
            rw [List.append_assoc]
            exact (apart _ (begins.nextKind second _)).1
      obtain ⟨made, s₁, firstRead, rfl, consumes⟩ := complete ready here first remaining follows
      have ready₁ := consumes.ready ready
      have remaining₁ := consumes.rest remaining
      obtain ⟨others', s₂, restRead, rfl, consumes'⟩ := itemsUntil_complete begins complete apart closing valueless
        ready₁ (consumes.at_iff.2 here) others remaining₁ next (enough_fuel begins ready₁ others remaining₁)
      refine ⟨made :: others', s₂, ?_, rfl, List.append_assoc ls₁ ls₂ _ ▸ consumes.trans consumes'⟩
      unfold oneOrMore
      refine bind_ok.2 ⟨made, s₁, firstRead, ?_⟩
      rw [get_bind]
      exact bind_ok.2 ⟨others', s₂, restRead, pure_ok.2 ⟨rfl, rfl⟩⟩

inductive Enclosed (opening close : TokenKind) (G : List Lexeme → β → Prop) : List Lexeme → List β → Prop
  | intro {ls : List Lexeme} {parts : List β} : Sequence G ls parts →
      Enclosed opening close G (mark opening :: (ls ++ [mark close])) parts

section
variable (opening close : TokenKind) (closes : close.isPunctuator = true)
include closes

theorem any_sound (opens : opening.isPunctuator = true) (begins : BeginsWith G kinds) (sound : SoundAt o n item bare G) :
    SoundAt o n (any opening item close) (List.map bare) (Enclosed opening close G) := by
  intro s parts s' valid here h
  unfold any at h
  obtain ⟨t, s₁, opened, h⟩ := bind_ok.1 h
  rw [get_bind] at h
  have taken := expectMark_sound valid opened opens
  obtain ⟨ls, s₂, derives, taken', -, closed⟩ := itemsUntil_sound begins sound (.inl closes) taken.valid
    (taken.at_iff.2 here) s₁.stock_le h
  rw [TokenKind.written_of_punctuator closes] at closed
  exact ⟨_, .intro derives, taken.trans (taken'.trans closed)⟩

theorem any_complete (begins : BeginsWith G kinds) (complete : CompleteAt o n item bare G avoid)
    (apart : ∀ kind ∈ kinds, kind ∉ avoid ∧ kind ≠ close) (closing : close ∉ avoid) :
    CompleteAt o n (any opening item close) (List.map bare) (Enclosed opening close G) [] := by
  rintro s _ parts rest ready here @⟨ls, _, derives⟩ remaining -
  simp only [List.cons_append, List.append_assoc] at remaining
  obtain ⟨s₁, opened, consumes⟩ := expectToken_complete ready remaining
  have ready₁ := consumes.ready ready
  have remaining₁ : s₁.remaining = ls ++ ([mark close] ++ rest) := consumes.rest remaining
  rw [← TokenKind.written_of_punctuator closes] at remaining₁ ⊢
  obtain ⟨made, s₂, read, rfl, consumes'⟩ := itemsUntil_complete begins complete apart closing (.inl closes) ready₁
    (consumes.at_iff.2 here) derives remaining₁ (TokenKind.nextKind_written closes rest)
    (enough_fuel begins ready₁ derives remaining₁)
  refine ⟨made, s₂, ?_, rfl, consumes.trans consumes'⟩
  unfold any
  exact bind_ok.2 ⟨_, s₁, opened, read⟩

theorem many_sound (opens : opening.isPunctuator = true) (begins : BeginsWith G kinds) (sound : SoundAt o n item bare G) :
    SoundAt o n (many opening item close) (List.map bare)
      (fun ls parts => Enclosed opening close G ls parts ∧ parts ≠ []) := by
  intro s parts s' valid here h
  unfold many at h
  obtain ⟨t, s₁, opened, h⟩ := bind_ok.1 h
  have taken := expectMark_sound valid opened opens
  obtain ⟨ls, s₂, derives, some, taken', -, closed⟩ := oneOrMore_sound begins sound (.inl closes) taken.valid
    (taken.at_iff.2 here) h
  rw [TokenKind.written_of_punctuator closes] at closed
  exact ⟨_, ⟨.intro derives, some⟩, taken.trans (taken'.trans closed)⟩

theorem many_complete (begins : BeginsWith G kinds) (complete : CompleteAt o n item bare G avoid)
    (apart : ∀ kind ∈ kinds, kind ∉ avoid ∧ kind ≠ close) (closing : close ∉ avoid) :
    CompleteAt o n (many opening item close) (List.map bare)
      (fun ls parts => Enclosed opening close G ls parts ∧ parts ≠ []) [] := by
  rintro s _ parts rest ready here ⟨@⟨ls, _, derives⟩, some⟩ remaining -
  simp only [List.cons_append, List.append_assoc] at remaining
  obtain ⟨s₁, opened, consumes⟩ := expectToken_complete ready remaining
  have remaining₁ : s₁.remaining = ls ++ ([mark close] ++ rest) := consumes.rest remaining
  rw [← TokenKind.written_of_punctuator closes] at remaining₁ ⊢
  obtain ⟨made, s₂, read, rfl, consumes'⟩ := oneOrMore_complete close begins complete apart closing (.inl closes)
    (consumes.ready ready) (consumes.at_iff.2 here) derives some remaining₁ (TokenKind.nextKind_written closes rest)
  exact ⟨made, s₂, bind_ok.2 ⟨_, s₁, opened, read⟩, rfl, consumes.trans consumes'⟩

end

theorem parenthesized_sound (begins : BeginsWith G kinds) (sound : SoundAt o n item bare G) :
    SoundAt o n (optionalMany .parenOpen item .parenClose) (List.map bare) (Parenthesized G) := by
  intro s parts s' valid here h
  unfold optionalMany at h
  obtain ⟨opened, s₁, looked, h⟩ := bind_ok.1 h
  obtain ⟨rfl, -, taken⟩ | ⟨rfl, rfl⟩ := optionalToken_sound valid looked (.inl rfl)
  · obtain ⟨ls, s₂, derives, some, taken', -, closed⟩ := oneOrMore_sound begins sound (.inl rfl) taken.valid
      (taken.at_iff.2 here) h
    exact ⟨_, .present derives some, taken.trans (taken'.trans closed)⟩
  · obtain ⟨rfl, rfl⟩ := pure_ok.1 h
    exact ⟨[], .absent, .refl valid⟩

theorem parenthesized_complete (begins : BeginsWith G kinds) (complete : CompleteAt o n item bare G avoid)
    (apart : ∀ kind ∈ kinds, kind ∉ avoid ∧ kind ≠ .parenClose) (closing : TokenKind.parenClose ∉ avoid) :
    CompleteAt o n (optionalMany .parenOpen item .parenClose) (List.map bare) (Parenthesized G) [.parenOpen] := by
  intro s ls parts rest ready here derives remaining follows
  unfold optionalMany
  cases derives with
  | absent =>
      have skipped := optionalToken_skip .parenOpen ready.toValid (by rw [remaining]; simpa using follows)
      exact ⟨[], s, bind_ok.2 ⟨false, s, skipped, pure_ok.2 ⟨rfl, rfl⟩⟩, rfl, .refl ready.toValid⟩
  | present derives some =>
      simp only [List.cons_append, List.append_assoc] at remaining
      obtain ⟨s₁, opened, consumes⟩ := optionalToken_take .parenOpen ready (by rw [remaining]; rfl) (.inl rfl)
      obtain ⟨made, s₂, read, rfl, consumes'⟩ := oneOrMore_complete .parenClose begins complete apart closing
        (.inl rfl) (consumes.ready ready) (consumes.at_iff.2 here) derives some (consumes.rest remaining) rfl
      exact ⟨made, s₂, bind_ok.2 ⟨true, s₁, opened, read⟩, rfl, consumes.trans consumes'⟩

theorem itemsWhile_sound (sound : SoundAt o n item bare G) (first : TokenKind) (fuel : Nat) :
    SoundAt o n (itemsWhile first item fuel) (List.map bare) (Sequence G) := by
  induction fuel with
  | zero =>
      intro s parts s' valid here h
      obtain ⟨rfl, rfl⟩ := pure_ok.1 h
      exact ⟨[], .nil, .refl valid⟩
  | succ fuel ih =>
      intro s parts s' valid here h
      simp only [itemsWhile, bind_ok, peek_ok] at h
      obtain ⟨more, s₁, ⟨looked, rfl⟩, h⟩ := h
      cases more with
      | false =>
          obtain ⟨rfl, rfl⟩ := pure_ok.1 h
          exact ⟨[], .nil, .refl valid⟩
      | true =>
          simp only [if_true, bind_ok, pure_ok] at h
          obtain ⟨part, s₂, partRead, rest, s₃, restRead, rfl, rfl⟩ := h
          obtain ⟨ls, derives, taken⟩ := sound valid here partRead
          obtain ⟨ls', derives', taken'⟩ := ih taken.valid (taken.at_iff.2 here) restRead
          exact ⟨ls ++ ls', .cons derives derives', taken.trans taken'⟩

theorem itemsWhile_complete {first : TokenKind} (begins : BeginsWith G [first])
    (complete : CompleteAt o n item bare G avoid) (apart : first ∉ avoid) {fuel : Nat} {ls rest : List Lexeme}
    {parts : List β} (ready : s.Ready) (here : s.At o n) (derives : Sequence G ls parts)
    (remaining : s.remaining = ls ++ rest) (follows : nextKind rest ∉ first :: avoid) (enough : parts.length < fuel) :
    ∃ made s', itemsWhile first item fuel s = .ok made s' ∧ made.map bare = parts ∧ Consumes ls s s' := by
  rw [List.mem_cons, not_or] at follows
  induction derives generalizing s fuel with
  | nil =>
      obtain ⟨fuel, rfl⟩ := Nat.exists_eq_succ_of_ne_zero (Nat.ne_of_gt enough)
      have looked := peek_eq first ready.toValid
      rw [remaining, List.nil_append, decide_eq_false follows.1] at looked
      exact ⟨[], s, bind_ok.2 ⟨false, s, looked, pure_ok.2 ⟨rfl, rfl⟩⟩, rfl, .refl ready.toValid⟩
  | @cons ls₁ ls₂ part parts derives others ih =>
      obtain ⟨fuel, rfl⟩ := Nat.exists_eq_succ_of_ne_zero (Nat.ne_of_gt (Nat.zero_lt_of_lt enough))
      rw [List.append_assoc] at remaining
      have looked := peek_eq first ready.toValid
      rw [remaining, List.mem_singleton.1 (begins.nextKind derives _), decide_eq_true rfl] at looked
      have next : nextKind (ls₂ ++ rest) ∉ avoid := by
        cases others with
        | nil => exact follows.2
        | cons second _ =>
            rw [List.append_assoc, List.mem_singleton.1 (begins.nextKind second _)]
            exact apart
      obtain ⟨made, s₁, read, rfl, consumes⟩ := complete ready here derives remaining next
      obtain ⟨others', s₂, restRead, rfl, consumes'⟩ := ih (consumes.ready ready) (consumes.at_iff.2 here)
        (consumes.rest remaining) (Nat.lt_of_succ_lt_succ enough)
      refine ⟨made :: others', s₂, bind_ok.2 ⟨true, s, looked, ?_⟩, rfl, consumes.trans consumes'⟩
      exact bind_ok.2 ⟨made, s₁, read, bind_ok.2 ⟨others', s₂, restRead, pure_ok.2 ⟨rfl, rfl⟩⟩⟩

end QueryPlanner.Parser
