import QueryPlanner.Proofs.Parser.State

/-!
# Sound and complete productions

A production is sound if what it takes derives its result, and complete if it takes every derivation that is followed
by what may follow it. Both are stated for the levels that are left, since a production that nests calls itself with
one level less. The combinators of lists and nesting keep both properties.
-/

namespace QueryPlanner
open Grammar (Sequence nextKind)
open Lexeme (mark word)

namespace Grammar

def BeginsWith (G : List Lexeme → α → Prop) (kinds : List TokenKind) : Prop :=
  ∀ ⦃ls part⦄, G ls part → ∃ l rest, ls = l :: rest ∧ l.kind ∈ kinds

theorem BeginsWith.nextKind {G : List Lexeme → α → Prop} {kinds : List TokenKind} (begins : BeginsWith G kinds)
    {ls : List Lexeme} {part : α} (derives : G ls part) (rest : List Lexeme) : nextKind (ls ++ rest) ∈ kinds := by
  obtain ⟨l, tail, rfl, kind⟩ := begins derives
  exact kind

theorem BeginsWith.length_pos {G : List Lexeme → α → Prop} {kinds : List TokenKind} (begins : BeginsWith G kinds)
    {ls : List Lexeme} {part : α} (derives : G ls part) : 0 < ls.length := by
  obtain ⟨l, tail, rfl, -⟩ := begins derives
  exact Nat.succ_pos _

def MayBeginWith (G : List Lexeme → α → Prop) (kinds : List TokenKind) : Prop :=
  ∀ ⦃ls part⦄, G ls part → ∀ rest, nextKind (ls ++ rest) ∈ kinds ∨ ls = []

theorem MayBeginWith.follows {G : List Lexeme → α → Prop} {kinds avoid : List TokenKind} (begins : MayBeginWith G kinds)
    {ls rest : List Lexeme} {part : α} (derives : G ls part) (apart : ∀ kind ∈ kinds, kind ∉ avoid)
    (follows : nextKind rest ∉ avoid) : nextKind (ls ++ rest) ∉ avoid := by
  obtain next | rfl := begins derives rest
  · exact apart _ next
  · exact follows

theorem Parenthesized.begins {G : List Lexeme → α → Prop} : MayBeginWith (Parenthesized G) [.parenOpen] := by
  rintro _ _ (_ | _) rest
  · exact .inr rfl
  · exact .inl (List.mem_singleton_self _)

theorem BeginsWith.sequence {G : List Lexeme → α → Prop} {kinds : List TokenKind} (begins : BeginsWith G kinds) :
    MayBeginWith (Sequence G) kinds := by
  rintro _ _ (_ | ⟨first, _⟩) rest
  · exact .inr rfl
  · rw [List.append_assoc]
    exact .inl (begins.nextKind first _)

theorem BeginsWith.maybe {G : List Lexeme → α → Prop} {kinds : List TokenKind} (begins : BeginsWith G kinds) :
    MayBeginWith (Maybe G) kinds := by
  rintro _ _ (_ | derives) rest
  · exact .inr rfl
  · exact .inl (begins.nextKind derives rest)

theorem Sequence.length_le {G : List Lexeme → α → Prop} {kinds : List TokenKind} (begins : BeginsWith G kinds)
    {ls : List Lexeme} {parts : List α} (derives : Sequence G ls parts) : parts.length ≤ ls.length := by
  induction derives with
  | nil => exact Nat.le_refl 0
  | cons first _ ih =>
      have := begins.length_pos first
      rw [List.length_cons, List.length_append]
      omega

theorem Sequence.mono {G H : List Lexeme → α → Prop} {ls : List Lexeme} {parts : List α} (derives : Sequence G ls parts)
    (weaker : ∀ ls, ∀ part ∈ parts, G ls part → H ls part) : Sequence H ls parts := by
  induction derives with
  | nil => exact .nil
  | cons first _ ih =>
      exact .cons (weaker _ _ (by simp) first) (ih fun ls part member => weaker ls part (by simp [member]))

def Within (depth : α → Nat) (G : List Lexeme → α → Prop) (n : Nat) (ls : List Lexeme) (part : α) : Prop :=
  G ls part ∧ depth part ≤ n

theorem BeginsWith.within {depth : α → Nat} {G : List Lexeme → α → Prop} {kinds : List TokenKind} {n : Nat}
    (begins : BeginsWith G kinds) : BeginsWith (Within depth G n) kinds :=
  fun _ _ derives => begins derives.1

theorem sequence_within {depth : α → Nat} {G : List Lexeme → α → Prop} {n : Nat} {ls : List Lexeme} {parts : List α} :
    Sequence (Within depth G n) ls parts ↔ Sequence G ls parts ∧ deepest depth parts ≤ n := by
  rw [deepest_le_iff]
  constructor
  · intro derives
    induction derives with
    | nil => exact ⟨.nil, by simp⟩
    | cons first _ ih => exact ⟨.cons first.1 ih.1, List.forall_mem_cons.2 ⟨first.2, ih.2⟩⟩
  · rintro ⟨derives, holds⟩
    exact derives.mono fun ls part member h => ⟨h, holds part member⟩

end Grammar

namespace ParserState

variable {s : ParserState}

theorem Valid.written_eq (valid : s.Valid) {l : Lexeme} {rest : List Lexeme} (remaining : s.remaining = l :: rest) :
    s.token.written = [l] ∧ s.token.kind = l.kind := by
  have kind := valid.nextKind_remaining
  rw [remaining, Grammar.nextKind_cons] at kind
  have notLast : s.token.kind ≠ .endOfFile := fun last => by
    rw [valid.remaining_eq_nil_iff.2 last] at remaining
    contradiction
  rw [ParserState.remaining, Token.written, if_neg notLast, List.singleton_append, List.cons.injEq] at remaining
  rw [Token.written, if_neg notLast, remaining.1]
  exact ⟨rfl, kind.symm⟩

theorem Valid.value_eq (valid : s.Valid) {l : Lexeme} {rest : List Lexeme} (remaining : s.remaining = l :: rest)
    (valued : l.kind.isPunctuator = false) : s.token.value = l.value := by
  obtain ⟨written, kind⟩ := valid.written_eq remaining
  have notLast : s.token.kind ≠ .endOfFile := fun last => by simp [Token.written, last] at written
  rw [Token.written, if_neg notLast, List.singleton_inj, Token.lexeme, kind, valued] at written
  exact congrArg Lexeme.value written

/-! ## Levels -/

def deeper (s : ParserState) : ParserState := { s with depth := s.depth + 1 }

theorem remaining_deeper (s : ParserState) : s.deeper.remaining = s.remaining := rfl

theorem Valid.deeper (valid : s.Valid) : s.deeper.Valid := ⟨valid.ends, valid.last, valid.counted⟩

theorem Ready.deeper (ready : s.Ready) : s.deeper.Ready := ⟨ready.toValid.deeper, ready.whole, ready.affordable⟩

theorem levelsLeft_deeper (room : s.levelsLeft ≠ 0) : s.deeper.levelsLeft + 1 = s.levelsLeft := by
  rw [levelsLeft] at room
  rw [levelsLeft, levelsLeft, deeper]
  dsimp only
  omega

theorem Consumes.shallower {ls : List Lexeme} {s₁ : ParserState} (h : Consumes ls s.deeper s₁) :
    Consumes ls s { s₁ with depth := s₁.depth - 1 } where
  remaining := h.remaining
  valid := ⟨h.valid.ends, h.valid.last, h.valid.counted⟩
  options := h.options
  depth := by simp [h.depth, deeper]
  whole := h.whole
  count := h.count

/-! ## Steps to the end -/

def stock (s : ParserState) : Nat := s.remaining.length + if s.upcoming.isWhole then 1 else 0

theorem stock_le (s : ParserState) : s.stock ≤ s.tokensLeft + 1 := by
  have written : s.token.written.length ≤ 1 := by
    unfold Token.written
    split_ifs <;> simp
  rw [stock, tokensLeft, TokenStream.length_eq, remaining, List.length_append]
  omega

theorem Valid.stock_pos (valid : s.Valid) : 0 < s.stock := by
  rw [stock]
  cases remaining : s.remaining with
  | cons l rest => rw [List.length_cons]; omega
  | nil =>
      obtain ⟨token, upcoming⟩ := valid.last (valid.remaining_eq_nil_iff.1 remaining)
      simp [upcoming, TokenStream.isWhole]

theorem Consumes.stock {ls : List Lexeme} {s' : ParserState} (h : Consumes ls s s') : s.stock = ls.length + s'.stock := by
  rw [ParserState.stock, ParserState.stock, h.remaining, h.whole, List.length_append, Nat.add_assoc]

end ParserState

namespace Parser
open Run ParserState Grammar

variable {α β : Type} {s s' : ParserState} {kind : TokenKind}

/-! ## Single tokens -/

theorem expectToken_sound (valid : s.Valid) {t : Token} (h : expectToken kind s = .ok t s') :
    s.token = t ∧ t.kind = kind ∧ Consumes t.written s s' := by
  obtain ⟨found, rfl, taken⟩ := expectToken_ok.1 h
  exact ⟨rfl, found, advance_sound valid taken⟩

theorem expectMark_sound (valid : s.Valid) {t : Token} (h : expectToken kind s = .ok t s')
    (valueless : kind.isPunctuator = true) : Consumes [mark kind] s s' := by
  obtain ⟨rfl, found, taken⟩ := expectToken_sound valid h
  rw [Token.written_of_kind found (.inl valueless), TokenKind.written_of_punctuator valueless] at taken
  exact taken

theorem expectToken_complete (ready : s.Ready) {l : Lexeme} {rest : List Lexeme} (remaining : s.remaining = l :: rest) :
    ∃ s', expectToken l.kind s = .ok s.token s' ∧ Consumes [l] s s' := by
  obtain ⟨written, found⟩ := ready.written_eq remaining
  obtain ⟨s', taken, consumes⟩ := advance_complete ready
  exact ⟨s', expectToken_ok.2 ⟨found, rfl, taken⟩, written ▸ consumes⟩

theorem optionalToken_sound (valid : s.Valid) {b : Bool} (h : optionalToken kind s = .ok b s')
    (valueless : kind.isPunctuator = true ∨ kind = .endOfFile) :
    (b = true ∧ s.token.kind = kind ∧ Consumes kind.written s s') ∨ (b = false ∧ s = s') := by
  obtain ⟨found, rfl, taken⟩ | ⟨-, rfl, rfl⟩ := optionalToken_ok.1 h
  · exact .inl ⟨rfl, found, Token.written_of_kind found valueless ▸ advance_sound valid taken⟩
  · exact .inr ⟨rfl, rfl⟩

theorem optionalToken_take (kind : TokenKind) (ready : s.Ready) (next : nextKind s.remaining = kind)
    (valueless : kind.isPunctuator = true ∨ kind = .endOfFile) :
    ∃ s', optionalToken kind s = .ok true s' ∧ Consumes kind.written s s' := by
  rw [ready.nextKind_remaining] at next
  obtain ⟨s', taken, consumes⟩ := advance_complete ready
  exact ⟨s', optionalToken_ok.2 (.inl ⟨next, rfl, taken⟩), Token.written_of_kind next valueless ▸ consumes⟩

theorem optionalToken_skip (kind : TokenKind) (valid : s.Valid) (next : nextKind s.remaining ≠ kind) :
    optionalToken kind s = .ok false s := by
  rw [valid.nextKind_remaining] at next
  exact optionalToken_ok.2 (.inr ⟨next, rfl, rfl⟩)

theorem peek_eq (kind : TokenKind) (valid : s.Valid) : peek kind s = .ok (decide (nextKind s.remaining = kind)) s := by
  rw [valid.nextKind_remaining]
  exact peek_ok.2 ⟨rfl, rfl⟩

theorem isKeyword_iff (valid : s.Valid) {text : Text} :
    isKeyword s.token text = true ↔ s.remaining.head? = some (word text) := by
  rw [isKeyword, Bool.and_eq_true, beq_iff_eq, beq_iff_eq]
  constructor
  · rintro ⟨name, rfl⟩
    simp [remaining, Token.written, Token.lexeme, name, TokenKind.isPunctuator, word]
  · intro head
    obtain ⟨rest, remaining⟩ := List.head?_eq_some_iff.1 head
    obtain ⟨written, name⟩ := valid.written_eq remaining
    have kind : s.token.kind = .name := name
    simp [Token.written, Token.lexeme, kind, TokenKind.isPunctuator, word] at written
    exact ⟨kind, written⟩

theorem written_of_keyword {t : Token} {text : Text} (keyword : isKeyword t text = true) : t.written = [word text] := by
  rw [isKeyword, Bool.and_eq_true, beq_iff_eq, beq_iff_eq] at keyword
  simp [Token.written, Token.lexeme, keyword.1, keyword.2, TokenKind.isPunctuator, word]

theorem expectKeyword_sound (valid : s.Valid) {text : Text} {u : Unit} (h : expectKeyword text s = .ok u s') :
    Consumes [word text] s s' := by
  obtain ⟨keyword, taken⟩ := expectKeyword_ok.1 h
  exact written_of_keyword keyword ▸ advance_sound valid taken

theorem expectKeyword_complete (ready : s.Ready) {text : Text} {rest : List Lexeme}
    (remaining : s.remaining = word text :: rest) :
    ∃ s', expectKeyword text s = .ok () s' ∧ Consumes [word text] s s' := by
  have keyword := (isKeyword_iff ready.toValid).2 (by rw [remaining]; rfl)
  obtain ⟨s', taken, consumes⟩ := advance_complete ready
  exact ⟨s', expectKeyword_ok.2 ⟨keyword, taken⟩, written_of_keyword keyword ▸ consumes⟩

theorem optionalKeyword_sound (valid : s.Valid) {text : Text} {b : Bool} (h : optionalKeyword text s = .ok b s') :
    (b = true ∧ Consumes [word text] s s') ∨ (b = false ∧ s = s' ∧ s.remaining.head? ≠ some (word text)) := by
  obtain ⟨keyword, rfl, taken⟩ | ⟨other, rfl, rfl⟩ := optionalKeyword_ok.1 h
  · exact .inl ⟨rfl, written_of_keyword keyword ▸ advance_sound valid taken⟩
  · exact .inr ⟨rfl, rfl, fun head => Bool.false_ne_true (other.symm.trans ((isKeyword_iff valid).2 head))⟩

theorem optionalKeyword_take (ready : s.Ready) {text : Text} {rest : List Lexeme}
    (remaining : s.remaining = word text :: rest) :
    ∃ s', optionalKeyword text s = .ok true s' ∧ Consumes [word text] s s' := by
  have keyword := (isKeyword_iff ready.toValid).2 (by rw [remaining]; rfl)
  obtain ⟨s', taken, consumes⟩ := advance_complete ready
  exact ⟨s', optionalKeyword_ok.2 (.inl ⟨keyword, rfl, taken⟩), written_of_keyword keyword ▸ consumes⟩

theorem optionalKeyword_skip (text : Text) (valid : s.Valid) (other : s.remaining.head? ≠ some (word text)) :
    optionalKeyword text s = .ok false s :=
  optionalKeyword_ok.2 (.inr ⟨Bool.eq_false_iff.2 fun keyword => other ((isKeyword_iff valid).1 keyword), rfl, rfl⟩)

/-! ## Productions -/

/-- What the production takes derives its result, seen through `bare`. -/
def SoundAt (o : ParseOptions) (n : Nat) (p : Parser α) (bare : α → β) (G : List Lexeme → β → Prop) : Prop :=
  ∀ ⦃s part s'⦄, s.Valid → s.At o n → p s = .ok part s' → ∃ ls, G ls (bare part) ∧ Consumes ls s s'

/-- The production takes each derivation, unless it is followed by a token that could continue it. -/
def CompleteAt (o : ParseOptions) (n : Nat) (p : Parser α) (bare : α → β) (G : List Lexeme → β → Prop)
    (avoid : List TokenKind) : Prop :=
  ∀ ⦃s ls part rest⦄, s.Ready → s.At o n → G ls part → s.remaining = ls ++ rest → nextKind rest ∉ avoid →
    ∃ made s', p s = .ok made s' ∧ bare made = part ∧ Consumes ls s s'

section
variable {o : ParseOptions} {n : Nat} {p : Parser α} {bare : α → β} {G : List Lexeme → β → Prop}
  {kinds avoid : List TokenKind} {close : TokenKind}

theorem levelsLeft_eq_zero_iff : s.levelsLeft = 0 ↔ s.options.depthLimit ≤ s.depth := by
  rw [levelsLeft]
  omega

theorem nested_ok {part : α} :
    nested p s = .ok part s' ↔ s.levelsLeft ≠ 0 ∧ ∃ s₁, p s.deeper = .ok part s₁ ∧
      s' = { s₁ with depth := s₁.depth - 1 } := by
  unfold nested
  rw [get_bind, ne_eq, levelsLeft_eq_zero_iff]
  split_ifs with full
  · simp [full, tooDeep]
  · simp only [bind_ok, set_ok, modify_ok, pure_ok, full, not_false_eq_true, true_and]
    constructor
    · rintro ⟨_, _, rfl, _, s₁, inner, _, _, rfl, rfl, rfl⟩
      exact ⟨s₁, inner, rfl⟩
    · rintro ⟨s₁, inner, rfl⟩
      exact ⟨⟨⟩, _, rfl, part, s₁, inner, ⟨⟩, _, rfl, rfl, rfl⟩

def Deeper (G : Nat → List Lexeme → β → Prop) (n : Nat) (ls : List Lexeme) (part : β) : Prop :=
  ∃ m, n = m + 1 ∧ G m ls part

theorem nested_sound {G : Nat → List Lexeme → β → Prop} (sound : ∀ m, n = m + 1 → SoundAt o m p bare (G m)) :
    SoundAt o n (nested p) bare (Deeper G n) := by
  intro s part s' valid here h
  obtain ⟨room, s₁, inner, rfl⟩ := nested_ok.1 h
  have levels := (levelsLeft_deeper room).trans here.levels
  obtain ⟨ls, derives, consumes⟩ := sound _ levels.symm valid.deeper ⟨here.options, rfl⟩ inner
  exact ⟨ls, ⟨_, levels.symm, derives⟩, consumes.shallower⟩

theorem nested_complete {G : Nat → List Lexeme → β → Prop}
    (complete : ∀ m, n = m + 1 → CompleteAt o m p bare (G m) avoid) :
    CompleteAt o n (nested p) bare (Deeper G n) avoid := by
  rintro s ls part rest ready here ⟨m, rfl, derives⟩ remaining follows
  have room : s.levelsLeft ≠ 0 := by rw [here.levels]; exact Nat.succ_ne_zero m
  have levels := (levelsLeft_deeper room).trans here.levels
  obtain ⟨made, s₁, inner, rfl, consumes⟩ := complete m rfl ready.deeper ⟨here.options, Nat.succ.inj levels⟩ derives
    (s.remaining_deeper.trans remaining) follows
  exact ⟨made, _, nested_ok.2 ⟨room, s₁, inner, rfl⟩, rfl, consumes.shallower⟩

end

end Parser

end QueryPlanner
