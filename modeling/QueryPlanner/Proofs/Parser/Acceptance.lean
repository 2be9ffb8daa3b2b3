import QueryPlanner.Proofs.Parser.Definitions
import QueryPlanner.Proofs.Syntax.Levels

namespace QueryPlanner
open Lexeme (mark word)
open Grammar

namespace ParserState

def start (source : Source) (options : ParseOptions) : ParserState := { source, options }

variable {source : Source} {o : ParseOptions}

theorem start_valid : (start source o).Valid where
  ends := TokenStream.ofText_ends _
  last := nofun
  counted := .inl rfl

theorem start_at : (start source o).At o o.depthLimit.toNat := ⟨rfl, by simp [levelsLeft, start]⟩

theorem remaining_start :
    (start source o).remaining = mark .startOfFile :: (TokenStream.ofText source.body).lexemes := rfl

theorem start_ready {ls : List Lexeme} (read : source.lexemes = .ok ls) (allowed : o.allows ls.length) :
    (start source o).Ready where
  toValid := start_valid
  whole := (Source.lexemes_ok.1 read).1
  affordable := by
    obtain ⟨-, rfl⟩ := Source.lexemes_ok.1 read
    simpa [start] using allowed

theorem Consumes.lexemes {ls : List Lexeme} {s : ParserState} (taken : Consumes (mark .startOfFile :: ls) (start source o) s)
    (last : s.token.kind = .endOfFile) : source.lexemes = .ok ls ∧ (ls ≠ [] → o.allows ls.length) := by
  obtain ⟨token, upcoming⟩ := taken.valid.last last
  have nothing := taken.valid.remaining_eq_nil_iff.2 last
  have remaining := taken.remaining
  rw [remaining_start, nothing, List.append_nil, List.cons.injEq] at remaining
  have whole := taken.whole
  rw [upcoming] at whole
  have read : source.lexemes = .ok ls := Source.lexemes_ok.2 ⟨whole.symm, remaining.2⟩
  refine ⟨read, fun some => ?_⟩
  have count := taken.count
  rw [upcoming, TokenStream.lexemes, List.length_nil, Nat.add_zero] at count
  have counted : s.tokenCount = ls.length := by
    rw [count]
    simp [start, remaining.2]
  have allowed := taken.valid.counted
  rw [counted, taken.options] at allowed
  exact allowed.resolve_left (by simpa using some)

end ParserState

namespace Parser
open Run ParserState

variable {α β : Type} {source : Source} {o : ParseOptions} {p : Parser α} {bare : α → β} {G : List Lexeme → β → Prop}
  {kinds avoid : List TokenKind} {n : Nat}

theorem parse_ok {made : α} : parse p source o = .ok made ↔ ∃ s, p (start source o) = .ok made s := by
  unfold parse start
  split <;> simp [*]

def toEnd (inner : Parser α) : Parser α := do
  let result ← inner
  let _ ← expectToken .endOfFile
  return result

theorem whole_eq : whole p = (expectToken .startOfFile >>= fun _ => toEnd p) := rfl

theorem toEnd_complete (complete : CompleteAt o n p bare G avoid) (closing : TokenKind.endOfFile ∉ avoid) {s : ParserState}
    {ls : List Lexeme} {tree : β} (ready : s.Ready) (here : s.At o n) (derives : G ls tree) (remaining : s.remaining = ls) :
    ∃ made s', toEnd p s = .ok made s' ∧ bare made = tree := by
  rw [← List.append_nil ls] at remaining
  obtain ⟨made, s₁, read, rfl, taken⟩ := complete ready here derives remaining closing
  have ready₁ := taken.ready ready
  obtain ⟨s₂, closed, -⟩ := advance_complete ready₁
  have last := ready₁.remaining_eq_nil_iff.1 (taken.rest remaining)
  refine ⟨made, s₂, ?_, rfl⟩
  simp only [toEnd, bind_ok, pure_ok]
  exact ⟨made, s₁, read, _, s₂, expectToken_ok.2 ⟨last, rfl, closed⟩, rfl, rfl⟩

def definitionsFrom (start : Token) : Parser Document := do
  let definitions ← oneOrMore definition .endOfFile
  return ⟨definitions, ← locationFrom start⟩

theorem document_start : document (start source o) =
    (expectToken .startOfFile >>= fun _ => definitionsFrom .startOfFile) (start source o) := by
  unfold document many
  rw [currentToken_bind, bind_assoc]
  rfl

theorem definitionsFrom_complete {s : ParserState} (first : Token) {ls : List Lexeme} {tree : Document} (ready : s.Ready)
    (here : s.At o n) (derives : IsDocument o.allowFragmentVariables ls tree) (low : tree.depth ≤ n)
    (remaining : s.remaining = ls) : ∃ made s', definitionsFrom first s = .ok made s' ∧ made.bare = tree := by
  obtain ⟨derives, some⟩ := derives
  have remaining : s.remaining = ls ++ (TokenKind.endOfFile.written ++ []) := by simpa [TokenKind.written] using remaining
  obtain ⟨made, s₁, read, rfl, -⟩ := oneOrMore_complete .endOfFile (IsDefinition.begins o.allowFragmentVariables).within
    definition_complete (by simp) (by simp) (.inr rfl) ready here (sequence_within.2 ⟨derives, low⟩) some remaining rfl
  refine ⟨⟨made, located s₁ first⟩, s₁, ?_, rfl⟩
  simp only [definitionsFrom, bind_ok, locationFrom_ok, pure_ok]
  exact ⟨made, s₁, read, _, s₁, ⟨rfl, rfl⟩, rfl, rfl⟩

theorem start_opens {ls : List Lexeme} (read : source.lexemes = .ok ls) (allowed : o.allows ls.length) :
    ∃ s, expectToken .startOfFile (start source o) = .ok .startOfFile s ∧ s.Ready ∧ s.At o o.depthLimit.toNat ∧
      s.remaining = ls := by
  have ready := start_ready read allowed
  obtain ⟨-, remaining⟩ := Source.lexemes_ok.1 read
  have remaining : (start source o).remaining = mark .startOfFile :: ls := by rw [remaining_start, remaining]
  obtain ⟨s, opened, taken⟩ := expectToken_complete ready remaining
  exact ⟨s, opened, taken.ready ready, taken.at_iff.2 start_at, taken.rest remaining⟩

theorem whole_accepts_iff (begins : BeginsWith G kinds) (sound : SoundAt o o.depthLimit.toNat p bare G)
    (complete : CompleteAt o o.depthLimit.toNat p bare G avoid) (closing : TokenKind.endOfFile ∉ avoid) {tree : β} :
    (∃ made, parse (whole p) source o = .ok made ∧ bare made = tree) ↔
      ∃ ls, source.lexemes = .ok ls ∧ o.allows ls.length ∧ G ls tree := by
  constructor
  · rintro ⟨made, h, rfl⟩
    obtain ⟨s, h⟩ := parse_ok.1 h
    simp only [whole, bind_ok, pure_ok] at h
    obtain ⟨_, s₁, opened, _, s₂, read, _, s₃, closed, rfl, rfl⟩ := h
    obtain ⟨rfl, kind, t₁⟩ := expectToken_sound start_valid opened
    obtain ⟨ls, derives, t₂⟩ := sound t₁.valid (t₁.at_iff.2 start_at) read
    obtain ⟨rfl, last, -⟩ := expectToken_sound t₂.valid closed
    obtain ⟨tokens, allowed⟩ := (t₁.trans t₂).lexemes last
    exact ⟨ls, tokens, allowed (List.ne_nil_of_length_pos (begins.length_pos derives)), derives⟩
  · rintro ⟨ls, tokens, allowed, derives⟩
    obtain ⟨s₁, opened, ready, here, remaining⟩ := start_opens tokens allowed
    obtain ⟨made, s₂, read, rfl⟩ := toEnd_complete complete closing ready here derives remaining
    exact ⟨made, parse_ok.2 ⟨s₂, by rw [whole_eq, bind_of_ok opened, read]⟩, rfl⟩

theorem document_accepts_iff {tree : Document} :
    (∃ made, parse document source o = .ok made ∧ made.bare = tree) ↔
      ∃ ls, source.lexemes = .ok ls ∧ o.allows ls.length ∧ IsDocument o.allowFragmentVariables ls tree ∧
        tree.depth ≤ o.depthLimit.toNat := by
  have begins := IsDefinition.begins o.allowFragmentVariables
  constructor
  · rintro ⟨made, h, rfl⟩
    obtain ⟨s, h⟩ := parse_ok.1 h
    unfold document many at h
    rw [currentToken_bind] at h
    simp only [bind_ok, locationFrom_ok, pure_ok] at h
    obtain ⟨definitions, s₁, ⟨_, s₂, opened, read⟩, _, _, ⟨rfl, rfl⟩, rfl, rfl⟩ := h
    obtain ⟨rfl, kind, t₁⟩ := expectToken_sound start_valid opened
    obtain ⟨ls, s₃, derives, some, t₂, last, -⟩ := oneOrMore_sound begins.within definition_sound (.inr rfl) t₁.valid
      (t₁.at_iff.2 start_at) read
    obtain ⟨derives, low⟩ := sequence_within.1 derives
    obtain ⟨tokens, allowed⟩ := (t₁.trans t₂).lexemes last
    refine ⟨ls, tokens, allowed ?_, .intro derives some, low⟩
    rintro rfl
    have := derives.length_le begins
    exact some (List.eq_nil_of_length_eq_zero (Nat.le_zero.1 this))
  · rintro ⟨ls, tokens, allowed, derives, low⟩
    obtain ⟨s₁, opened, ready, here, remaining⟩ := start_opens tokens allowed
    obtain ⟨made, s₂, read, rfl⟩ := definitionsFrom_complete .startOfFile ready here derives low remaining
    exact ⟨made, parse_ok.2 ⟨s₂, by rw [document_start, bind_of_ok opened, read]⟩, rfl⟩

theorem allows_of_unlimited (unlimited : o.maxTokens = none) (count : Nat) : o.allows count := by
  intro most limit
  rw [unlimited] at limit
  contradiction

end Parser

open QueryPlanner.Parser

section
variable {source : Source} {o : ParseOptions}

theorem Value.accepts_iff {tree : Value} :
    (∃ made, Value.parse source o = .ok made ∧ made.bare = tree) ↔
      ∃ ls, source.lexemes = .ok ls ∧ o.allows ls.length ∧ IsValue false ls tree ∧ tree.depth ≤ o.depthLimit.toNat :=
  whole_accepts_iff (IsValue.begins false).within value_sound value_complete List.not_mem_nil

theorem TypeRef.accepts_iff {tree : TypeRef} :
    (∃ made, TypeRef.parse source o = .ok made ∧ made.bare = tree) ↔
      ∃ ls, source.lexemes = .ok ls ∧ o.allows ls.length ∧ IsTypeRef ls tree ∧ tree.depth ≤ o.depthLimit.toNat :=
  whole_accepts_iff IsTypeRef.begins.within typeRef_sound typeRef_complete (by decide)

theorem derives_within_iff {α : Type} {G : List Lexeme → α → Prop} {depth : α → Nat} {ls : List Lexeme} {tree : α}
    (shallow : Shallow depth G ls.length) (read : source.lexemes = .ok ls) (unlimited : o.maxTokens = none)
    (levels : (ls.length : Int) < o.depthLimit) :
    (∃ ls, source.lexemes = .ok ls ∧ o.allows ls.length ∧ G ls tree ∧ depth tree ≤ o.depthLimit.toNat) ↔ G ls tree := by
  constructor
  · rintro ⟨ls', read', -, derives, -⟩
    rw [read, Except.ok.injEq] at read'
    rw [read']
    exact derives
  · intro derives
    have low := shallow (Nat.le_refl _) derives
    exact ⟨ls, read, allows_of_unlimited unlimited _, derives, by omega⟩

theorem not_accepts_of_fault {α : Type} {result : Except Diagnostic α} {bare : α → α} {P : List Lexeme → α → Prop}
    {d : Diagnostic} (fault : source.tokens = .error d)
    (accepts : ∀ tree, (∃ made, result = .ok made ∧ bare made = tree) ↔ ∃ ls, source.lexemes = .ok ls ∧ P ls tree) :
    ∀ made, result ≠ .ok made := by
  intro made returned
  obtain ⟨ls, read, -⟩ := (accepts (bare made)).1 ⟨made, returned, rfl⟩
  rw [Source.lexemes, fault] at read
  contradiction

end

/-- Without limits a parser returns a tree exactly if the tokens of the source derive it. -/
theorem parses_iff_derives (source : Source) (o : ParseOptions) :
    (∀ d, source.tokens = .error d → (∀ made, Document.parse source o ≠ .ok made) ∧
      (∀ made, Value.parse source o ≠ .ok made) ∧ ∀ made, TypeRef.parse source o ≠ .ok made) ∧
    ∀ ls, source.lexemes = .ok ls → o.maxTokens = none → (ls.length : Int) < o.depthLimit →
      (∀ tree, (∃ made, Document.parse source o = .ok made ∧ made.bare = tree) ↔
        IsDocument o.allowFragmentVariables ls tree) ∧
      (∀ tree, (∃ made, Value.parse source o = .ok made ∧ made.bare = tree) ↔ IsValue false ls tree) ∧
      ∀ tree, (∃ made, TypeRef.parse source o = .ok made ∧ made.bare = tree) ↔ IsTypeRef ls tree := by
  constructor
  · intro d fault
    exact ⟨not_accepts_of_fault fault fun _ => document_accepts_iff, not_accepts_of_fault fault fun _ => Value.accepts_iff,
      not_accepts_of_fault fault fun _ => TypeRef.accepts_iff⟩
  · intro ls read unlimited levels
    have types : Shallow TypeRef.depth IsTypeRef ls.length := fun _ _ _ derives => isTypeRef_depth_le derives
    exact ⟨fun tree => document_accepts_iff.trans
        (derives_within_iff (isDocument_shallow o.allowFragmentVariables _) read unlimited levels),
      fun tree => Value.accepts_iff.trans (derives_within_iff (isValue_shallow false _) read unlimited levels),
      fun tree => TypeRef.accepts_iff.trans (derives_within_iff types read unlimited levels)⟩

namespace Shorthand

def source : Source := { body := "\x7b a \x7d" }

def tokens : List Lexeme := [mark .braceOpen, word "a", mark .braceClose]

def broken : Source := { body := "\x7b a(b: \"c) \x7d" }

theorem parses_iff_derives_document :
    (source.lexemes = .ok tokens ∧ ∀ tree,
      (∃ made, Document.parse source {} = .ok made ∧ made.bare = tree) ↔ IsDocument false tokens tree) ∧
    ∀ made, Document.parse broken {} ≠ .ok made := by
  have read : source.lexemes = .ok tokens := Source.lexemes_ok.2 (by decide +kernel)
  obtain ⟨d, fault⟩ := Source.tokens_of_not_whole (show (TokenStream.ofText broken.body).isWhole = false by decide +kernel)
  exact ⟨⟨read, ((parses_iff_derives source {}).2 tokens read rfl (by decide)).1⟩,
    ((parses_iff_derives broken {}).1 _ fault).1⟩

end Shorthand

end QueryPlanner
