import QueryPlanner.Proofs.Parser.EntryAttempts
import QueryPlanner.Proofs.Syntax.Mending

namespace QueryPlanner
open Grammar ParserState
open Lexeme (mark word)

theorem Token.flatMap_written {ts : List Token} (inside : ∀ t ∈ ts, t.kind ≠ .endOfFile) :
    ts.flatMap Token.written = ts.map Token.lexeme := by
  rw [Token.flatMap_written_eq, List.filter_eq_self.2 fun t member => decide_eq_true (inside t member)]

theorem Source.readable_proper (source : Source) : ∀ l ∈ source.readable.flatMap Token.written, l.Proper := by
  have ends : (TokenStream.ofText source.body).Ends := TokenStream.ofText_ends _
  rw [Source.readable, ← TokenStream.lexemes_eq ends]
  exact TokenStream.scan_proper _ _ _

theorem Source.readable_split {source : Source} {front front' back back' : List Token} {t : Token}
    (split : source.readable = front ++ t :: back) (split' : source.readable = front' ++ t :: back') : front' = front := by
  obtain ⟨above, below⟩ := Source.readable_apart split
  have notAbove : t ∉ front := fun member => Nat.lt_irrefl _ (above t member)
  have notBelow : t ∉ back := fun member => Nat.lt_irrefl _ (below t member)
  exact ((List.append_cons_inj_of_notMem notAbove notBelow).1 (split.symm.trans split')).1.symm

namespace TokenStream

def ofList (ts : List Token) (last : Token) : TokenStream := ts.foldr cons (endOfFile last)

variable {ts : List Token} {last : Token}

theorem ofList_ends (inside : ∀ t ∈ ts, t.kind ≠ .endOfFile) (ends : last.kind = .endOfFile) : (ofList ts last).Ends := by
  induction ts with
  | nil => exact ends
  | cons t ts ih => exact ⟨inside t List.mem_cons_self, ih fun u member => inside u (List.mem_cons_of_mem t member)⟩

theorem ofList_isWhole : (ofList ts last).isWhole = true := by
  induction ts with
  | nil => rfl
  | cons t ts ih => exact ih

theorem ofList_tokens : (ofList ts last).tokens = ts ++ [last] := by
  induction ts with
  | nil => rfl
  | cons t ts ih => rw [ofList, List.foldr_cons, tokens, ← ofList, ih, List.cons_append]

end TokenStream

namespace ParserState

def facing (source : Source) (options : ParseOptions) (last : Token) : List Token → ParserState
  | [] => { source, options, token := last, upcoming := .endOfFile last }
  | t :: ts => { source, options, token := t, upcoming := .ofList ts last }

variable {source : Source} {o : ParseOptions} {last : Token} {ts : List Token}

theorem facing_source : (facing source o last ts).source = source := by cases ts <;> rfl

theorem facing_lastToken : (facing source o last ts).lastToken = .startOfFile := by cases ts <;> rfl

theorem facing_stands (inside : ∀ t ∈ ts, t.kind ≠ .endOfFile) (ends : last.kind = .endOfFile) :
    (facing source o last ts).Stands o 0 := by
  cases ts with
  | nil => exact ⟨⟨⟨ends, fun _ => ⟨last, rfl⟩, .inl rfl⟩, fun _ => rfl⟩, rfl, rfl⟩
  | cons t ts =>
      obtain ⟨first, others⟩ := List.forall_mem_cons.1 inside
      exact ⟨⟨⟨TokenStream.ofList_ends others ends, fun found => absurd found first, .inl rfl⟩, fun found => absurd found first⟩,
        rfl, rfl⟩

theorem facing_ahead (inside : ∀ t ∈ ts, t.kind ≠ .endOfFile) (ends : last.kind = .endOfFile) :
    (facing source o last ts).ahead = ts ++ [last] := by
  cases ts with
  | nil => exact if_pos ends
  | cons t ts => rw [ahead, facing, if_neg (inside t List.mem_cons_self), TokenStream.ofList_tokens, List.cons_append]

theorem facing_ready (inside : ∀ t ∈ ts, t.kind ≠ .endOfFile) (ends : last.kind = .endOfFile) (unlimited : o.maxTokens = none) :
    (facing source o last ts).Ready where
  toValid := (facing_stands inside ends).toValid
  whole := by
    cases ts with
    | nil => rfl
    | cons t ts => exact TokenStream.ofList_isWhole
  affordable := by
    rw [(facing_stands inside ends).options]
    exact Parser.allows_of_unlimited unlimited _

theorem facing_remaining (inside : ∀ t ∈ ts, t.kind ≠ .endOfFile) (ends : last.kind = .endOfFile) :
    (facing source o last ts).remaining = ts.map Token.lexeme := by
  rw [(facing_stands inside ends).remaining_eq, facing_ahead inside ends, List.flatMap_append, Token.flatMap_written inside]
  simp [Token.written, ends]

end ParserState

def Lexeme.token (l : Lexeme) : Token := { kind := l.kind, start := 0, stop := 0, line := 0, column := 0, value := l.value }

theorem Lexeme.lexeme_token {l : Lexeme} (valueless : l.kind.isPunctuator = true → l.value = []) : l.token.lexeme = l := by
  unfold Lexeme.token Token.lexeme
  dsimp only
  split_ifs with punctuator
  · rw [← valueless punctuator]
  · rfl

theorem exists_tokens {ls : List Lexeme} (matched : Bracketed ls) {us : List Token}
    (begins : us.map Token.lexeme <+: ls ++ [mark .endOfFile]) :
    ∃ ts last, us <+: ts ++ [last] ∧ ts.map Token.lexeme = ls ∧ (∀ t ∈ ts, t.kind ≠ .endOfFile) ∧ last.kind = .endOfFile := by
  obtain ⟨rest, whole⟩ := begins
  have valueless : ∀ l ∈ rest, l.token.lexeme = l := by
    intro l member
    have member : l ∈ ls ++ [mark .endOfFile] := whole ▸ List.mem_append_right _ member
    obtain inside | last := List.mem_append.1 member
    · exact Lexeme.lexeme_token (matched.proper l inside).2
    · obtain rfl := List.mem_singleton.1 last
      rfl
  have whole : (us ++ rest.map Lexeme.token).map Token.lexeme = ls ++ [mark .endOfFile] := by
    rw [List.map_append, List.map_map, List.map_congr_left (g := id) (f := Token.lexeme ∘ Lexeme.token) valueless, List.map_id,
      whole]
  obtain ⟨ts, ends, split, front, back⟩ := List.map_eq_append_iff.1 whole
  obtain ⟨last, rfl, same⟩ := List.map_eq_singleton_iff.1 back
  refine ⟨ts, last, ⟨_, split⟩, front, fun t member => ?_, congrArg Lexeme.kind same⟩
  exact (matched.proper t.lexeme (front ▸ List.mem_map_of_mem member)).1

/-- With the tokens in front of it an accepted sequence begins, and none with it too. The end of the file counts. -/
def IsFirstImpossible {β : Type} (G : List Lexeme → β → Prop) (tokens : List Token) (t : Token) : Prop :=
  ∃ front back, tokens = front ++ t :: back ∧
    (∃ ls part, (∀ l ∈ ls, l.Proper) ∧ G ls part ∧ front.map Token.lexeme <+: ls ++ [mark .endOfFile]) ∧
    ∀ ls part, G ls part → ¬ (front ++ [t]).map Token.lexeme <+: ls ++ [mark .endOfFile]

namespace Comparison
open QueryPlanner.Parser

variable {α β : Type} {source : Source} {o : ParseOptions} {entry body : Parser α} {G : List Lexeme → β → Prop}
  {d : Diagnostic} {description : Text} {t : Token} {expected : Option Text}

def beyond (o : ParseOptions) (level : Nat) : Comparison where
  limited := o
  free := { o with maxTokens := none, maxDepth := some (max (o.depthLimit + 1) level) }
  sets := True
  locations := rfl
  definitions := rfl
  tokens := rfl
  levels := by
    have := Int.le_max_left (o.depthLimit + 1) level
    simp only [ParseOptions.depthLimit, Option.getD_some] at this ⊢
    omega

theorem entry_unexpected {c : Comparison} {E : Expectation} (unlimited : c.limited.maxTokens = none)
    (opens : entry (start source c.limited) = (expectToken .startOfFile >>= fun _ => body) (start source c.limited))
    (attempt : ∀ s, s.Stands c.limited 0 → c.Attempt E s body body) (failed : parse entry source c.limited = .error d)
    (cause : d.cause = .grammar description t expected) : ∃ s front back, s.Enters source c.limited ∧
      source.readable = front ++ t :: back ∧ E.viable (front.flatMap Token.written) ∧
      ∀ s₂, c.Beside (front ++ [t]) s s₂ → ∀ a s₂', body s₂ ≠ .ok a s₂' := by
  obtain ⟨fault, rfl⟩ | ⟨most, token, text, limit, -⟩ | ⟨s, enters, fails⟩ := entry_fails opens attempt failed
  · cases cause
  · rw [unlimited] at limit
    contradiction
  · cases fails with
    | lexical fault => cases cause
    | overrun token text limit =>
        rw [unlimited] at limit
        contradiction
    | @unexpected front back t' text expected' ahead viable fails =>
        cases cause
        exact ⟨s, front, back, enters, enters.ahead.symm.trans ahead, viable, fails⟩
    | deep => cases cause
    | missing => cases cause

theorem isFirstImpossible_of (depth : β → Nat) {tokens : List Token} (read : source.tokens = .ok tokens) (unlimited : o.maxTokens = none)
    (opens : entry (start source o) = (expectToken .startOfFile >>= fun _ => body) (start source o))
    (attempt : ∀ level s, s.Stands o 0 → (beyond o level).Attempt { viable := Viable G } s body body)
    (complete : ∀ (o' : ParseOptions) s ls part, o'.allowFragmentVariables = o.allowFragmentVariables → s.Ready →
      s.At o' o'.depthLimit.toNat → G ls part → depth part ≤ o'.depthLimit.toNat → s.remaining = ls →
      ∃ made s', body s = .ok made s')
    (mend : ∀ ⦃ls part⦄, G ls part → Mendable G ls) (matched : ∀ ⦃ls part⦄, G ls part → Bracketed ls)
    (failed : parse entry source o = .error d) (cause : d.cause = .grammar description t expected) :
    IsFirstImpossible G tokens t := by
  obtain ⟨s, front, back, enters, split, viable, -⟩ := entry_unexpected (c := beyond o 0) unlimited opens (attempt 0) failed cause
  have ends : (TokenStream.ofText source.body).Ends := TokenStream.ofText_ends _
  have written : front.flatMap Token.written = front.map Token.lexeme := Token.flatMap_written (ends.front split)
  refine ⟨front, back, (Source.readable_of_tokens read).symm.trans split, ?_, fun ls part derives begins => ?_⟩
  · obtain ⟨ls, part, proper, derives, begins⟩ := Viable.proper mend viable fun l member =>
      source.readable_proper l (by rw [split, List.flatMap_append]; exact List.mem_append_left _ member)
    exact ⟨ls, part, proper, derives, written ▸ begins.trans (List.prefix_append _ _)⟩
  · obtain ⟨s, front', back', enters, split', -, refuses⟩ :=
      entry_unexpected (c := beyond o (depth part)) unlimited opens (attempt _) failed cause
    obtain rfl := Source.readable_split split split'
    obtain ⟨ts, last, shared, rfl, inside, ends⟩ := exists_tokens (matched derives) begins
    -- The parser that is allowed more levels would accept the sequence.
    let free := (beyond o (depth part)).free
    have stands : (facing source free last ts).Stands free 0 := facing_stands inside ends
    have here : (facing source free last ts).At free free.depthLimit.toNat := by simpa using at_room stands
    have low : depth part ≤ free.depthLimit.toNat := by
      have := Int.le_max_right (o.depthLimit + 1) (depth part)
      simp only [free, beyond, ParseOptions.depthLimit, Option.getD_some] at this ⊢
      omega
    obtain ⟨made, s', accepts⟩ := complete free _ _ part rfl (facing_ready inside ends rfl) here derives low
      (facing_remaining inside ends)
    have ahead : front' ++ [t] <+: s.ahead := ⟨back', by rw [enters.ahead, split', List.append_assoc, List.singleton_append]⟩
    exact refuses _ ⟨enters.depth ▸ stands, facing_source.trans enters.source.symm, facing_lastToken.trans enters.lastToken.symm,
      ahead, by rwa [facing_ahead inside ends]⟩ made s' accepts

end Comparison

open QueryPlanner.Parser Comparison

/-- Whatever the limit of levels is, a grammar error names the first token that no accepted sequence has there. -/
theorem errors_name_first_impossible {source : Source} {o : ParseOptions} {tokens : List Token} {d : Diagnostic}
    {description : Text} {t : Token} {expected : Option Text} (read : source.tokens = .ok tokens)
    (unlimited : o.maxTokens = none) (cause : d.cause = .grammar description t expected) :
    (Document.parse source o = .error d → IsFirstImpossible (IsDocument o.allowFragmentVariables) tokens t) ∧
    (Value.parse source o = .error d → IsFirstImpossible (IsValue false) tokens t) ∧
    (TypeRef.parse source o = .error d → IsFirstImpossible IsTypeRef tokens t) := by
  refine ⟨fun failed => ?_, fun failed => ?_, fun failed => ?_⟩
  · refine isFirstImpossible_of Document.depth read unlimited document_start
      (fun level s stands => definitionsFrom_attempt trivial .startOfFile stands)
      (fun o' s ls part same ready here derives low remaining => ?_) (fun _ _ => IsDocument.mend) (fun _ _ => IsDocument.bracketed)
      failed cause
    obtain ⟨made, s', run, -⟩ := definitionsFrom_complete .startOfFile ready here (same ▸ derives) low remaining
    exact ⟨made, s', run⟩
  · refine isFirstImpossible_of Value.depth read unlimited rfl
      (fun level s stands => toEnd_attempt (value_reads false 0) stands)
      (fun o' s ls part same ready here derives low remaining => ?_) (fun _ _ => IsValue.mend) (fun _ _ => IsValue.bracketed)
      failed cause
    obtain ⟨made, s', run, -⟩ := toEnd_complete value_complete List.not_mem_nil ready here ⟨derives, low⟩ remaining
    exact ⟨made, s', run⟩
  · refine isFirstImpossible_of TypeRef.depth read unlimited rfl
      (fun level s stands => toEnd_attempt (typeRef_reads 0) stands)
      (fun o' s ls part same ready here derives low remaining => ?_) (fun _ _ derives => ?_) (fun _ _ => IsTypeRef.bracketed)
      failed cause
    · obtain ⟨made, s', run, -⟩ := toEnd_complete typeRef_complete (by decide) ready here ⟨derives, low⟩ remaining
      exact ⟨made, s', run⟩
    · obtain ⟨ls', part, mends, derives, -⟩ := derives.mend
      exact ⟨ls', part, mends, derives, trivial⟩

def Diagnostic.token? (d : Diagnostic) : Option Token :=
  match d.cause with
  | .grammar _ token _ => some token
  | _ => none

theorem Diagnostic.token?_eq_some {d : Diagnostic} {t : Token} :
    d.token? = some t ↔ ∃ description expected, d.cause = .grammar description t expected := by
  unfold token?
  cases d.cause <;> simp

namespace VariableDefault

def source : Source := { body := "query ($v: Int = $w) \x7b a \x7d" }

theorem names_first_impossible : ∃ tokens d description t expected, source.tokens = .ok tokens ∧
    Document.parse source {} = .error d ∧ d.cause = .grammar description t expected ∧ t.start = 17 ∧
    IsFirstImpossible (IsDocument false) tokens t := by
  obtain ⟨tokens, read⟩ := Run.exists_of_isOk (show source.tokens.isOk = true by decide +kernel)
  have named : ((Run.error? (Document.parse source {})).bind Diagnostic.token?).map Token.start = some 17 := by decide +kernel
  simp only [Option.map_eq_some_iff, Option.bind_eq_some_iff, Run.error?_eq_some, Diagnostic.token?_eq_some] at named
  obtain ⟨t, ⟨d, run, description, expected, cause⟩, start⟩ := named
  exact ⟨tokens, d, description, t, expected, read, run, cause, start, (errors_name_first_impossible read rfl cause).1 run⟩

end VariableDefault

end QueryPlanner
