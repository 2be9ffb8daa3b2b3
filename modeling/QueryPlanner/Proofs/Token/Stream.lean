import QueryPlanner.Proofs.Syntax.Grammar

namespace QueryPlanner

namespace TokenStream

def tokens : TokenStream → List Token
  | endOfFile token => [token]
  | fault _ => []
  | cons token rest => token :: rest.tokens

def lexemes : TokenStream → List Lexeme
  | endOfFile _ | fault _ => []
  | cons token rest => token.lexeme :: rest.lexemes

def isWhole : TokenStream → Bool
  | endOfFile _ => true
  | fault _ => false
  | cons _ rest => rest.isWhole

def Ends : TokenStream → Prop
  | endOfFile token => token.kind = .endOfFile
  | fault _ => True
  | cons token rest => token.kind ≠ .endOfFile ∧ rest.Ends

section
variable {text : Text} {c : Cursor} {step : Scan.Step} (next : Scan.next text c = .ok step) {fuel : Nat}
include next

theorem scan_endOfFile (last : step.token.kind = .endOfFile) : scan (fuel + 1) text c = endOfFile step.token := by
  rw [scan, next]
  simp only [last]

theorem scan_comment (comment : step.token.kind = .comment) :
    scan (fuel + 1) text c = scan fuel step.rest step.cursor := by
  rw [scan, next]
  simp only [comment]

theorem scan_token (more : step.token.kind ≠ .endOfFile) (shown : step.token.kind ≠ .comment) :
    scan (fuel + 1) text c = cons step.token (scan fuel step.rest step.cursor) := by
  rw [scan, next]
  cases kind : step.token.kind <;> simp only [kind] <;> contradiction

end

theorem scan_ends (fuel : Nat) (text : Text) (c : Cursor) : (scan fuel text c).Ends := by
  induction fuel generalizing text c with
  | zero => rfl
  | succ fuel ih =>
      cases next : Scan.next text c with
      | error fault =>
          rw [scan, next]
          trivial
      | ok step =>
          by_cases last : step.token.kind = .endOfFile
          · rw [scan_endOfFile next last]
            exact last
          · by_cases comment : step.token.kind = .comment
            · rw [scan_comment next comment]
              exact ih _ _
            · rw [scan_token next last comment]
              exact ⟨last, ih _ _⟩

theorem length_eq (stream : TokenStream) : stream.length = stream.lexemes.length + if stream.isWhole then 1 else 0 := by
  induction stream with
  | endOfFile _ => rfl
  | fault _ => rfl
  | cons token rest ih => rw [length, ih, lexemes, isWhole, List.length_cons]; omega

theorem ofText_ends (text : Text) : (ofText text).Ends := scan_ends _ _ _

theorem toList_of_whole {stream : TokenStream} (ends : stream.Ends) (whole : stream.isWhole = true) :
    ∃ tokens, stream.toList = .ok tokens ∧ (tokens.filter (·.kind ≠ .endOfFile)).map Token.lexeme = stream.lexemes := by
  induction stream with
  | endOfFile token => exact ⟨[token], rfl, by simp [lexemes, show token.kind = .endOfFile from ends]⟩
  | fault f => contradiction
  | cons token rest ih =>
      obtain ⟨tokens, read, same⟩ := ih ends.2 whole
      refine ⟨token :: tokens, by rw [toList, read]; rfl, ?_⟩
      rw [List.filter_cons_of_pos (by simpa using ends.1), List.map_cons, same, lexemes]

theorem toList_of_not_whole {stream : TokenStream} (broken : stream.isWhole = false) :
    ∃ f, stream.toList = .error f := by
  induction stream with
  | endOfFile token => contradiction
  | fault f => exact ⟨f, rfl⟩
  | cons token rest ih =>
      obtain ⟨f, read⟩ := ih broken
      exact ⟨f, by rw [toList, read]; rfl⟩

end TokenStream

theorem Source.tokens_ok {source : Source} {tokens : List Token} :
    source.tokens = .ok tokens ↔ (TokenStream.ofText source.body).toList = .ok tokens := by
  unfold Source.tokens
  cases (TokenStream.ofText source.body).toList with
  | error f => exact iff_of_false nofun nofun
  | ok found =>
      change Except.ok found = _ ↔ _
      rw [Except.ok.injEq, Except.ok.injEq]

theorem Source.tokens_of_not_whole {source : Source} (broken : (TokenStream.ofText source.body).isWhole = false) :
    ∃ d, source.tokens = .error d := by
  obtain ⟨f, read⟩ := TokenStream.toList_of_not_whole broken
  exact ⟨.lexical source f, by rw [Source.tokens, read]; rfl⟩

theorem Source.lexemes_ok {source : Source} {ls : List Lexeme} :
    source.lexemes = .ok ls ↔
      (TokenStream.ofText source.body).isWhole = true ∧ (TokenStream.ofText source.body).lexemes = ls := by
  rw [Source.lexemes]
  cases whole : (TokenStream.ofText source.body).isWhole with
  | true =>
      obtain ⟨tokens, read, same⟩ := TokenStream.toList_of_whole (TokenStream.ofText_ends _) whole
      rw [Source.tokens, read, ← same]
      change Except.ok _ = Except.ok ls ↔ _
      rw [Except.ok.injEq]
      exact (and_iff_right rfl).symm
  | false =>
      obtain ⟨d, fault⟩ := Source.tokens_of_not_whole whole
      rw [fault]
      change Except.error _ = Except.ok ls ↔ _
      simp

theorem Source.tokens_of_lexemes {source : Source} {ls : List Lexeme} (read : source.lexemes = .ok ls) :
    ∃ tokens, source.tokens = .ok tokens := by
  obtain ⟨tokens, found, -⟩ := TokenStream.toList_of_whole (TokenStream.ofText_ends _) (Source.lexemes_ok.1 read).1
  exact ⟨tokens, Source.tokens_ok.2 found⟩

end QueryPlanner
