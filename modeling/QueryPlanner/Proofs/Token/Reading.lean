import QueryPlanner.Proofs.Token.Stream
import QueryPlanner.Proofs.Token.Number
import QueryPlanner.Proofs.Token.StringLiteral
import QueryPlanner.Proofs.Token.BlockLiteral

namespace QueryPlanner
open CodeUnit

def IsNameText (text : Text) : Prop :=
  ∃ u rest, text = u :: rest ∧ isNameStart u = true ∧ ∀ v ∈ rest, isNameContinue v = true

instance : DecidablePred IsNameText
  | [] => isFalse nofun
  | u :: rest => decidable_of_iff ((isNameStart u && rest.all isNameContinue) = true) (by simp [IsNameText])

def Lexeme.Proper (l : Lexeme) : Prop :=
  match l.kind with
  | .name => IsNameText l.value
  | .int | .float => Number.IsNumber l.kind l.value
  | .string => l.value.WellFormed
  | .blockString => BlockString.Normal l.value
  | _ => True

theorem Option.of_ite_eq_some {α : Type} {P : α → Prop} {c : Prop} [Decidable c] {a b : α} {other : Option α}
    (h : (if c then some a else other) = some b) (here : c → P a) (there : other = some b → P b) : P b := by
  split_ifs at h with found
  · exact Option.some.inj h ▸ here found
  · exact there h

theorem TokenKind.isPunctuator_of_ofUnit? {u : CodeUnit} {kind : TokenKind} (h : ofUnit? u = some kind) :
    kind.isPunctuator = true := by
  unfold ofUnit? at h
  iterate 14 refine Option.of_ite_eq_some (P := fun kind => kind.isPunctuator = true) h (fun _ => rfl) fun h => ?_
  contradiction

theorem Token.proper_of_punctuator {t : Token} (punctuator : t.kind.isPunctuator = true) : t.lexeme.Proper := by
  have kind : t.lexeme.kind = t.kind := rfl
  unfold Lexeme.Proper
  cases same : t.kind <;> simp only [same, kind] at punctuator ⊢ <;> contradiction

theorem Token.proper_of_number {t : Token} (number : Number.IsNumber t.kind t.value) : t.lexeme.Proper := by
  obtain kind | kind := number.kind <;>
  · rw [kind] at number
    unfold Lexeme.Proper Token.lexeme
    simp only [kind]
    exact number

namespace Scan

variable {text rest : Text} {c : Cursor} {step : Step}

theorem lexeme_proper (h : lexeme text c = .ok step) : step.token.lexeme.Proper := by
  unfold lexeme at h
  split at h
  · obtain rfl := Except.ok.inj h
    trivial
  · obtain rfl := Except.ok.inj h
    trivial
  · obtain ⟨literal, read, h⟩ := Run.except_bind_ok.1 h
    obtain rfl := Except.ok.inj h
    exact BlockLiteral.characters_normal read ⟨nofun, Text.WellFormed.nil, nofun⟩
  · rename_i u rest _ _
    split_ifs at h with hash quoted digit letter
    · obtain rfl := Except.ok.inj h
      trivial
    · obtain ⟨literal, read, h⟩ := Run.except_bind_ok.1 h
      obtain rfl := Except.ok.inj h
      exact StringLiteral.scan_wellFormed read
    · obtain ⟨⟨kind, part⟩, read, h⟩ := Run.except_bind_ok.1 h
      obtain rfl := Except.ok.inj h
      exact Token.proper_of_number (Number.scan_sound read).1
    · obtain rfl := Except.ok.inj h
      exact ⟨u, _, rfl, letter, fun v member => List.mem_takeWhile_imp member⟩
    · split at h
      · rename_i found
        obtain rfl := Except.ok.inj h
        exact Token.proper_of_punctuator (TokenKind.isPunctuator_of_ofUnit? found)
      · contradiction

end Scan

theorem TokenStream.scan_proper (fuel : Nat) (text : Text) (c : Cursor) : ∀ l ∈ (scan fuel text c).lexemes, l.Proper := by
  induction fuel generalizing text c with
  | zero => exact List.forall_mem_nil _
  | succ fuel ih =>
      cases read : Scan.next text c with
      | error fault =>
          rw [scan, read]
          exact List.forall_mem_nil _
      | ok step =>
          by_cases last : step.token.kind = .endOfFile
          · rw [scan_endOfFile read last]
            exact List.forall_mem_nil _
          · by_cases comment : step.token.kind = .comment
            · rw [scan_comment read comment]
              exact ih _ _
            · rw [scan_token read last comment]
              exact List.forall_mem_cons.2 ⟨Scan.lexeme_proper read, ih _ _⟩

theorem Source.lexemes_proper {source : Source} {ls : List Lexeme} (read : source.lexemes = .ok ls) :
    ∀ l ∈ ls, l.Proper := by
  obtain ⟨-, rfl⟩ := Source.lexemes_ok.1 read
  exact TokenStream.scan_proper _ _ _

structure ReadsToken (text : Text) (l : Lexeme) (rest : Text) : Prop where
  next : ∀ c, ∃ step, Scan.next text c = .ok step ∧ step.token.lexeme = l ∧ step.rest = rest
  kind : l.kind ≠ .endOfFile ∧ l.kind ≠ .comment
  shorter : rest.length < text.length

inductive Reads : Text → List Lexeme → Text → Prop
  | nil (text : Text) : Reads text [] text
  | cons {text mid rest : Text} {l : Lexeme} {ls : List Lexeme} : ReadsToken text l mid → Reads mid ls rest →
      Reads text (l :: ls) rest

namespace Reads

variable {text mid rest : Text} {ls ls' : List Lexeme}

theorem trans (first : Reads text ls mid) (second : Reads mid ls' rest) : Reads text (ls ++ ls') rest := by
  induction first with
  | nil => exact second
  | cons token _ ih => exact .cons token (ih second)

theorem one {l : Lexeme} (token : ReadsToken text l rest) : Reads text [l] rest := .cons token (.nil rest)

theorem scan (reads : Reads text ls []) {fuel : Nat} (c : Cursor) (enough : text.length < fuel) :
    (TokenStream.scan fuel text c).isWhole = true ∧ (TokenStream.scan fuel text c).lexemes = ls := by
  generalize nothing : ([] : Text) = rest at reads
  induction reads generalizing fuel c with
  | nil text =>
      subst nothing
      obtain ⟨fuel, rfl⟩ := Nat.exists_eq_succ_of_ne_zero (Nat.ne_of_gt enough)
      exact ⟨rfl, rfl⟩
  | @cons text mid rest l ls token _ ih =>
      obtain ⟨fuel, rfl⟩ := Nat.exists_eq_succ_of_ne_zero (Nat.ne_of_gt (Nat.zero_lt_of_lt enough))
      obtain ⟨step, read, rfl, rfl⟩ := token.next c
      have enough : step.rest.length < fuel := Nat.lt_of_lt_of_le token.shorter (Nat.le_of_lt_succ enough)
      obtain ⟨whole, lexemes⟩ := ih step.cursor enough nothing
      rw [TokenStream.scan_token read token.kind.1 token.kind.2]
      exact ⟨whole, congrArg (step.token.lexeme :: ·) lexemes⟩

theorem source_lexemes {source : Source} (reads : Reads source.body ls []) : source.lexemes = .ok ls :=
  Source.lexemes_ok.2 (reads.scan Cursor.start (Nat.lt_succ_self _))

end Reads

def IsSolid (u : CodeUnit) : Prop := u.isLineEnd = false ∧ Scan.isIgnored u = false

namespace ReadsToken

variable {text after : Text} {u : CodeUnit} {l : Lexeme} {rest : Text}

theorem skipIgnored_of_solid (solid : IsSolid u) (rest : Text) (c : Cursor) :
    Scan.skipIgnored (u :: rest) c = (u :: rest, c) := by
  obtain ⟨inside, kept⟩ := solid
  simp only [isLineEnd, Bool.or_eq_false_iff, beq_eq_false_iff_ne] at inside
  rw [Scan.skipIgnored.eq_4]
  · rw [kept]
    rfl
  · exact inside.1
  · exact fun _ back _ => inside.2 back
  · exact inside.2

theorem ofLexeme (solid : IsSolid u) (kind : l.kind ≠ .endOfFile ∧ l.kind ≠ .comment)
    (shorter : rest.length < (u :: text).length)
    (read : ∀ c, ∃ step, Scan.lexeme (u :: text) c = .ok step ∧ step.token.lexeme = l ∧ step.rest = rest) :
    ReadsToken (u :: text) l rest where
  next c := by
    rw [Scan.next, skipIgnored_of_solid solid]
    exact read c
  kind := kind
  shorter := shorter

theorem ignored (token : ReadsToken text l rest) (skipped : u = lineFeed ∨ u = space ∨ u = 0x2c) :
    ReadsToken (u :: text) l rest where
  next c := by
    obtain rfl | rfl | rfl := skipped
    · exact token.next (c.newLine 1)
    · exact token.next (c.advance 1)
    · exact token.next (c.advance 1)
  kind := token.kind
  shorter := Nat.lt_succ_of_lt token.shorter

theorem unit {kind : TokenKind} (found : TokenKind.ofUnit? u = some kind) (after : Text) :
    ReadsToken (u :: after) (.mark kind) after := by
  have solid : IsSolid u ∧ ∀ c, Scan.lexeme (u :: after) c = .ok ⟨c.token kind 1 [], after, c.advance 1⟩ := by
    -- Each of the fourteen punctuators is read by computation.
    unfold TokenKind.ofUnit? at found
    iterate 14
      refine Option.of_ite_eq_some (P := fun kind => IsSolid u ∧ ∀ c, Scan.lexeme (u :: after) c =
        .ok ⟨c.token kind 1 [], after, c.advance 1⟩) found ?_ fun found => ?_
      · rintro rfl
        exact ⟨⟨rfl, rfl⟩, fun _ => rfl⟩
    contradiction
  have punctuator := TokenKind.isPunctuator_of_ofUnit? found
  refine ofLexeme solid.1 ⟨?_, ?_⟩ (Nat.lt_succ_self _) fun c => ⟨_, solid.2 c, ?_, rfl⟩
  · rintro rfl; contradiction
  · rintro rfl; contradiction
  · rw [Token.lexeme, Cursor.token]
    dsimp only
    rw [if_pos punctuator, Lexeme.mark]

theorem spread (after : Text) : ReadsToken (0x2e :: 0x2e :: 0x2e :: after) (.mark .spread) after :=
  ofLexeme ⟨rfl, rfl⟩ (by decide) (by simp only [List.length_cons]; omega) fun c => ⟨_, rfl, rfl, rfl⟩

theorem mark {kind : TokenKind} (punctuator : kind.isPunctuator = true) (after : Text) :
    ReadsToken (kind.text ++ after) (.mark kind) after := by
  cases kind
  case spread => exact spread after
  all_goals first | contradiction | exact unit rfl after

theorem isSolid_of_isNameContinue (inside : isNameContinue u = true) : IsSolid u := by
  have ignored : Scan.isIgnored u = false := by
    by_contra ignored
    simp only [Bool.not_eq_false, Scan.isIgnored, isBlank, Scan.isByteOrderMark, Bool.or_eq_true, beq_iff_eq] at ignored
    obtain ((rfl | rfl) | rfl) | rfl := ignored <;> contradiction
  have line : u.isLineEnd = false := by
    by_contra ends
    simp only [Bool.not_eq_false, isLineEnd, Bool.or_eq_true, beq_iff_eq] at ends
    obtain rfl | rfl := ends <;> contradiction
  exact ⟨line, ignored⟩

theorem not_digit_of_isNameStart (first : isNameStart u = true) : (isDigit u || u == 0x2d) = false := by
  rw [Bool.or_eq_false_iff]
  constructor
  · simp only [isNameStart, isDigit, Bool.or_eq_true, Bool.and_eq_true, decide_eq_true_eq, beq_iff_eq,
      Bool.and_eq_false_iff, decide_eq_false_iff_not, UInt16.le_iff_toNat_le, ← UInt16.toNat_inj, UInt16.reduceToNat] at first ⊢
    omega
  · rw [beq_eq_false_iff_ne]
    rintro rfl
    contradiction

theorem word {name : Text} (isName : IsNameText name) (ends : after.Stops isNameContinue) :
    ReadsToken (name ++ after) (.word name) after := by
  obtain ⟨u, rest, rfl, first, all⟩ := isName
  have apart (v : CodeUnit) (other : isNameStart v = false) : u ≠ v := by
    rintro rfl
    rw [first] at other
    contradiction
  have read (c : Cursor) : Scan.lexeme (u :: (rest ++ after)) c =
      .ok ⟨c.token .name (rest.length + 1) (u :: rest), after, c.advance (rest.length + 1)⟩ := by
    rw [Scan.lexeme.eq_4 _ _ _ (fun _ dot _ => apart 0x2e rfl dot) fun _ quote _ => apart 0x22 rfl quote,
      if_neg (apart 0x23 rfl), if_neg (apart 0x22 rfl), if_neg (by simp [not_digit_of_isNameStart first]), if_pos first,
      Text.takeWhile_append_of_stops all ends, Text.dropWhile_append_of_stops all ends]
    rfl
  have solid := isSolid_of_isNameContinue (u := u) (by rw [isNameContinue, first, Bool.true_or])
  have shorter : after.length < (u :: (rest ++ after)).length := by
    rw [List.length_cons, List.length_append]
    omega
  exact ofLexeme solid (by simp [Lexeme.word]) shorter fun c => ⟨_, read c, rfl, rfl⟩

theorem number {kind : TokenKind} {number : Text} (isNumber : Number.IsNumber kind number) (ends : Number.Ends after) :
    ReadsToken (number ++ after) ⟨kind, number⟩ after := by
  obtain ⟨u, rest, rfl, first⟩ := isNumber.cons
  have apart (v : CodeUnit) (other : (isDigit v || v == 0x2d) = false) : u ≠ v := by
    rintro rfl
    rw [first] at other
    contradiction
  have kinds := isNumber.kind
  have read (c : Cursor) : Scan.lexeme (u :: (rest ++ after)) c =
      .ok ⟨c.token kind (rest.length + 1) (u :: rest), after, c.advance (rest.length + 1)⟩ := by
    have scanned : Number.scan c.offset (u :: (rest ++ after)) = .ok (kind, ⟨u :: rest, after⟩) :=
      Number.scan_complete isNumber ends
    rw [Scan.lexeme.eq_4 _ _ _ (fun _ dot _ => apart 0x2e rfl dot) fun _ quote _ => apart 0x22 rfl quote,
      if_neg (apart 0x23 rfl), if_neg (apart 0x22 rfl), if_pos first, scanned]
    rfl
  have solid : IsSolid u := by
    rw [Bool.or_eq_true, beq_iff_eq] at first
    obtain digit | rfl := first
    · exact isSolid_of_isNameContinue (by rw [isNameContinue, digit, Bool.or_true])
    · exact ⟨rfl, rfl⟩
  have shorter : after.length < (u :: (rest ++ after)).length := by
    rw [List.length_cons, List.length_append]
    omega
  refine ofLexeme solid ?_ shorter fun c => ⟨_, read c, ?_, rfl⟩
  · obtain rfl | rfl := kinds <;> simp
  · obtain rfl | rfl := kinds <;> rfl

theorem string {value : Text} (wellFormed : value.WellFormed) (ends : after.Stops (· == quote)) :
    ReadsToken (Quoted.literal value ++ after) ⟨.string, value⟩ after := by
  have written : Quoted.literal value ++ after = quote :: (value.flatMap Quoted.escapeLiteralUnit ++ quote :: after) := by
    simp [Quoted.literal, Quoted.enclose]
  have single (t : Text) : value.flatMap Quoted.escapeLiteralUnit ++ quote :: after ≠ quote :: quote :: t := by
    cases value with
    | nil =>
        rintro ⟨⟩
        exact absurd (ends quote rfl) (by decide)
    | cons u rest =>
        obtain ⟨first, more, written, other⟩ := StringLiteral.escapeLiteralUnit_cons u
        rw [List.flatMap_cons, written]
        exact fun same => other (List.cons.inj same).1
  rw [written]
  refine ofLexeme ⟨rfl, rfl⟩ (by simp) ?_ fun c => ?_
  · simp only [List.length_cons, List.length_append]
    omega
  · obtain ⟨stop, scanned⟩ := StringLiteral.scan_literal c.offset wellFormed after
    refine ⟨⟨c.token .string (stop - c.offset) value, after, c.advance (stop - c.offset)⟩, ?_, rfl, rfl⟩
    rw [Scan.lexeme.eq_4 _ _ _ (fun _ dot _ => absurd dot (by decide)) fun t _ same => single t same,
      if_neg (by decide), if_pos rfl, scanned]
    rfl

theorem blockLiteral {text : Text} (whole : text.WellFormed) (closable : BlockString.Closable text) (after : Text) :
    ReadsToken (BlockString.tripleQuote ++ (BlockString.escape text ++ (BlockString.tripleQuote ++ after)))
      ⟨.blockString, BlockString.ofLines text.lines⟩ after := by
  have shorter : after.length < (BlockString.tripleQuote ++
      (BlockString.escape text ++ (BlockString.tripleQuote ++ after))).length := by
    simp only [List.length_append, BlockString.quotes_text, List.length_cons]
    omega
  have read (c : Cursor) : BlockLiteral.Yields (BlockLiteral.scan c.offset c.lineStart
      (BlockString.escape text ++ (BlockString.tripleQuote ++ after))) (BlockString.ofLines text.lines) after :=
    BlockLiteral.characters_escape whole closable
  generalize BlockString.escape text ++ (BlockString.tripleQuote ++ after) = body at shorter read ⊢
  rw [BlockString.quotes_text] at shorter ⊢
  refine ofLexeme ⟨rfl, rfl⟩ (by simp) shorter fun c => ?_
  obtain ⟨stop, lineEnds, lineStart, scanned⟩ := read c
  refine ⟨⟨c.token .blockString (stop - c.offset) (BlockString.ofLines text.lines), after, ⟨stop, c.line + lineEnds, lineStart⟩⟩,
    ?_, rfl, rfl⟩
  change Scan.lexeme (quote :: quote :: quote :: body) c = _
  rw [Scan.lexeme, scanned]
  rfl

theorem blockString {value : Text} (normal : BlockString.Normal value) (n : Nat) (after : Text) :
    ReadsToken (Text.shift n (BlockString.render value) ++ after) ⟨.blockString, value⟩ after := by
  obtain ⟨inner, whole, closable, written, rfl⟩ := BlockLiteral.shift_render normal n
  rw [written, List.append_assoc, List.append_assoc]
  exact blockLiteral whole closable after

end ReadsToken

end QueryPlanner
