import QueryPlanner.Document.Printer
import QueryPlanner.Proofs.Token.Surrogates

namespace QueryPlanner
open CodeUnit

namespace Text

inductive SameHalves : Text → Text → Prop
  | nil : SameHalves [] []
  | half {u : CodeUnit} {a b : Text} : u.isScalar = false → SameHalves a b → SameHalves (u :: a) (u :: b)
  | run {s t a b : Text} : s ≠ [] → t ≠ [] → (∀ u ∈ s, u.isScalar = true) → (∀ u ∈ t, u.isScalar = true) →
      SameHalves a b → SameHalves (s ++ a) (t ++ b)

variable {u v : CodeUnit} {a b text : Text}

theorem wellFormed_append_right_iff (all : ∀ u ∈ a, u.isScalar = true) : (a ++ b).WellFormed ↔ b.WellFormed :=
  ⟨.of_append_scalars all, (WellFormed.of_all all).append⟩

theorem wellFormed_append_left_iff (all : ∀ u ∈ b, u.isScalar = true) : (a ++ b).WellFormed ↔ a.WellFormed := by
  refine ⟨fun whole => ?_, fun front => front.append (.of_all all)⟩
  cases b with
  | nil => rwa [List.append_nil] at whole
  | cons u b => exact (whole.around (all u List.mem_cons_self)).1

theorem wellFormed_cons_half (half : u.isScalar = false) :
    WellFormed (u :: text) ↔ ∃ (v : CodeUnit) (rest : Text), text = v :: rest ∧ isPair u v = true ∧ rest.WellFormed := by
  constructor
  · intro whole
    cases whole.characters with
    | scalar single => simp [half] at single
    | pair both => exact ⟨_, _, rfl, both, (WellFormed.pair both).1 whole⟩
  · rintro ⟨v, rest, rfl, both, behind⟩
    exact (WellFormed.pair both).2 behind

theorem not_wellFormed_half_run (half : u.isScalar = false) (some : a ≠ []) (all : ∀ v ∈ a, v.isScalar = true) :
    ¬ WellFormed (u :: (a ++ b)) := by
  obtain ⟨v, others, rfl⟩ := List.exists_cons_of_ne_nil some
  intro whole
  obtain ⟨w, rest, same, both, -⟩ := (wellFormed_cons_half half).1 whole
  obtain ⟨rfl, -⟩ := List.cons.inj same
  have single := all v List.mem_cons_self
  rw [(isScalar_of_pair both).2] at single
  contradiction

theorem SameHalves.wellFormed_iff (same : SameHalves a b) : a.WellFormed ↔ b.WellFormed := by
  suffices (a.WellFormed ↔ b.WellFormed) ∧ ∀ u, u.isScalar = false → (WellFormed (u :: a) ↔ WellFormed (u :: b)) from
    this.1
  -- A half in front of the texts is paired with the same half, or with none.
  induction same with
  | nil => exact ⟨.rfl, fun _ _ => .rfl⟩
  | @half u a b half _ ih =>
      refine ⟨ih.2 u half, fun v before => ?_⟩
      simp only [wellFormed_cons_half before, List.cons.injEq]
      constructor <;>
      · rintro ⟨_, _, ⟨rfl, rfl⟩, both, behind⟩
        exact ⟨_, _, ⟨rfl, rfl⟩, both, by simpa only [ih.1] using behind⟩
  | @run s t a b some some' all all' _ ih =>
      refine ⟨?_, fun v before => ?_⟩
      · rw [wellFormed_append_right_iff all, wellFormed_append_right_iff all', ih.1]
      · exact iff_of_false (not_wellFormed_half_run before some all) (not_wellFormed_half_run before some' all')

end Text

namespace Quoted

theorem shortEscape?_isScalar {u letter : CodeUnit} (short : shortEscape? u = some letter) : letter.isScalar = true := by
  unfold shortEscape? at short
  split_ifs at short with b t n f r self <;> obtain rfl := Option.some.inj short
  any_goals rfl
  obtain rfl | rfl := self <;> rfl

theorem hexEscape_isScalar {u : CodeUnit} (low : u.toNat < 160) : ∀ v ∈ hexEscape true u, v.isScalar = true := by
  obtain ⟨length, -, -, read⟩ := StringLiteral.fourDigits?_hex u.toNat low
  obtain ⟨digits, after, written, four, isHex⟩ := StringLiteral.fourDigits?_iff.1 read
  rw [written, List.length_append, four] at length
  obtain rfl : after = [] := List.length_eq_zero_iff.1 (by omega)
  rw [StringLiteral.hexEscape_eq, written, List.append_nil]
  exact List.forall_mem_cons.2 ⟨rfl, List.forall_mem_cons.2 ⟨rfl, isHex.isScalar⟩⟩

theorem escapeLiteralUnit_isScalar {u : CodeUnit} (single : u.isScalar = true) :
    escapeLiteralUnit u ≠ [] ∧ ∀ v ∈ escapeLiteralUnit u, v.isScalar = true := by
  unfold escapeLiteralUnit
  cases short : shortEscape? u with
  | some letter =>
      exact ⟨List.cons_ne_nil _ _, List.forall_mem_cons.2 ⟨rfl, List.forall_mem_singleton.2 (shortEscape?_isScalar short)⟩⟩
  | none =>
      dsimp only
      split_ifs with control
      · refine ⟨?_, hexEscape_isScalar (StringLiteral.lt_of_control control)⟩
        rw [StringLiteral.hexEscape_eq]
        exact List.cons_ne_nil _ _
      · exact ⟨List.cons_ne_nil _ _, List.forall_mem_singleton.2 single⟩

theorem escapeLiteral_sameHalves (text : Text) : Text.SameHalves (text.flatMap escapeLiteralUnit) text := by
  induction text with
  | nil => exact .nil
  | cons u rest ih =>
      rw [List.flatMap_cons]
      cases half : u.isScalar with
      | false =>
          rw [StringLiteral.escapeLiteralUnit_of_surrogate half]
          exact .half half ih
      | true =>
          obtain ⟨some, all⟩ := escapeLiteralUnit_isScalar half
          exact .run (t := [u]) some (List.cons_ne_nil _ _) all (List.forall_mem_singleton.2 half) ih

theorem literal_wellFormed_iff (text : Text) : (literal text).WellFormed ↔ text.WellFormed := by
  have mark : ∀ u ∈ [quote], u.isScalar = true := List.forall_mem_singleton.2 rfl
  have written : literal text = [quote] ++ (text.flatMap escapeLiteralUnit ++ [quote]) := rfl
  rw [written, Text.wellFormed_append_right_iff mark, Text.wellFormed_append_left_iff mark,
    (escapeLiteral_sameHalves text).wellFormed_iff]

end Quoted

namespace BlockString

variable {text : Text}

theorem escape_sameHalves (text : Text) : Text.SameHalves (escape text) text := by
  fun_induction escape text with
  | case1 rest ih =>
      exact .run (t := [quote, quote, quote]) (by decide) (List.cons_ne_nil _ _) (List.all_eq_true.1 (by decide))
        (List.all_eq_true.1 (by decide)) ih
  | case2 u rest _ ih =>
      cases half : u.isScalar with
      | false => exact .half half ih
      | true =>
          have all : ∀ v ∈ [u], v.isScalar = true := List.forall_mem_singleton.2 half
          exact .run (List.cons_ne_nil u []) (List.cons_ne_nil u []) all all ih
  | case3 => exact .nil

theorem enclosed_eq (leading trailing : Bool) (text : Text) : enclosed leading trailing text = tripleQuote ++
    (escape ((if leading then [lineFeed] else []) ++ text ++ if trailing then [lineFeed] else []) ++ tripleQuote) := by
  have above (a : Text) : escape ((if leading then [lineFeed] else []) ++ a) =
      (if leading then [lineFeed] else []) ++ escape a := by
    cases leading with
    | false => rfl
    | true => exact escape_cons_of_ne (by decide)
  have below (a : Text) : escape (a ++ if trailing then [lineFeed] else []) =
      escape a ++ if trailing then [lineFeed] else [] := by
    cases trailing with
    | false => simp
    | true => exact escape_append_of_ne (by decide)
  rw [enclosed, below, above]
  simp only [List.append_assoc]

theorem render_eq (text : Text) : ∃ inner : Text, (inner.WellFormed ↔ text.WellFormed) ∧ Closable inner ∧
    render text = tripleQuote ++ (escape inner ++ tripleQuote) := by
  obtain ⟨leading, trailing, written, closable⟩ : ∃ leading trailing, render text = enclosed leading trailing text ∧
      (trailing = false → leading = false ∧ Closable text) := by
    by_cases short : (escape text).lines.length = 1
    · obtain ⟨leading, trailing, written, closable, -⟩ := render_single short
      exact ⟨leading, trailing, written, closable⟩
    · have some : 0 < (escape text).lines.length := List.length_pos_iff.2 (Text.linesFrom_ne_nil [] _)
      exact ⟨true, true, render_several (by omega), nofun⟩
  have feeds (present : Bool) : ∀ u ∈ if present then [lineFeed] else [], u.isScalar = true := by
    cases present with
    | false => exact List.forall_mem_nil _
    | true => exact List.forall_mem_singleton.2 rfl
  refine ⟨_, ?_, ?_, written.trans (enclosed_eq leading trailing text)⟩
  · rw [Text.wellFormed_append_left_iff (feeds trailing), Text.wellFormed_append_right_iff (feeds leading)]
  · cases trailing with
    | false =>
        obtain ⟨rfl, closable⟩ := closable rfl
        simpa using closable
    | true =>
        rw [if_pos rfl, Closable, List.getLast?_concat]
        decide

theorem render_wellFormed_iff (text : Text) : (render text).WellFormed ↔ text.WellFormed := by
  obtain ⟨inner, whole, -, written⟩ := render_eq text
  have quotes : ∀ u ∈ tripleQuote, u.isScalar = true := by
    rw [quotes_text]
    exact List.all_eq_true.1 (by decide)
  rw [written, Text.wellFormed_append_right_iff quotes, Text.wellFormed_append_left_iff quotes,
    (escape_sameHalves inner).wellFormed_iff, whole]

end BlockString

def Source.IsOneToken (source : Source) (kind : TokenKind) (value : Text) : Prop :=
  ∃ t eof, source.tokens = .ok [t, eof] ∧ t.kind = kind ∧ t.value = value ∧ eof.kind = .endOfFile

theorem ReadsToken.proper {text rest : Text} {l : Lexeme} (token : ReadsToken text l rest) : l.Proper := by
  obtain ⟨step, next, rfl, -⟩ := token.next Cursor.start
  exact Scan.lexeme_proper next

theorem ReadsToken.isOneToken {text value : Text} {kind : TokenKind} (valued : kind.isPunctuator = false)
    (token : ReadsToken text ⟨kind, value⟩ []) (name : Text) : Source.IsOneToken ⟨text, name⟩ kind value := by
  obtain ⟨step, next, lexeme, behind⟩ := token.next Cursor.start
  obtain rfl : step.token.kind = kind := congrArg Lexeme.kind lexeme
  have same := congrArg Lexeme.value lexeme
  rw [Token.lexeme, valued] at same
  have fuel : text.length = text.length - 1 + 1 := (Nat.sub_add_cancel token.shorter).symm
  refine ⟨step.token, step.cursor.token .endOfFile 0 [], Source.tokens_ok.2 ?_, rfl, same, rfl⟩
  rw [TokenStream.ofText, TokenStream.scan_token next token.kind.1 token.kind.2, behind, fuel]
  rfl

theorem Value.isOneToken_string {text : Text} (whole : text.WellFormed) (loc : Option Location) (name : Text) :
    Source.IsOneToken ⟨(Value.string text false loc).render, name⟩ .string text := by
  have token : ReadsToken (Quoted.literal text ++ []) ⟨.string, text⟩ [] := .string whole .nil
  rw [List.append_nil] at token
  exact token.isOneToken rfl name

theorem Value.isOneToken_blockString {text : Text} (whole : text.WellFormed) (loc : Option Location) (name : Text) :
    ∃ value, Source.IsOneToken ⟨(Value.string text true loc).render, name⟩ .blockString value ∧
      Source.IsOneToken ⟨(Value.string value true loc).render, name⟩ .blockString value := by
  obtain ⟨inner, same, closable, written⟩ := BlockString.render_eq text
  have token := ReadsToken.blockLiteral (same.2 whole) closable []
  rw [List.append_nil, ← written] at token
  -- The value is that of a block string, whatever has been printed.
  have again := ReadsToken.blockString token.proper 0 []
  rw [Text.shift_zero, List.append_nil] at again
  exact ⟨_, token.isOneToken rfl name, again.isOneToken rfl name⟩

/-- A text without halves of pairs is printed as one token, also where it is none that a block string stands for. -/
theorem printed_string_is_one_token (text : Text) (loc : Option Location) (name : Text) :
    (text.WellFormed → Source.IsOneToken ⟨(Value.string text false loc).render, name⟩ .string text ∧
      ∃ value, Source.IsOneToken ⟨(Value.string text true loc).render, name⟩ .blockString value ∧
        Source.IsOneToken ⟨(Value.string value true loc).render, name⟩ .blockString value) ∧
    (¬ text.WellFormed → ∀ block, ∃ fault, Source.tokens ⟨(Value.string text block loc).render, name⟩ =
      .error (.lexical ⟨(Value.string text block loc).render, name⟩ fault)) := by
  refine ⟨fun whole => ⟨Value.isOneToken_string whole loc name, Value.isOneToken_blockString whole loc name⟩,
    fun broken block => Source.tokens_of_not_wellFormed ?_⟩
  cases block with
  | false => exact mt (Quoted.literal_wellFormed_iff text).1 broken
  | true => exact mt (BlockString.render_wellFormed_iff text).1 broken

namespace OddBlockString

def text : Text := Text.ofString "\r\n\n  a\"\"\"\"\\"

def printed : Source where
  body := (Value.string text true none).render

example : (printed.tokens.toOption.map fun tokens => tokens.map fun t => (t.kind, t.value)) =
    some [(.blockString, Text.ofString "a\"\"\"\"\\"), (.endOfFile, [])] := by decide +kernel

end OddBlockString

end QueryPlanner
