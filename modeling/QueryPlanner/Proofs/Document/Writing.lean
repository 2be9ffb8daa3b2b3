import QueryPlanner.Proofs.Token.Reading
import Mathlib.Tactic.Tauto

/-!
# Writing tokens

A text writes some tokens if these are read from it wherever it stands: at every indentation, and in front of anything
that does not continue its last token. Blanks, commas and line feeds stand in front of what they set off.
-/

namespace QueryPlanner
open CodeUnit
open Lexeme (mark word)
open Text (shift spaces joinFilled wrap indent)

def Boundary (after : Text) : Prop := after.Stops fun u => isNameContinue u || u == 0x2e || u == quote

structure Writes (text : Text) (ls : List Lexeme) : Prop where
  reads : ∀ n after, Boundary after → Reads (shift n text ++ after) ls after
  empty : ls = [] → text = []

variable {a b text sep : Text} {ls ls' : List Lexeme}

theorem Boundary.nil : Boundary [] := nofun

theorem Boundary.shift_append (opens : Boundary b) (n : Nat) {after : Text} (ends : Boundary after) :
    Boundary (shift n b ++ after) := by
  cases b with
  | nil => exact ends
  | cons u rest =>
      by_cases feed : u = lineFeed
      · subst feed
        rintro _ ⟨⟩
        rfl
      · rw [Text.shift_cons n rest feed]
        exact fun v first => opens v first

theorem Boundary.append (first : Boundary a) (second : Boundary b) : Boundary (a ++ b) := by
  cases a with
  | nil => exact second
  | cons u rest => exact first

theorem Boundary.mark (kind : TokenKind) (punctuator : kind.isPunctuator = true) (noDots : kind ≠ .spread) (after : Text) :
    Boundary (kind.text ++ after) := by
  cases kind <;> first | contradiction | exact fun _ first => Option.some.inj first ▸ rfl

namespace Writes

theorem nil : Writes [] [] := ⟨fun _ after _ => .nil after, fun _ => rfl⟩

theorem eq_nil_iff (writes : Writes text ls) : text = [] ↔ ls = [] := by
  refine ⟨?_, writes.empty⟩
  rintro rfl
  cases writes.reads 0 [] .nil with
  | nil => rfl
  | cons token _ => exact absurd token.shorter (Nat.not_lt_zero _)

theorem append (first : Writes a ls) (second : Writes b ls') (opens : Boundary b) : Writes (a ++ b) (ls ++ ls') where
  reads n after ends := by
    rw [Text.shift_append, List.append_assoc]
    exact (first.reads n _ (opens.shift_append n ends)).trans (second.reads n after ends)
  empty nothing := by
    rw [List.append_eq_nil_iff] at nothing
    rw [first.empty nothing.1, second.empty nothing.2, List.append_nil]

theorem shift_mark (kind : TokenKind) (n : Nat) : shift n kind.text = kind.text := by
  apply Text.shift_eq_self
  cases kind <;> decide

theorem mark_append (kind : TokenKind) (punctuator : kind.isPunctuator = true) (writes : Writes text ls) :
    Writes (kind.text ++ text) (mark kind :: ls) where
  reads n after ends := by
    rw [Text.shift_append, shift_mark, List.append_assoc]
    exact .cons (.mark punctuator _) (writes.reads n after ends)
  empty := nofun

theorem ofMark (kind : TokenKind) (punctuator : kind.isPunctuator = true) : Writes kind.text [mark kind] := by
  have := mark_append kind punctuator nil
  rwa [List.append_nil] at this

theorem append_mark (writes : Writes text ls) (kind : TokenKind) (punctuator : kind.isPunctuator = true) (noDots : kind ≠ .spread) :
    Writes (text ++ kind.text) (ls ++ [mark kind]) := by
  have opens := Boundary.mark kind punctuator noDots []
  rw [List.append_nil] at opens
  exact writes.append (ofMark kind punctuator) opens

def IsSeparator (sep : Text) : Prop := ∀ u ∈ sep, u = lineFeed ∨ u = space ∨ u = 0x2c

theorem IsSeparator.of_all (all : sep.all (fun u => u == lineFeed || (u == space || u == 0x2c)) = true) : IsSeparator sep := by
  simpa [IsSeparator] using all

theorem reads_separator (separates : IsSeparator sep) {rest : Text} (reads : Reads text ls rest) (some : ls ≠ []) :
    Reads (sep ++ text) ls rest := by
  induction sep with
  | nil => exact reads
  | cons u sep ih =>
      rw [IsSeparator, List.forall_mem_cons] at separates
      cases ih separates.2 with
      | nil => contradiction
      | cons token more => exact .cons (token.ignored separates.1) more

theorem isSeparator_spaces (n : Nat) : IsSeparator (spaces n) :=
  fun _ member => .inr (.inl (List.eq_of_mem_replicate member))

theorem isSeparator_shift (separates : IsSeparator sep) (n : Nat) : IsSeparator (shift n sep) := by
  intro u member
  obtain ⟨v, inside, found⟩ := List.mem_flatMap.1 member
  split at found
  · rw [List.mem_cons] at found
    obtain rfl | blank := found
    · exact separates u inside
    · exact isSeparator_spaces n u blank
  · rw [List.mem_singleton.1 found]
    exact separates v inside

theorem separator_append (separates : IsSeparator sep) (writes : Writes text ls) (some : ls ≠ []) :
    Writes (sep ++ text) ls where
  reads n after ends := by
    rw [Text.shift_append, List.append_assoc]
    exact reads_separator (isSeparator_shift separates n) (writes.reads n after ends) some
  empty nothing := (some nothing).elim

theorem boundary_separator (separates : IsSeparator sep) (more : sep ≠ []) (after : Text) : Boundary (sep ++ after) := by
  cases sep with
  | nil => contradiction
  | cons u rest =>
      rintro _ ⟨⟩
      obtain rfl | rfl | rfl := separates u List.mem_cons_self <;> rfl

theorem append_separated (separates : IsSeparator sep) (more : sep ≠ []) (first : Writes a ls) (second : Writes b ls')
    (some : ls' ≠ []) : Writes (a ++ (sep ++ b)) (ls ++ ls') :=
  first.append (separator_append separates second some) (boundary_separator separates more b)

theorem join_ne_nil {texts : List Text} (filled : ∀ text ∈ texts, text ≠ []) (some : texts ≠ []) :
    Text.join sep texts ≠ [] := by
  unfold Text.join
  cases texts with
  | nil => contradiction
  | cons text rest =>
      have present := filled text List.mem_cons_self
      cases rest with
      | nil => rw [List.intercalate_singleton]; exact present
      | cons _ _ => rw [List.intercalate_cons_cons]; simp [present]

theorem joinFilled_cons (sep text : Text) (texts : List Text) :
    joinFilled sep (text :: texts) =
      if text = [] then joinFilled sep texts
      else if joinFilled sep texts = [] then text else text ++ (sep ++ joinFilled sep texts) := by
  unfold joinFilled
  split_ifs with absent last
  · rw [List.filter_cons_of_neg (by simpa using absent)]
  · rw [List.filter_cons_of_pos (by simpa using absent)]
    have none : texts.filter (· ≠ []) = [] := by
      by_contra some
      exact join_ne_nil (fun text member => by simpa using List.of_mem_filter member) some last
    rw [none, Text.join, List.intercalate_singleton]
  · rw [List.filter_cons_of_pos (by simpa using absent)]
    cases filled : texts.filter (· ≠ []) with
    | nil =>
        rw [filled] at last
        contradiction
    | cons next rest => rw [Text.join, List.intercalate_cons_cons, List.append_assoc]; rfl

theorem joinFilled_nil (sep : Text) : joinFilled sep [] = [] := rfl

theorem join (separates : IsSeparator sep) (more : sep ≠ []) {texts : List Text} (first : Writes a ls)
    (rest : Writes (joinFilled sep texts) ls') : Writes (joinFilled sep (a :: texts)) (ls ++ ls') := by
  rw [joinFilled_cons]
  split_ifs with absent last
  · rw [first.eq_nil_iff.1 absent]
    exact rest
  · rw [rest.eq_nil_iff.1 last, List.append_nil]
    exact first
  · exact append_separated separates more first rest (mt rest.eq_nil_iff.2 last)

theorem indent (writes : Writes text ls) : Writes (indent text) ls := by
  by_cases absent : text = []
  · subst absent
    exact writes
  · rw [Text.indent_eq absent]
    refine ⟨fun n after ends => ?_, fun nothing => absurd (writes.empty nothing) absent⟩
    -- Inside an indented text the indentations add up.
    rw [Text.shift_append, Text.shift_spaces, Text.shift_shift, List.append_assoc]
    exact reads_separator (isSeparator_spaces 2) (writes.reads (n + 2) after ends) (mt writes.eq_nil_iff.2 absent)

theorem wrap_of_ne_nil (present : text ≠ []) (before after : Text) : wrap before text after = before ++ text ++ after :=
  if_neg present

theorem separated (separates : IsSeparator sep) (more : sep ≠ []) (writes : Writes text ls) :
    Writes (wrap sep text []) ls ∧ Boundary (wrap sep text []) := by
  by_cases absent : text = []
  · rw [wrap, if_pos absent]
    exact ⟨(writes.eq_nil_iff.1 absent) ▸ nil, .nil⟩
  · rw [wrap_of_ne_nil absent, List.append_nil]
    exact ⟨separator_append separates writes (mt writes.eq_nil_iff.2 absent), boundary_separator separates more text⟩

theorem leading (separates : IsSeparator sep) (more : sep ≠ []) (first : Writes a ls) (second : Writes b ls')
    (some : ls' ≠ []) : Writes (wrap [] a sep ++ b) (ls ++ ls') := by
  by_cases absent : a = []
  · rw [wrap, if_pos absent, first.eq_nil_iff.1 absent]
    exact second
  · rw [wrap_of_ne_nil absent, List.nil_append, List.append_assoc]
    exact append_separated separates more first second some

theorem enclosed (sep : Text) (opening close : TokenKind) (opens : opening.isPunctuator = true) (closes : close.isPunctuator = true)
    (noDots : close ≠ .spread) (separates : IsSeparator sep) (writes : Writes text ls) (some : sep ≠ [] → ls ≠ []) :
    Writes (opening.text ++ (sep ++ (text ++ (sep ++ close.text)))) (mark opening :: (ls ++ [mark close])) := by
  cases sep with
  | nil => exact mark_append opening opens (append_mark writes close closes noDots)
  | cons u sep =>
      have some := some (List.cons_ne_nil u sep)
      have inner := append_separated separates (List.cons_ne_nil u sep) writes (ofMark close closes) (List.cons_ne_nil _ _)
      exact mark_append opening opens (separator_append separates inner (by simp [some]))

theorem ofToken {l : Lexeme} (line : lineFeed ∉ text)
    (token : ∀ after, Boundary after → ReadsToken (text ++ after) l after) : Writes text [l] where
  reads n after ends := by
    rw [Text.shift_eq_self n line]
    exact .one (token after ends)
  empty := nofun

theorem word {name : Text} (isName : IsNameText name) : Writes name [word name] := by
  refine ofToken ?_ fun after ends => .word isName (ends.imp fun u inside => by simp [inside])
  obtain ⟨u, rest, rfl, first, all⟩ := isName
  rintro (_ | ⟨_, member⟩)
  · contradiction
  · exact absurd (all _ member) (by decide)

theorem number {kind : TokenKind} {number : Text} (isNumber : Number.IsNumber kind number) : Writes number [⟨kind, number⟩] := by
  refine ofToken isNumber.line.lineFeed_not_mem fun after ends => .number isNumber (ends.imp fun u inside => ?_)
  simp only [isNameContinue, Bool.or_eq_true] at inside ⊢
  tauto

theorem string {value : Text} (wellFormed : value.WellFormed) : Writes (Quoted.literal value) [⟨.string, value⟩] :=
  ofToken (StringLiteral.lineFeed_not_mem_literal value) fun _ ends =>
    .string wellFormed (ends.imp fun u inside => by simp [inside])

theorem blockString {value : Text} (normal : BlockString.Normal value) :
    Writes (BlockString.render value) [⟨.blockString, value⟩] where
  reads n after _ := .one (.blockString normal n after)
  empty := nofun

end Writes

end QueryPlanner
