import QueryPlanner.Parser.Selections
import QueryPlanner.Proofs.Parser.Types

namespace QueryPlanner.Grammar

theorem IsField.begins : BeginsWith IsField [.name] := by
  rintro _ _ ⟨names, -, -, -, -⟩
  cases names <;> exact ⟨_, _, rfl, List.mem_singleton_self _⟩

theorem IsSelection.begins : BeginsWith IsSelection [.name, .spread] := by
  rintro _ _ (derives | derives | derives)
  · obtain ⟨l, rest, rfl, kind⟩ := IsField.begins derives
    exact ⟨l, rest, rfl, List.mem_cons.2 (.inl (List.mem_singleton.1 kind))⟩
  · cases derives
    exact ⟨_, _, rfl, List.mem_cons_of_mem _ (List.mem_singleton_self _)⟩
  · cases derives
    exact ⟨_, _, rfl, List.mem_cons_of_mem _ (List.mem_singleton_self _)⟩

theorem IsSelectionSet.begins : BeginsWith IsSelectionSet [.braceOpen] := by
  rintro _ _ ⟨_, _⟩
  exact ⟨_, _, rfl, List.mem_singleton_self _⟩

end QueryPlanner.Grammar

namespace QueryPlanner.Parser
open Run ParserState Grammar
open Lexeme (mark word)

variable {o : ParseOptions} {n : Nat} {s s' : ParserState}

abbrev fieldAt : Nat → List Lexeme → Field → Prop := Within Field.depth IsField

abbrev selectionAt : Nat → List Lexeme → Selection → Prop := Within Selection.depth IsSelection

abbrev selectionSetAt : Nat → List Lexeme → SelectionSet → Prop := Within SelectionSet.depth IsSelectionSet

def fieldNames : Parser (Option Name × Name) := do
  let first ← name
  if ← optionalToken .colon then return (some first, ← name) else return (none, first)

def maybeSet (inner : Parser SelectionSet) : Parser (Option SelectionSet) := do
  if ← peek .braceOpen then some <$> inner else pure none

theorem fieldNames_sound : SoundAt o n fieldNames (Prod.map (Option.map Name.bare) Name.bare) IsFieldName := by
  intro s made s' valid here h
  unfold fieldNames at h
  obtain ⟨⟨text, _⟩, s₁, named, h⟩ := bind_ok.1 h
  obtain ⟨_, ⟨⟩, taken⟩ := name_sound valid here named
  obtain ⟨colon, s₂, looked, h⟩ := bind_ok.1 h
  obtain ⟨rfl, -, taken₁⟩ | ⟨rfl, rfl⟩ := optionalToken_sound taken.valid looked (.inl rfl)
  · simp only [if_true, bind_ok, pure_ok] at h
    obtain ⟨⟨text', _⟩, s₃, named', rfl, rfl⟩ := h
    obtain ⟨_, ⟨⟩, taken₂⟩ := name_sound taken₁.valid (taken₁.at_iff.2 (taken.at_iff.2 here)) named'
    exact ⟨_, .renamed text text', taken.trans (taken₁.trans taken₂)⟩
  · obtain ⟨rfl, rfl⟩ := pure_ok.1 h
    exact ⟨_, .plain text, taken⟩

theorem fieldNames_complete : CompleteAt o n fieldNames (Prod.map (Option.map Name.bare) Name.bare) IsFieldName [.colon] := by
  rintro s ls ⟨responseName, fieldName⟩ rest ready here derives remaining follows
  unfold fieldNames
  cases derives with
  | plain text =>
      obtain ⟨made, s₁, named, bare, c₁⟩ := name_complete ready here (.intro text) remaining List.not_mem_nil
      have skipped := optionalToken_skip .colon c₁.valid (by rw [c₁.rest remaining]; simpa using follows)
      exact ⟨(none, made), s₁, bind_ok.2 ⟨made, s₁, named, bind_ok.2 ⟨false, s₁, skipped, pure_ok.2 ⟨rfl, rfl⟩⟩⟩,
        by simp [bare], c₁⟩
  | renamed text text' =>
      obtain ⟨made, s₁, named, bare, c₁⟩ := name_complete ready here (.intro text) remaining List.not_mem_nil
      have ready₁ := c₁.ready ready
      have remaining₁ := c₁.rest remaining
      obtain ⟨s₂, taken, c₂⟩ := optionalToken_take .colon ready₁ (by rw [remaining₁]; rfl) (.inl rfl)
      obtain ⟨made', s₃, named', bare', c₃⟩ := name_complete (c₂.ready ready₁) (c₂.at_iff.2 (c₁.at_iff.2 here))
        (.intro text') (c₂.rest remaining₁) List.not_mem_nil
      exact ⟨(some made, made'), s₃, bind_ok.2 ⟨made, s₁, named, bind_ok.2 ⟨true, s₂, taken,
        bind_ok.2 ⟨made', s₃, named', pure_ok.2 ⟨rfl, rfl⟩⟩⟩⟩, by simp [bare, bare'], c₁.trans (c₂.trans c₃)⟩

section
variable {inner : Parser SelectionSet}

theorem maybeSet_sound (sound : SoundAt o n inner SelectionSet.bare (selectionSetAt n)) :
    SoundAt o n (maybeSet inner) (Option.map SelectionSet.bare) (Maybe (selectionSetAt n)) := by
  intro s made s' valid here h
  unfold maybeSet at h
  simp only [bind_ok, peek_ok] at h
  obtain ⟨more, s₁, ⟨-, rfl⟩, h⟩ := h
  cases more with
  | false =>
      obtain ⟨rfl, rfl⟩ := pure_ok.1 h
      exact ⟨[], .absent, .refl valid⟩
  | true =>
      obtain ⟨set, read, rfl⟩ := map_ok.1 h
      obtain ⟨ls, derives, taken⟩ := sound valid here read
      exact ⟨ls, .present derives, taken⟩

theorem maybeSet_complete (complete : CompleteAt o n inner SelectionSet.bare (selectionSetAt n) []) :
    CompleteAt o n (maybeSet inner) (Option.map SelectionSet.bare) (Maybe (selectionSetAt n)) [.braceOpen] := by
  intro s ls set rest ready here derives remaining follows
  have looked := peek_eq .braceOpen ready.toValid
  rw [remaining] at looked
  unfold maybeSet
  cases derives with
  | absent =>
      rw [List.nil_append, decide_eq_false (by simpa using follows)] at looked
      exact ⟨none, s, bind_ok.2 ⟨false, s, looked, pure_ok.2 ⟨rfl, rfl⟩⟩, rfl, .refl ready.toValid⟩
  | present derives =>
      rw [List.mem_singleton.1 (IsSelectionSet.begins.within.nextKind derives rest), decide_eq_true rfl] at looked
      obtain ⟨made, s₁, read, rfl, consumes⟩ := complete ready here derives remaining List.not_mem_nil
      exact ⟨some made, s₁, bind_ok.2 ⟨true, s, looked, map_ok.2 ⟨made, read, rfl⟩⟩, rfl, consumes⟩

theorem fieldWith_run : fieldWith inner s = (do
    let names ← fieldNames
    let arguments ← arguments false
    let modifier ← modifier
    let directives ← directives false
    let set ← maybeSet inner
    return ⟨names.1, names.2, arguments, modifier, directives, set, ← locationFrom s.token⟩ : Parser Field) s := by
  unfold fieldWith fieldNames maybeSet
  rw [currentToken_bind]
  simp only [bind_assoc]
  refine congrFun (bind_congr fun first => bind_congr fun colon => ?_) s
  cases colon
  · simp only [Bool.false_eq_true, if_false, pure_bind]
    exact bind_congr fun _ => bind_congr fun _ => bind_congr fun _ => bind_congr fun more => by cases more <;> rfl
  · simp only [if_true, bind_assoc, pure_bind]
    exact bind_congr fun _ => bind_congr fun _ => bind_congr fun _ => bind_congr fun _ => bind_congr fun more => by
      cases more <;> rfl

theorem maybe_within {α : Type} {depth : α → Nat} {G : List Lexeme → α → Prop} {ls : List Lexeme} {part : Option α} :
    Maybe (Within depth G n) ls part ↔ Maybe G ls part ∧ (part.map depth).getD 0 ≤ n := by
  constructor
  · rintro (_ | ⟨derives, low⟩)
    · exact ⟨.absent, Nat.zero_le n⟩
    · exact ⟨.present derives, low⟩
  · rintro ⟨_ | derives, low⟩
    · exact .absent
    · exact .present ⟨derives, low⟩

theorem fieldWith_sound (sound : SoundAt o n inner SelectionSet.bare (selectionSetAt n)) :
    SoundAt o n (fieldWith inner) Field.bare (fieldAt n) := by
  intro s made s' valid here h
  rw [fieldWith_run] at h
  simp only [bind_ok, locationFrom_ok, pure_ok] at h
  obtain ⟨names, s₁, named, as, s₂, called, m, s₃, modified, ds, s₄, directed, set, s₅, selected, _, _, ⟨rfl, rfl⟩, rfl,
    rfl⟩ := h
  obtain ⟨ns, namesDerive, t₁⟩ := fieldNames_sound valid here named
  obtain ⟨as', argumentsDerive, t₂⟩ := arguments_sound t₁.valid (t₁.at_iff.2 here) called
  have t₁₂ := t₁.trans t₂
  obtain ⟨ms, ⟨modifierDerives, low₃⟩, t₃⟩ := modifier_sound t₂.valid (t₁₂.at_iff.2 here) modified
  have t₁₃ := t₁₂.trans t₃
  obtain ⟨ds', directivesDerive, t₄⟩ := directives_sound t₃.valid (t₁₃.at_iff.2 here) directed
  have t₁₄ := t₁₃.trans t₄
  obtain ⟨ls, setDerives, t₅⟩ := maybeSet_sound sound t₄.valid (t₁₄.at_iff.2 here) selected
  obtain ⟨argumentsDerive, low₂⟩ := parenthesized_within.1 argumentsDerive
  obtain ⟨directivesDerive, low₄⟩ := sequence_within.1 directivesDerive
  obtain ⟨setDerives, low₅⟩ := maybe_within.1 setDerives
  refine ⟨_, ⟨?_, ?_⟩, t₁.trans (t₂.trans (t₃.trans (t₄.trans t₅)))⟩
  · rw [Field.bare_mk]
    exact .intro namesDerive argumentsDerive modifierDerives directivesDerive setDerives
  · rw [Field.bare_mk, Field.depth_mk]
    exact Nat.max_le.2 ⟨low₂, Nat.max_le.2 ⟨low₃, Nat.max_le.2 ⟨low₄, low₅⟩⟩⟩

def fieldAvoids : List TokenKind := [.colon, .parenOpen, .bracketOpen, .bang, .questionMark, .atSign, .braceOpen]

theorem fieldWith_complete (complete : CompleteAt o n inner SelectionSet.bare (selectionSetAt n) []) :
    CompleteAt o n (fieldWith inner) Field.bare (fieldAt n) fieldAvoids := by
  rintro s _ _ rest ready here ⟨@⟨ns, as, ms, ds, ls, responseName, fieldName, arguments, modifier, directives, set,
    namesDerive, argumentsDerive, modifierDerives, directivesDerive, setDerives⟩, low⟩ remaining follows
  simp only [List.append_assoc] at remaining
  simp only [Field.depth_mk, Nat.max_le] at low
  have avoids {avoid : List TokenKind} (among : avoid ⊆ fieldAvoids) : nextKind rest ∉ avoid := fun h => follows (among h)
  have follows₁ {avoid : List TokenKind} (among : avoid ⊆ fieldAvoids) (apart : TokenKind.braceOpen ∉ avoid) :
      nextKind (ls ++ rest) ∉ avoid :=
    IsSelectionSet.begins.maybe.follows setDerives (by simpa using apart) (avoids among)
  have follows₂ {avoid : List TokenKind} (among : avoid ⊆ fieldAvoids) (apart : TokenKind.braceOpen ∉ avoid)
      (apart' : TokenKind.atSign ∉ avoid) : nextKind (ds ++ (ls ++ rest)) ∉ avoid :=
    (IsDirective.begins false).sequence.follows directivesDerive (by simpa using apart') (follows₁ among apart)
  have follows₃ {avoid : List TokenKind} (among : avoid ⊆ fieldAvoids) (apart : TokenKind.braceOpen ∉ avoid)
      (apart' : TokenKind.atSign ∉ avoid) (apart'' : ∀ kind ∈ modifierAvoids, kind ∉ avoid) :
      nextKind (ms ++ (ds ++ (ls ++ rest))) ∉ avoid :=
    IsModifier.begins.follows modifierDerives apart'' (follows₂ among apart apart')
  obtain ⟨names, s₁, named, namesBare, c₁⟩ := fieldNames_complete ready here namesDerive remaining
    (Parenthesized.begins.follows argumentsDerive (by decide) (follows₃ (by decide) (by decide) (by decide) (by decide)))
  have ready₁ := c₁.ready ready
  have here₁ := c₁.at_iff.2 here
  have remaining₁ := c₁.rest remaining
  obtain ⟨as', s₂, called, rfl, c₂⟩ := arguments_complete ready₁ here₁
    (parenthesized_within.2 ⟨argumentsDerive, low.1⟩) remaining₁ (follows₃ (by decide) (by decide) (by decide) (by decide))
  have ready₂ := c₂.ready ready₁
  have here₂ := c₂.at_iff.2 here₁
  have remaining₂ := c₂.rest remaining₁
  obtain ⟨m, s₃, modified, rfl, c₃⟩ := modifier_complete ready₂ here₂ ⟨modifierDerives, low.2.1⟩ remaining₂
    (follows₂ (by decide) (by decide) (by decide))
  have ready₃ := c₃.ready ready₂
  have here₃ := c₃.at_iff.2 here₂
  have remaining₃ := c₃.rest remaining₂
  obtain ⟨ds', s₄, directed, rfl, c₄⟩ := directives_complete ready₃ here₃
    (sequence_within.2 ⟨directivesDerive, low.2.2.1⟩) remaining₃ (follows₁ (by decide) (by decide))
  have ready₄ := c₄.ready ready₃
  have here₄ := c₄.at_iff.2 here₃
  have remaining₄ := c₄.rest remaining₃
  obtain ⟨set', s₅, selected, rfl, c₅⟩ := maybeSet_complete complete ready₄ here₄
    (maybe_within.2 ⟨setDerives, low.2.2.2⟩) remaining₄ (avoids (by decide))
  obtain ⟨rfl, rfl⟩ := Prod.mk.inj namesBare
  refine ⟨⟨names.1, names.2, as', m, ds', set', located s₅ s.token⟩, s₅, ?_, by rw [Field.bare_mk],
    c₁.trans (c₂.trans (c₃.trans (c₄.trans c₅)))⟩
  rw [fieldWith_run]
  simp only [bind_ok, locationFrom_ok, pure_ok]
  exact ⟨names, s₁, named, as', s₂, called, m, s₃, modified, ds', s₄, directed, set', s₅, selected, _, _, ⟨rfl, rfl⟩, rfl,
    rfl⟩

theorem fragmentName_sound : SoundAt o n fragmentName Name.bare (fun ls name => IsName ls name ∧ name.text ≠ "on") := by
  intro s made s' valid here h
  unfold fragmentName at h
  rw [get_bind] at h
  split_ifs at h with on
  · exact (unexpected_fails h).elim
  · obtain ⟨ls, derives, taken⟩ := name_sound valid here h
    simp only [name, bind_ok, locationFrom_ok, pure_ok] at h
    obtain ⟨t, s₁, read, _, _, ⟨rfl, rfl⟩, rfl, rfl⟩ := h
    obtain ⟨rfl, -, -⟩ := expectToken_sound valid read
    exact ⟨ls, ⟨derives, on⟩, taken⟩

theorem fragmentName_complete {text : Text} {rest : List Lexeme} (proper : text ≠ "on") (ready : s.Ready) (here : s.At o n)
    (remaining : s.remaining = word text :: rest) :
    ∃ made s', fragmentName s = .ok made s' ∧ made.bare = { text } ∧ Consumes [word text] s s' := by
  unfold fragmentName
  rw [get_bind, ready.value_eq remaining rfl]
  obtain ⟨made, s₁, named, bare, c₁⟩ := name_complete ready here (.intro text) remaining List.not_mem_nil
  exact ⟨made, s₁, (if_neg proper).symm ▸ named, bare, c₁⟩

theorem fragmentSpread_sound {start : Token} {made : FragmentSpread} (valid : s.Valid) (here : s.At o n)
    (h : fragmentSpread start s = .ok made s') :
    ∃ ls, Within FragmentSpread.depth IsFragmentSpread n (mark .spread :: ls) made.bare ∧ Consumes ls s s' := by
  simp only [fragmentSpread, bind_ok, locationFrom_ok, pure_ok] at h
  obtain ⟨⟨text, _⟩, s₁, named, ds, s₂, directed, _, _, ⟨rfl, rfl⟩, rfl, rfl⟩ := h
  obtain ⟨_, ⟨⟨⟩, proper⟩, t₁⟩ := fragmentName_sound valid here named
  obtain ⟨ls, directivesDerive, t₂⟩ := directives_sound t₁.valid (t₁.at_iff.2 here) directed
  obtain ⟨directivesDerive, low⟩ := sequence_within.1 directivesDerive
  exact ⟨_, ⟨.intro proper directivesDerive, low⟩, t₁.trans t₂⟩

theorem fragmentSpread_complete (start : Token) {text : Text} {ls rest : List Lexeme} {directives : List Directive}
    (proper : text ≠ "on") (derives : AreDirectives false ls directives) (low : deepest Directive.depth directives ≤ n)
    (ready : s.Ready) (here : s.At o n) (remaining : s.remaining = word text :: (ls ++ rest))
    (follows : nextKind rest ∉ [.atSign, .parenOpen]) :
    ∃ made s', fragmentSpread start s = .ok made s' ∧ made.bare = { name := { text }, directives } ∧
      Consumes (word text :: ls) s s' := by
  obtain ⟨made, s₁, named, bare, c₁⟩ := fragmentName_complete proper ready here remaining
  obtain ⟨ds, s₂, directed, rfl, c₂⟩ := directives_complete (c₁.ready ready) (c₁.at_iff.2 here)
    (sequence_within.2 ⟨derives, low⟩) (c₁.rest remaining) follows
  refine ⟨⟨made, ds, located s₂ start⟩, s₂, ?_, by rw [FragmentSpread.bare, bare], c₁.trans c₂⟩
  simp only [fragmentSpread, bind_ok, locationFrom_ok, pure_ok]
  exact ⟨made, s₁, named, ds, s₂, directed, _, _, ⟨rfl, rfl⟩, rfl, rfl⟩

inductive IsConditionTail : Bool → List Lexeme → Option NamedType → Prop
  | absent : IsConditionTail false [] none
  | present {ls : List Lexeme} {type : NamedType} : IsNamedType ls type → IsConditionTail true ls (some type)

def conditionTail (hasTypeCondition : Bool) : Parser (Option NamedType) :=
  if hasTypeCondition then some <$> namedType else pure none

theorem conditionTail_sound (hasTypeCondition : Bool) :
    SoundAt o n (conditionTail hasTypeCondition) (Option.map NamedType.bare) (IsConditionTail hasTypeCondition) := by
  intro s made s' valid here h
  unfold conditionTail at h
  cases hasTypeCondition with
  | false =>
      obtain ⟨rfl, rfl⟩ := pure_ok.1 h
      exact ⟨[], .absent, .refl valid⟩
  | true =>
      obtain ⟨type, read, rfl⟩ := map_ok.1 h
      obtain ⟨ls, derives, taken⟩ := namedType_sound valid here read
      exact ⟨ls, .present derives, taken⟩

theorem conditionTail_complete (hasTypeCondition : Bool) :
    CompleteAt o n (conditionTail hasTypeCondition) (Option.map NamedType.bare) (IsConditionTail hasTypeCondition) [] := by
  intro s ls type rest ready here derives remaining follows
  unfold conditionTail
  cases derives with
  | absent => exact ⟨none, s, pure_ok.2 ⟨rfl, rfl⟩, rfl, .refl ready.toValid⟩
  | present derives =>
      obtain ⟨made, s₁, read, rfl, c₁⟩ := namedType_complete ready here derives remaining follows
      exact ⟨some made, s₁, map_ok.2 ⟨made, read, rfl⟩, rfl, c₁⟩

theorem inlineFragmentWith_eq (start : Token) (hasTypeCondition : Bool) :
    inlineFragmentWith inner start hasTypeCondition = (do
      let type ← conditionTail hasTypeCondition
      let directives ← directives false
      let set ← inner
      return ⟨type, directives, set, ← locationFrom start⟩) := by
  unfold inlineFragmentWith conditionTail
  cases hasTypeCondition <;> rfl

inductive IsInlineTail (hasTypeCondition : Bool) : List Lexeme → InlineFragment → Prop
  | intro {ts ds ls : List Lexeme} {type : Option NamedType} {directives : List Directive} {set : SelectionSet} :
      IsConditionTail hasTypeCondition ts type → AreDirectives false ds directives → IsSelectionSet ls set →
      IsInlineTail hasTypeCondition (ts ++ (ds ++ ls)) ⟨type, directives, set, none⟩

abbrev inlineTailAt (hasTypeCondition : Bool) : Nat → List Lexeme → InlineFragment → Prop :=
  Within InlineFragment.depth (IsInlineTail hasTypeCondition)

theorem inlineFragmentWith_sound (sound : SoundAt o n inner SelectionSet.bare (selectionSetAt n)) (start : Token)
    (hasTypeCondition : Bool) :
    SoundAt o n (inlineFragmentWith inner start hasTypeCondition) InlineFragment.bare (inlineTailAt hasTypeCondition n) := by
  intro s made s' valid here h
  rw [inlineFragmentWith_eq] at h
  simp only [bind_ok, locationFrom_ok, pure_ok] at h
  obtain ⟨type, s₁, typed, ds, s₂, directed, set, s₃, selected, _, _, ⟨rfl, rfl⟩, rfl, rfl⟩ := h
  obtain ⟨ts, typeDerives, t₁⟩ := conditionTail_sound hasTypeCondition valid here typed
  obtain ⟨ds', directivesDerive, t₂⟩ := directives_sound t₁.valid (t₁.at_iff.2 here) directed
  obtain ⟨ls, ⟨setDerives, low₃⟩, t₃⟩ := sound t₂.valid ((t₁.trans t₂).at_iff.2 here) selected
  obtain ⟨directivesDerive, low₂⟩ := sequence_within.1 directivesDerive
  exact ⟨_, ⟨.intro typeDerives directivesDerive setDerives, Nat.max_le.2 ⟨low₂, low₃⟩⟩, t₁.trans (t₂.trans t₃)⟩

theorem inlineFragmentWith_complete (complete : CompleteAt o n inner SelectionSet.bare (selectionSetAt n) [])
    (start : Token) (hasTypeCondition : Bool) :
    CompleteAt o n (inlineFragmentWith inner start hasTypeCondition) InlineFragment.bare
      (inlineTailAt hasTypeCondition n) [] := by
  rintro s _ _ rest ready here ⟨@⟨ts, ds, ls, type, directives, set, typeDerives, directivesDerive, setDerives⟩, low⟩
    remaining follows
  simp only [List.append_assoc] at remaining
  obtain ⟨low₂, low₃⟩ := Nat.max_le.1 low
  obtain ⟨type', s₁, typed, rfl, c₁⟩ := conditionTail_complete hasTypeCondition ready here typeDerives remaining
    List.not_mem_nil
  have ready₁ := c₁.ready ready
  have here₁ := c₁.at_iff.2 here
  have remaining₁ := c₁.rest remaining
  have next : nextKind (ls ++ rest) ∉ [.atSign, .parenOpen] := by
    rw [List.mem_singleton.1 (IsSelectionSet.begins.nextKind setDerives rest)]
    decide
  obtain ⟨ds', s₂, directed, rfl, c₂⟩ := directives_complete ready₁ here₁
    (sequence_within.2 ⟨directivesDerive, low₂⟩) remaining₁ next
  obtain ⟨set', s₃, selected, rfl, c₃⟩ := complete (c₂.ready ready₁) (c₂.at_iff.2 here₁) ⟨setDerives, low₃⟩
    (c₂.rest remaining₁) List.not_mem_nil
  refine ⟨⟨type', ds', set', located s₃ start⟩, s₃, ?_, rfl, c₁.trans (c₂.trans c₃)⟩
  rw [inlineFragmentWith_eq]
  simp only [bind_ok, locationFrom_ok, pure_ok]
  exact ⟨type', s₁, typed, ds', s₂, directed, set', s₃, selected, _, _, ⟨rfl, rfl⟩, rfl, rfl⟩

def conditionWord (hasTypeCondition : Bool) : List Lexeme := if hasTypeCondition then [word "on"] else []

theorem isInlineFragment_iff {ls : List Lexeme} {f : InlineFragment} :
    IsInlineFragment ls f ↔ ∃ hasTypeCondition tail, ls = mark .spread :: (conditionWord hasTypeCondition ++ tail) ∧
      IsInlineTail hasTypeCondition tail f := by
  constructor
  · rintro ⟨_ | ⟨⟨text⟩⟩, directivesDerive, setDerives⟩
    · exact ⟨false, _, rfl, .intro .absent directivesDerive setDerives⟩
    · exact ⟨true, _, rfl, .intro (.present (.intro text)) directivesDerive setDerives⟩
  · rintro ⟨_, _, rfl, @⟨_, ds, ls, _, _, _, _ | ⟨⟨text⟩⟩, directivesDerive, setDerives⟩⟩
    · show IsInlineFragment (mark .spread :: ([] ++ (ds ++ ls))) _
      exact .intro .absent directivesDerive setDerives
    · show IsInlineFragment (mark .spread :: ([word "on", word text] ++ (ds ++ ls))) _
      exact .intro (.present (.intro text)) directivesDerive setDerives

theorem fragmentSelectionWith_sound (sound : SoundAt o n inner SelectionSet.bare (selectionSetAt n)) :
    SoundAt o n (fragmentSelectionWith inner) Selection.bare (selectionAt n) := by
  intro s made s' valid here h
  unfold fragmentSelectionWith at h
  simp only [bind_ok, peek_ok] at h
  obtain ⟨start, s₁, marked, hasCondition, s₂, looked, isName, s₃, ⟨-, rfl⟩, h⟩ := h
  have t₁ := expectMark_sound valid marked rfl
  have here₁ := t₁.at_iff.2 here
  obtain ⟨rfl, t₂⟩ | ⟨rfl, rfl, -⟩ := optionalKeyword_sound t₁.valid looked
  · simp only [Bool.not_true, Bool.false_and, Bool.false_eq_true, if_false, bind_ok, pure_ok] at h
    obtain ⟨f, s₄, read, rfl, rfl⟩ := h
    obtain ⟨ls, ⟨derives, low⟩, t₃⟩ := inlineFragmentWith_sound sound start true t₂.valid (t₂.at_iff.2 here₁) read
    exact ⟨_, ⟨.inline (isInlineFragment_iff.2 ⟨true, ls, rfl, derives⟩), low⟩, t₁.trans (t₂.trans t₃)⟩
  · cases isName with
    | true =>
        simp only [Bool.not_false, Bool.true_and, if_true, bind_ok, pure_ok] at h
        obtain ⟨f, s₄, read, rfl, rfl⟩ := h
        obtain ⟨ls, ⟨derives, low⟩, t₂⟩ := fragmentSpread_sound t₁.valid here₁ read
        exact ⟨_, ⟨.spread derives, low⟩, t₁.trans t₂⟩
    | false =>
        simp only [Bool.and_false, Bool.false_eq_true, if_false, bind_ok, pure_ok] at h
        obtain ⟨f, s₄, read, rfl, rfl⟩ := h
        obtain ⟨ls, ⟨derives, low⟩, t₂⟩ := inlineFragmentWith_sound sound start false t₁.valid here₁ read
        exact ⟨_, ⟨.inline (isInlineFragment_iff.2 ⟨false, ls, rfl, derives⟩), low⟩, t₁.trans t₂⟩

theorem fragmentSpread_selects {text : Text} {ls rest : List Lexeme} {directives : List Directive} (proper : text ≠ "on")
    (derives : AreDirectives false ls directives) (low : deepest Directive.depth directives ≤ n) (ready : s.Ready)
    (here : s.At o n) (remaining : s.remaining = mark .spread :: word text :: (ls ++ rest))
    (follows : nextKind rest ∉ [.atSign, .parenOpen]) :
    ∃ made s', fragmentSelectionWith inner s = .ok made s' ∧ made.bare = .spread { name := { text }, directives } ∧
      Consumes (mark .spread :: word text :: ls) s s' := by
  obtain ⟨s₁, marked, c₁⟩ := expectToken_complete ready remaining
  have ready₁ := c₁.ready ready
  have remaining₁ := c₁.rest remaining
  have noCondition := optionalKeyword_skip "on" ready₁.toValid (by
    rw [remaining₁, List.head?_cons, Ne, Option.some.injEq, word, word, Lexeme.mk.injEq]
    exact fun same => proper same.2)
  have looked := peek_eq .name ready₁.toValid
  rw [remaining₁, nextKind_cons, word, decide_eq_true rfl] at looked
  obtain ⟨made, s₂, read, bare, c₂⟩ := fragmentSpread_complete s.token proper derives low ready₁ (c₁.at_iff.2 here)
    remaining₁ follows
  refine ⟨.spread made, s₂, ?_, by rw [Selection.bare, bare], c₁.trans c₂⟩
  unfold fragmentSelectionWith
  simp only [bind_ok]
  refine ⟨_, s₁, marked, false, s₁, noCondition, true, s₁, looked, ?_⟩
  exact bind_ok.2 ⟨made, s₂, read, pure_ok.2 ⟨rfl, rfl⟩⟩

theorem IsInlineTail.begins : BeginsWith (IsInlineTail false) [.atSign, .braceOpen] := by
  rintro _ _ ⟨_ | _, directivesDerive, setDerives⟩
  cases directivesDerive with
  | nil =>
      obtain ⟨l, rest, rfl, kind⟩ := IsSelectionSet.begins setDerives
      exact ⟨l, rest, rfl, List.mem_cons_of_mem _ kind⟩
  | cons first _ =>
      obtain ⟨l, rest, rfl, kind⟩ := IsDirective.begins false first
      exact ⟨l, _, rfl, List.mem_cons.2 (.inl (List.mem_singleton.1 kind))⟩

theorem inlineFragment_selects (complete : CompleteAt o n inner SelectionSet.bare (selectionSetAt n) [])
    {hasTypeCondition : Bool} {tail rest : List Lexeme} {f : InlineFragment} (derives : inlineTailAt hasTypeCondition n tail f)
    (ready : s.Ready) (here : s.At o n)
    (remaining : s.remaining = mark .spread :: (conditionWord hasTypeCondition ++ (tail ++ rest))) :
    ∃ made s', fragmentSelectionWith inner s = .ok made s' ∧ made.bare = .inline f ∧
      Consumes (mark .spread :: (conditionWord hasTypeCondition ++ tail)) s s' := by
  obtain ⟨s₁, marked, c₁⟩ := expectToken_complete ready remaining
  have ready₁ := c₁.ready ready
  have here₁ := c₁.at_iff.2 here
  have remaining₁ := c₁.rest remaining
  unfold fragmentSelectionWith
  cases hasTypeCondition with
  | true =>
      obtain ⟨s₂, condition, c₂⟩ := optionalKeyword_take ready₁ remaining₁
      have looked := peek_eq .name c₂.valid
      obtain ⟨made, s₃, read, rfl, c₃⟩ := inlineFragmentWith_complete complete s.token true (c₂.ready ready₁)
        (c₂.at_iff.2 here₁) derives (c₂.rest remaining₁) List.not_mem_nil
      refine ⟨.inline made, s₃, ?_, rfl, c₁.trans (c₂.trans c₃)⟩
      refine bind_ok.2 ⟨_, s₁, marked, bind_ok.2 ⟨true, s₂, condition, bind_ok.2 ⟨_, s₂, looked, ?_⟩⟩⟩
      exact bind_ok.2 ⟨made, s₃, read, pure_ok.2 ⟨rfl, rfl⟩⟩
  | false =>
      have remaining₁ : s₁.remaining = tail ++ rest := remaining₁
      have first := IsInlineTail.begins.nextKind derives.1 rest
      have noCondition := optionalKeyword_skip "on" ready₁.toValid (fun head => by
        obtain ⟨_, found⟩ := List.head?_eq_some_iff.1 head
        rw [← remaining₁, found, nextKind_cons] at first
        simp [word] at first)
      have looked := peek_eq .name ready₁.toValid
      rw [remaining₁, decide_eq_false (fun found => by simp [found] at first)] at looked
      obtain ⟨made, s₂, read, rfl, c₂⟩ := inlineFragmentWith_complete complete s.token false ready₁ here₁ derives
        remaining₁ List.not_mem_nil
      refine ⟨.inline made, s₂, ?_, rfl, c₁.trans c₂⟩
      refine bind_ok.2 ⟨_, s₁, marked, bind_ok.2 ⟨false, s₁, noCondition, bind_ok.2 ⟨false, s₁, looked, ?_⟩⟩⟩
      exact bind_ok.2 ⟨made, s₂, read, pure_ok.2 ⟨rfl, rfl⟩⟩

theorem selectionWith_sound (sound : SoundAt o n inner SelectionSet.bare (selectionSetAt n)) :
    SoundAt o n (selectionWith inner) Selection.bare (selectionAt n) := by
  intro s made s' valid here h
  unfold selectionWith at h
  simp only [bind_ok, peek_ok] at h
  obtain ⟨dots, s₁, ⟨-, rfl⟩, h⟩ := h
  cases dots with
  | true => exact fragmentSelectionWith_sound sound valid here h
  | false =>
      simp only [Bool.false_eq_true, if_false, bind_ok, pure_ok] at h
      obtain ⟨f, s₂, read, rfl, rfl⟩ := h
      obtain ⟨ls, ⟨derives, low⟩, taken⟩ := fieldWith_sound sound valid here read
      exact ⟨ls, ⟨.field derives, low⟩, taken⟩

theorem selectionWith_complete (complete : CompleteAt o n inner SelectionSet.bare (selectionSetAt n) []) :
    CompleteAt o n (selectionWith inner) Selection.bare (selectionAt n) fieldAvoids := by
  rintro s ls _ rest ready here ⟨derives, low⟩ remaining follows
  have looked := peek_eq .spread ready.toValid
  unfold selectionWith
  cases derives with
  | field derives =>
      rw [remaining, List.mem_singleton.1 (IsField.begins.nextKind derives rest), decide_eq_false (by decide)] at looked
      obtain ⟨made, s₁, read, rfl, c₁⟩ := fieldWith_complete complete ready here ⟨derives, low⟩ remaining follows
      exact ⟨.field made, s₁, bind_ok.2 ⟨false, s, looked, bind_ok.2 ⟨made, s₁, read, pure_ok.2 ⟨rfl, rfl⟩⟩⟩, rfl, c₁⟩
  | spread derives =>
      obtain ⟨proper, directivesDerive⟩ := derives
      rw [remaining, List.cons_append, nextKind_cons, mark, decide_eq_true rfl] at looked
      obtain ⟨made, s₁, read, bare, c₁⟩ := fragmentSpread_selects proper directivesDerive low ready here remaining
        fun h => follows (List.Subset.trans (by decide) (List.Subset.refl fieldAvoids) h)
      exact ⟨made, s₁, bind_ok.2 ⟨true, s, looked, read⟩, bare, c₁⟩
  | inline derives =>
      obtain ⟨hasTypeCondition, tail, rfl, tailDerives⟩ := isInlineFragment_iff.1 derives
      simp only [List.cons_append, List.append_assoc] at remaining
      rw [remaining, nextKind_cons, mark, decide_eq_true rfl] at looked
      obtain ⟨made, s₁, read, bare, c₁⟩ := inlineFragment_selects complete ⟨tailDerives, low⟩ ready here remaining
      exact ⟨made, s₁, bind_ok.2 ⟨true, s, looked, read⟩, bare, c₁⟩

theorem selectionSetWith_sound (sound : ∀ m, n = m + 1 → SoundAt o m inner SelectionSet.bare (selectionSetAt m)) :
    SoundAt o n (selectionSetWith inner) SelectionSet.bare (selectionSetAt n) := by
  intro s made s' valid here h
  simp only [selectionSetWith, currentToken_bind, bind_ok, locationFrom_ok, pure_ok] at h
  obtain ⟨selections, s₁, read, _, _, ⟨rfl, rfl⟩, rfl, rfl⟩ := h
  have items := nested_sound fun m level =>
    many_sound .braceOpen .braceClose rfl rfl IsSelection.begins.within (selectionWith_sound (sound m level))
  obtain ⟨_, ⟨m, rfl, ⟨derives⟩, some⟩, taken⟩ := items valid here read
  obtain ⟨derives, low⟩ := sequence_within.1 derives
  refine ⟨_, ⟨?_, ?_⟩, taken⟩
  · rw [SelectionSet.bare, bareSelections_eq_map]
    exact .intro derives some
  · rw [SelectionSet.bare, bareSelections_eq_map, SelectionSet.depth, selectionsDepth_eq]
    exact Nat.succ_le_succ low

theorem selectionSetWith_complete
    (complete : ∀ m, n = m + 1 → CompleteAt o m inner SelectionSet.bare (selectionSetAt m) []) :
    CompleteAt o n (selectionSetWith inner) SelectionSet.bare (selectionSetAt n) [] := by
  rintro s _ _ rest ready here ⟨⟨derives, some⟩, low⟩ remaining -
  have items := nested_complete fun m level => many_complete .braceOpen .braceClose rfl
    IsSelection.begins.within (selectionWith_complete (complete m level)) (by decide) (by decide)
  rw [SelectionSet.depth, selectionsDepth_eq] at low
  obtain ⟨m, rfl⟩ := Nat.exists_eq_succ_of_ne_zero (Nat.ne_of_gt (Nat.zero_lt_of_lt low))
  obtain ⟨made, s₁, read, rfl, consumes⟩ := items ready here
    ⟨m, rfl, .intro (sequence_within.2 ⟨derives, Nat.le_of_succ_le_succ low⟩), some⟩ remaining List.not_mem_nil
  refine ⟨⟨made, located s₁ s.token⟩, s₁, ?_, by rw [SelectionSet.bare, bareSelections_eq_map], consumes⟩
  simp only [selectionSetWith, currentToken_bind, bind_ok, locationFrom_ok, pure_ok]
  exact ⟨made, s₁, read, _, _, ⟨rfl, rfl⟩, rfl, rfl⟩

end

theorem selectionSetWithin_sound : SoundAt o n (selectionSetWithin n) SelectionSet.bare (selectionSetAt n) := by
  induction n with
  | zero => exact selectionSetWith_sound fun m level => absurd level (Nat.succ_ne_zero m).symm
  | succ n ih => exact selectionSetWith_sound fun m level => Nat.succ.inj level ▸ ih

theorem selectionSetWithin_complete : CompleteAt o n (selectionSetWithin n) SelectionSet.bare (selectionSetAt n) [] := by
  induction n with
  | zero => exact selectionSetWith_complete fun m level => absurd level (Nat.succ_ne_zero m).symm
  | succ n ih => exact selectionSetWith_complete fun m level => Nat.succ.inj level ▸ ih

theorem selectionSet_sound : SoundAt o n selectionSet SelectionSet.bare (selectionSetAt n) :=
  selectionSetWithin_sound.ofLevels

theorem selectionSet_complete : CompleteAt o n selectionSet SelectionSet.bare (selectionSetAt n) [] :=
  selectionSetWithin_complete.ofLevels

end QueryPlanner.Parser
