import QueryPlanner.Proofs.Parser.ValueAttempts
import QueryPlanner.Proofs.Parser.Selections

namespace QueryPlanner.Comparison
open Grammar ParserState QueryPlanner.Parser
open Lexeme (mark word)

variable {c : Comparison} {E : Expectation} {s : ParserState} {α β : Type} {k : Nat}

theorem fieldNames_reads : c.Reads k fieldNames fieldNames (Prod.map (Option.map Name.bare) Name.bare)
    (fun _ => IsFieldName) IsFieldName where
  sound := fieldNames_sound
  sound' := fieldNames_sound
  derives _ _ _ derives := derives
  matched _ _ := IsFieldName.bracketed
  attempt s stands := by
    have whole (text : Text) : Viable IsFieldName ([word text] ++ ([mark .colon] ++ [word "a"])) :=
      .of_derives (.renamed text "a")
    refine nameThen stands (whole "a").nil fun first s₁ stands₁ => ?_
    refine Attempt.optionalMarkThen .colon rfl rfl stands₁ (fun s₂ stands₂ => ?_) (.pure stands₁ _)
    refine nameThen stands₂ (Viable.cut ([word first.text] ++ [mark .colon]) (whole first.text)) fun name s₃ stands₃ => ?_
    exact .pure stands₃ _

theorem fragmentName_reads : c.Reads k fragmentName fragmentName Name.bare (fun _ ls name => IsName ls name ∧ name.text ≠ "on")
    (fun ls name => IsName ls name ∧ name.text ≠ "on") where
  sound := fragmentName_sound
  sound' := fragmentName_sound
  derives _ _ _ derives := derives
  matched := by rintro _ _ ⟨⟨text⟩, _⟩; exact .plain .name text rfl
  attempt s stands := by
    have empty : Viable (fun ls name => IsName ls name ∧ name.text ≠ "on") [] := .nil (.of_derives ⟨.intro "a", by decide⟩)
    have refuses (on : s.token.value = "on") (s₂ : ParserState) (token : s₂.token = s.token) (a : Name) (s₂' : ParserState) :
        fragmentName s₂ ≠ .ok a s₂' := by
      unfold fragmentName
      rw [Run.get_bind, if_pos (token ▸ on)]
      exact unexpected_fails
    by_cases on : s.token.value = "on"
    · have run : fragmentName s = .error (.grammar s.source s.token ("Unexpected " ++ s.token.describe ++ ".")) s := by
        unfold fragmentName
        rw [Run.get_bind, if_pos on]
        rfl
      unfold Attempt
      exact run ▸ Fails.here _ _ empty (refuses on)
    · have run {t : ParserState} (token : t.token = s.token) : fragmentName t = name t := by
        unfold fragmentName
        rw [Run.get_bind, if_neg (token ▸ on)]
      exact Attempt.congr (run rfl) (fun _ _ some beside => run (beside.token_eq some)) (name_attempt stands empty)

section
variable {inner inner' : Parser SelectionSet} (set : c.Reads k inner inner' SelectionSet.bare selectionSetAt IsSelectionSet)
include set

theorem maybeSet_reads : c.Reads k (maybeSet inner) (maybeSet inner') (Option.map SelectionSet.bare)
    (fun n => Maybe (selectionSetAt n)) (Maybe IsSelectionSet) where
  sound := maybeSet_sound set.sound
  sound' := maybeSet_sound set.sound'
  derives _ _ _ derives := (maybe_within.1 derives).1
  matched _ _ := maybeSet_bracketed
  attempt s stands := by
    refine Attempt.peekThen .braceOpen ?_
    split_ifs
    · exact set.map stands rfl (fun ls viable => viable.mono fun _ _ derives => .of_derives (.present derives)) some
    · exact .pure stands none

theorem fieldWith_attempt (stands : s.Stands c.limited k) :
    c.Attempt { viable := Viable IsField } s (fieldWith inner) (fieldWith inner') := by
  refine Attempt.congr fieldWith_run (fun us s₂ some beside => by rw [fieldWith_run, beside.token_eq some]) ?_
  refine fieldNames_reads.andThen stands rfl (fun ls ⟨rest, names, derives⟩ => ?_) fun names ns s₁ named stands₁ => ?_
  · exact .of_append rest (.intro derives .absent (.unmarked .absent) .nil .absent) (by simp)
  refine (arguments_reads false k).andThen stands₁ rfl (fun ls ⟨rest, as, derives⟩ => ?_) fun arguments as s₂ called stands₂ => ?_
  · exact .of_append rest (.intro named derives (.unmarked .absent) .nil .absent) (by simp)
  refine (modifier_reads k).andThen stands₂ rfl (fun ls ⟨rest, m, derives⟩ => ?_) fun modifier ms s₃ modified stands₃ => ?_
  · exact .of_append rest (.intro named called derives .nil .absent) (by simp)
  refine (directives_reads false k).andThen stands₃ rfl (fun ls ⟨rest, ds, derives⟩ => ?_)
    fun directives ds s₄ directed stands₄ => ?_
  · exact .of_append rest (.intro named called modified derives .absent) (by simp)
  refine (maybeSet_reads set).andThen stands₄ rfl (fun ls ⟨rest, set, derives⟩ => ?_) fun set ls s₅ _ stands₅ =>
    .located stands₅ s.token _
  exact .of_append rest (.intro named called modified directed derives) (by simp)

omit set in
theorem fragmentSpread_attempt (stands : s.Stands c.limited k) (start : Token) :
    c.Attempt { viable := fun ls => Viable IsFragmentSpread ([mark .spread] ++ ls) } s (fragmentSpread start)
      (fragmentSpread start) := by
  refine fragmentName_reads.andThen stands rfl (fun ls ⟨rest, name, named, proper⟩ => ?_)
    fun name ns s₁ ⟨named, proper⟩ stands₁ => ?_
  · generalize ns_eq : ls ++ rest = ns at named
    obtain ⟨text⟩ := named
    exact .of_append rest (.intro proper .nil) (by simp [ns_eq])
  obtain ⟨text, _⟩ := name
  cases named
  refine (directives_reads false k).andThen stands₁ rfl (fun ls ⟨rest, ds, derives⟩ => ?_) fun directives ds s₂ _ stands₂ =>
    .located stands₂ start _
  exact .of_append rest (.intro proper derives) (by simp [Name.bare])

omit set in
theorem conditionTail_reads (hasTypeCondition : Bool) : c.Reads k (conditionTail hasTypeCondition)
    (conditionTail hasTypeCondition) (Option.map NamedType.bare) (fun _ => IsConditionTail hasTypeCondition)
    (IsConditionTail hasTypeCondition) where
  sound := conditionTail_sound hasTypeCondition
  sound' := conditionTail_sound hasTypeCondition
  derives _ _ _ derives := derives
  matched := by
    rintro _ _ (_ | derives)
    · exact .nil
    · exact derives.bracketed
  attempt s stands := by
    cases hasTypeCondition with
    | false => exact .pure stands none
    | true =>
        exact namedType_reads.map stands rfl (fun ls viable => viable.mono fun _ _ derives => .of_derives (.present derives)) some

theorem inlineFragmentWith_attempt (stands : s.Stands c.limited k) (start : Token) (hasTypeCondition : Bool) :
    c.Attempt { viable := Viable (IsInlineTail hasTypeCondition) } s (inlineFragmentWith inner start hasTypeCondition)
      (inlineFragmentWith inner' start hasTypeCondition) := by
  rw [inlineFragmentWith_eq, inlineFragmentWith_eq]
  refine (conditionTail_reads hasTypeCondition).andThen stands rfl (fun ls ⟨rest, type, derives⟩ => ?_)
    fun type ts s₁ typed stands₁ => ?_
  · exact .of_append (rest ++ _) (.intro derives .nil isSelectionSet_a) (by simp; rfl)
  refine (directives_reads false k).andThen stands₁ rfl (fun ls ⟨rest, ds, derives⟩ => ?_)
    fun directives ds s₂ directed stands₂ => ?_
  · exact .of_append (rest ++ _) (.intro typed derives isSelectionSet_a) (by simp; rfl)
  refine set.andThen stands₂ rfl (fun ls ⟨rest, set, derives⟩ => ?_) fun set ls s₃ _ stands₃ => .located stands₃ start _
  exact .of_append rest (.intro typed directed derives) (by simp)

theorem fragmentSelectionWith_attempt (stands : s.Stands c.limited k) :
    c.Attempt { viable := Viable IsSelection } s (fragmentSelectionWith inner) (fragmentSelectionWith inner') := by
  have tail {hasTypeCondition : Bool} {ls : List Lexeme} {f : InlineFragment} (derives : IsInlineTail hasTypeCondition ls f) :
      Viable IsSelection ([mark .spread] ++ (conditionWord hasTypeCondition ++ ls)) :=
    .of_derives (.inline (isInlineFragment_iff.2 ⟨hasTypeCondition, ls, rfl, derives⟩))
  have empty : Viable IsSelection ([mark .spread] ++ []) := (tail (.intro .absent .nil isSelectionSet_a)).cut [mark .spread]
  refine Attempt.markThen .spread rfl rfl stands empty.left.nil fun start s₁ stands₁ => ?_
  refine Attempt.optionalKeywordThen "on" stands₁ (fun s₂ stands₂ => Attempt.peekThen .name ?_) fun _ => Attempt.peekThen .name ?_
  · have inline := (inlineFragmentWith_attempt set stands₂ start true).weaken
      (E := (Expectation.behind { viable := Viable IsSelection } [mark .spread]).behind [word "on"])
      (fun ls viable => viable.lift ([mark .spread] ++ [word "on"]) fun _ _ => tail) rfl
    exact inline.bind fun f s₃ _ _ _ stands₃ => .pure (stands₂.depth ▸ stands₃) (Selection.inline f)
  · cases found : decide (s₁.token.kind = .name) with
    | true =>
        have spread := (fragmentSpread_attempt stands₁ start).weaken
          (E := Expectation.behind { viable := Viable IsSelection } [mark .spread])
          (fun ls viable => viable.mono (H := IsFragmentSpread) fun _ _ derives => .of_derives (.spread derives)) rfl
        exact spread.bind fun f s₃ _ _ _ stands₃ => .pure (stands₁.depth ▸ stands₃) (Selection.spread f)
    | false =>
        have inline := (inlineFragmentWith_attempt set stands₁ start false).weaken
          (E := Expectation.behind { viable := Viable IsSelection } [mark .spread])
          (fun ls viable => viable.lift [mark .spread] fun _ _ => tail) rfl
        exact inline.bind fun f s₃ _ _ _ stands₃ => .pure (stands₁.depth ▸ stands₃) (Selection.inline f)

theorem selectionWith_reads : c.Reads k (selectionWith inner) (selectionWith inner') Selection.bare selectionAt IsSelection where
  sound := selectionWith_sound set.sound
  sound' := selectionWith_sound set.sound'
  derives _ _ _ derives := derives.1
  matched _ _ := IsSelection.bracketed
  attempt s stands := by
    refine Attempt.peekThen .spread ?_
    split_ifs
    · exact fragmentSelectionWith_attempt set stands
    · have field := (fieldWith_attempt set stands).weaken (E := { viable := Viable IsSelection })
        (fun ls viable => viable.mono (H := IsField) fun _ _ derives => .of_derives (.field derives)) rfl
      exact field.bind fun f s₁ _ _ _ stands₁ => .pure (stands.depth ▸ stands₁) (Selection.field f)

end

theorem missing_set {q : Parser Selection} (stands : s.Stands c.limited k) (sets : c.sets) (limit : c.limited.depthLimit ≤ k)
    (offset : E.offset = 0) : c.Fails E s (nested (many .braceOpen q .braceClose))
      ⟨.depthLimit c.limited.depthLimit, .position s.source s.token.start⟩ := by
  by_cases plain : s.token.kind.opens = true
  · exact .full stands limit (by rw [offset, TokenKind.opening, if_pos plain]; exact Int.one_pos)
  obtain ⟨rest, ahead⟩ := s.ahead_split
  have count : (s.depth : Int) + E.offset + TokenKind.balance (([] : List Token).map Token.kind) = k := by
    rw [stands.depth, offset, List.map_nil, TokenKind.balance_nil]
    omega
  by_cases less : c.limited.depthLimit < k
  · refine .deep ahead ?_
    rw [count]
    have opening := s.token.kind.opening_nonneg
    omega
  · refine .missing ahead sets (by rw [count]; omega) (by simpa using plain) fun s₂ beside => ?_
    have token := beside.token_eq (by simp)
    have room : ¬ s₂.options.depthLimit ≤ s₂.depth := by
      have levels := c.levels
      rw [beside.stands.options, beside.stands.depth, stands.depth]
      omega
    have other : s.token.kind ≠ .braceOpen := fun brace => by
      rw [brace] at plain
      exact plain rfl
    have refuses : expectToken .braceOpen s₂.deeper = .error (.grammar s.source s.token
        ("Expected " ++ TokenKind.braceOpen.describe ++ ", found " ++ s.token.describe ++ ".") (some TokenKind.braceOpen.text))
        s₂.deeper := by
      unfold expectToken
      have token' : s₂.deeper.token = s.token := token
      rw [Run.get_bind, if_neg (token' ▸ other), token', ← beside.source]
      rfl
    exact ⟨_, s₂.deeper, (nested_of_room room).trans (Run.bind_of_error (Run.bind_of_error refuses))⟩

section
variable {inner inner' : Parser SelectionSet} (set : c.Reads (k + 1) inner inner' SelectionSet.bare selectionSetAt IsSelectionSet)
  (stands : s.Stands c.limited k) (sets : c.sets)
include set stands sets

theorem selectionSetWith_attempt :
    c.Attempt { viable := Viable IsSelectionSet } s (selectionSetWith inner) (selectionSetWith inner') := by
  refine Attempt.current ?_
  have items := many_attempt (E := { viable := Viable IsSelectionSet, offset := -1 }) (selectionWith_reads set)
    IsSelection.begins (stands_deeper stands) .braceOpen .braceClose rfl rfl (.nil (.of_derives isSelectionSet_a))
    fun ls viable => viable.lift [mark .braceOpen] fun ls parts derives => .of_append [mark .braceClose] (.intro derives.1 derives.2) rfl
  have nested := Attempt.nested (E := { viable := Viable IsSelectionSet }) stands
    (fun limit => missing_set stands sets limit rfl) items
  exact nested.bind fun selections s₁ _ _ _ stands₁ => .located stands₁ s.token _

end

theorem selectionSet_reads (sets : c.sets) (k : Nat) :
    c.Reads k selectionSet selectionSet SelectionSet.bare selectionSetAt IsSelectionSet :=
  levels_read selectionSetWithin selectionSetWith rfl (fun _ => rfl)
    (fun _ _ => selectionSetWithin_sound) (fun _ _ _ derives => derives.1) (fun _ _ => IsSelectionSet.bracketed)
    (fun _ _ _ set _ stands => selectionSetWith_attempt set stands sets) k

end QueryPlanner.Comparison
