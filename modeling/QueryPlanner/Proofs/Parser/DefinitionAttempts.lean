import QueryPlanner.Proofs.Parser.SelectionAttempts
import QueryPlanner.Proofs.Parser.Definitions

namespace QueryPlanner.Comparison
open Grammar ParserState QueryPlanner.Parser
open Lexeme (mark word)

variable {c : Comparison} {E : Expectation} {s : ParserState} {α β : Type} {k : Nat}

theorem maybeDefault_reads : c.Reads k maybeDefault maybeDefault (Option.map Value.bare)
    (fun n => Maybe (Within Value.depth IsDefault n)) (Maybe IsDefault) where
  sound := maybeDefault_sound
  sound' := maybeDefault_sound
  derives _ _ _ derives := (maybe_within.1 derives).1
  matched _ _ derives := derives.bracketed fun _ _ => IsDefault.bracketed
  attempt s stands := by
    refine Attempt.optionalMarkThen .equals rfl rfl stands (fun s₁ stands₁ => ?_) (.pure stands none)
    refine (value_reads true k).map stands₁ rfl (fun ls viable => ?_) some
    exact viable.lift [mark .equals] fun _ _ derives => .of_derives (.present (.intro derives))

theorem variableDefinition_attempt (stands : s.Stands c.limited k) :
    c.Attempt { viable := Viable IsVariableDefinition } s variableDefinition variableDefinition := by
  refine Attempt.congr variableDefinition_run (fun us s₂ some beside => by
    rw [variableDefinition_run, beside.token_eq some]) ?_
  have someType : IsTypeRef [word "a"] _ := .named (.intro "a")
  refine var_reads.andThen stands rfl (fun ls ⟨rest, v, derives⟩ => ?_) fun v vs s₁ named stands₁ => ?_
  · exact .of_append (rest ++ _) (.intro derives someType .absent .nil) (by rw [← List.append_assoc])
  refine Attempt.markThen .colon rfl rfl stands₁ ?_ fun _ s₂ stands₂ => ?_
  · exact .of_append _ (.intro named someType .absent .nil) (by simp; rfl)
  refine (typeRef_reads k).andThen stands₂ rfl (fun ls ⟨rest, type, derives⟩ => ?_) fun type ts s₃ typed stands₃ => ?_
  · exact .of_append rest (.intro named derives .absent .nil) (by simp)
  refine maybeDefault_reads.andThen stands₃ rfl (fun ls ⟨rest, value, derives⟩ => ?_) fun value ls s₄ valued stands₄ => ?_
  · exact .of_append rest (.intro named typed derives .nil) (by simp)
  refine (directives_reads true k).andThen stands₄ rfl (fun ls ⟨rest, ds, derives⟩ => ?_) fun directives ds s₅ _ stands₅ =>
    .located stands₅ s.token _
  exact .of_append rest (.intro named typed valued derives) (by simp)

theorem variableDefinition_reads : c.Reads k variableDefinition variableDefinition VariableDefinition.bare
    variableDefinitionAt IsVariableDefinition where
  sound := variableDefinition_sound
  sound' := variableDefinition_sound
  derives _ _ _ derives := derives.1
  matched _ _ := IsVariableDefinition.bracketed
  attempt _ stands := variableDefinition_attempt stands

theorem variableDefinitions_reads : c.Reads k variableDefinitions variableDefinitions (List.map VariableDefinition.bare)
    (fun n => Parenthesized (variableDefinitionAt n)) AreVariableDefinitions where
  sound := variableDefinitions_sound
  sound' := variableDefinitions_sound
  derives _ _ _ derives := (parenthesized_within.1 derives).1
  matched _ _ := AreVariableDefinitions.bracketed
  attempt _ stands := parenthesized_attempt variableDefinition_reads IsVariableDefinition.begins stands

theorem operationTypeThen {f g : OperationType → Parser β} {type : OperationType} (stands : s.Stands c.limited k)
    (name : s.token.kind = .name) (found : OperationType.ofText? s.token.value = some type)
    (next : ∀ s', s'.Stands c.limited k → c.Attempt (E.behind [word type.text]) s' (f type) (g type)) :
    c.Attempt E s (operationType >>= f) (operationType >>= g) := by
  have run {t : ParserState} (token : t.token = s.token) {h : OperationType → Parser β} :
      (operationType >>= h) t = (advance >>= fun _ => h type) t := by
    unfold operationType expectToken
    rw [bind_assoc, bind_assoc, Run.get_bind, if_pos (token ▸ name), bind_assoc, token]
    simp only [pure_bind, found]
  refine Attempt.congr (run rfl) (fun us s₂ some beside => run (beside.token_eq some)) ?_
  refine Attempt.advanceThen stands fun s' stands' => ?_
  rw [written_of_name name, OperationType.ofText?_eq_some_iff.1 found,
    Expectation.after_eq_behind (.word type.text)]
  exact next s' stands'

theorem maybeName_reads : c.Reads k maybeName maybeName (Option.map Name.bare) (fun _ => Maybe IsName) (Maybe IsName) where
  sound := maybeName_sound
  sound' := maybeName_sound
  derives _ _ _ derives := derives
  matched _ _ derives := derives.bracketed fun _ _ named => by cases named; exact .plain _ _ rfl
  attempt s stands := by
    refine Attempt.peekThen .name ?_
    split_ifs
    · have named := name_attempt (E := { viable := Viable (Maybe IsName) }) stands (.of_derives .absent)
      rw [map_eq_pure_bind]
      exact named.bind fun made s₁ _ _ _ stands₁ => .pure (stands.depth ▸ stands₁) (some made)
    · exact .pure stands none

theorem shorthand_attempt (sets : c.sets) (stands : s.Stands c.limited k) (start : Token) :
    c.Attempt { viable := Viable IsOperation } s (shorthand start) (shorthand start) := by
  refine (selectionSet_reads sets k).andThen stands rfl (fun ls viable => ?_) fun set ls s₁ _ stands₁ =>
    .located stands₁ start _
  exact viable.mono fun _ _ derives => .of_derives (.shorthand derives)

theorem namedOperation_attempt (sets : c.sets) (stands : s.Stands c.limited k) (start : Token) {type : OperationType}
    (name : s.token.kind = .name) (found : OperationType.ofText? s.token.value = some type) :
    c.Attempt { viable := Viable IsOperation } s (namedOperation start) (namedOperation start) := by
  refine operationTypeThen stands name found fun s₁ stands₁ => ?_
  refine maybeName_reads.andThen stands₁ rfl (fun ls ⟨rest, name, derives⟩ => ?_) fun name ns s₂ named stands₂ => ?_
  · exact .of_append (rest ++ _) (.intro type derives .absent .nil isSelectionSet_a) (by simp; rfl)
  refine variableDefinitions_reads.andThen stands₂ rfl (fun ls ⟨rest, vs, derives⟩ => ?_)
    fun definitions vs s₃ defined stands₃ => ?_
  · exact .of_append (rest ++ _) (.intro type named derives .nil isSelectionSet_a) (by simp; rfl)
  refine (directives_reads false k).andThen stands₃ rfl (fun ls ⟨rest, ds, derives⟩ => ?_)
    fun directives ds s₄ directed stands₄ => ?_
  · exact .of_append (rest ++ _) (.intro type named defined derives isSelectionSet_a) (by simp; rfl)
  refine (selectionSet_reads sets k).andThen stands₄ rfl (fun ls ⟨rest, set, derives⟩ => ?_) fun set ls s₅ _ stands₅ =>
    .located stands₅ start _
  exact .of_append rest (.intro type named defined directed derives) (by simp)

theorem operation_attempt (sets : c.sets) (stands : s.Stands c.limited k)
    (begins : s.token.kind = .braceOpen ∨ s.token.kind = .name ∧ (OperationType.ofText? s.token.value).isSome = true) :
    c.Attempt { viable := Viable IsOperation } s operation operation := by
  refine Attempt.congr operation_run (fun us s₂ some beside => by rw [operation_run, beside.token_eq some]) ?_
  refine Attempt.peekThen .braceOpen ?_
  split_ifs with brace
  · exact shorthand_attempt sets stands s.token
  · obtain ⟨name, found⟩ := begins.resolve_left (by simpa using brace)
    obtain ⟨type, found⟩ := Option.isSome_iff_exists.1 found
    exact namedOperation_attempt sets stands s.token name found

theorem fragmentVariables_reads : c.Reads k fragmentVariables fragmentVariables (Option.map (List.map VariableDefinition.bare))
    (fun n ls definitions => AreFragmentVariables c.limited.allowFragmentVariables ls definitions ∧
      deepest VariableDefinition.depth (definitions.getD []) ≤ n)
    (AreFragmentVariables c.limited.allowFragmentVariables) where
  sound := fragmentVariables_sound
  sound' := by
    rw [← c.definitions]
    exact fragmentVariables_sound
  derives _ _ _ derives := derives.1
  matched _ _ := AreFragmentVariables.bracketed
  attempt s stands := by
    have run (t : ParserState) (allowed : t.options.allowFragmentVariables = c.limited.allowFragmentVariables) :
        fragmentVariables t = (if c.limited.allowFragmentVariables then some <$> variableDefinitions else pure none :
          Parser (Option (List VariableDefinition))) t := by
      unfold fragmentVariables
      rw [Run.get_bind, allowed]
    refine Attempt.congr (run s (by rw [stands.options]))
      (fun us s₂ _ beside => run s₂ (by rw [beside.stands.options, c.definitions])) ?_
    cases c.limited.allowFragmentVariables with
    | false => exact .pure stands none
    | true =>
        exact variableDefinitions_reads.map stands rfl
          (fun ls viable => viable.mono fun _ _ derives => .of_derives (.allowed derives)) some

theorem isFragmentVariables_none (allowVariables : Bool) : ∃ definitions, AreFragmentVariables allowVariables [] definitions := by
  cases allowVariables
  · exact ⟨none, .excluded⟩
  · exact ⟨some [], .allowed .absent⟩

theorem fragment_attempt (sets : c.sets) (stands : s.Stands c.limited k) :
    c.Attempt { viable := Viable (IsFragment c.limited.allowFragmentVariables) } s fragment fragment := by
  refine Attempt.congr fragment_run (fun us s₂ some beside => by rw [fragment_run, beside.token_eq some]) ?_
  obtain ⟨noVariables, none⟩ := isFragmentVariables_none c.limited.allowFragmentVariables
  have someCondition : IsTypeCondition [word "on", word "a"] _ := .intro "a"
  have someFragment := IsFragment.intro (show ("a" : Text) ≠ "on" by decide) none someCondition .nil isSelectionSet_a
  refine Attempt.keywordThen "fragment" stands (.nil (.of_derives someFragment)) fun _ s₁ stands₁ => ?_
  refine fragmentName_reads.andThen stands₁ rfl (fun ls viable => viable.lift [word "fragment"] ?_)
    fun name ns s₂ read stands₂ => ?_
  · rintro _ _ ⟨⟨text⟩, proper⟩
    exact .of_append _ (.intro proper none someCondition .nil isSelectionSet_a) rfl
  obtain ⟨named, proper⟩ := read
  obtain ⟨text, _⟩ := name
  cases named
  refine fragmentVariables_reads.andThen stands₂ rfl (fun ls viable => ?_)
    fun definitions vs s₃ defined stands₃ => ?_
  · obtain ⟨rest, vs, derives⟩ := viable
    exact .of_append (rest ++ _) (.intro proper derives someCondition .nil isSelectionSet_a) (by simp [Name.bare]; rfl)
  refine Attempt.keywordThen "on" stands₃ ?_ fun _ s₄ stands₄ => ?_
  · exact .of_append _ (.intro proper defined someCondition .nil isSelectionSet_a) (by simp [Name.bare]; rfl)
  refine namedType_reads.andThen stands₄ rfl (fun ls viable => ?_) fun type ts s₅ typed stands₅ => ?_
  · obtain ⟨rest, type, typed⟩ := viable
    generalize ts_eq : ls ++ rest = ts at typed
    obtain ⟨typeText⟩ := typed
    refine .of_append (rest ++ [mark .braceOpen, word "a", mark .braceClose])
      (.intro proper defined (.intro typeText) .nil isSelectionSet_a) ?_
    simp [Name.bare, ← List.append_assoc ls rest, ts_eq]
  obtain ⟨⟨typeText, _⟩, _⟩ := type
  cases typed
  refine (directives_reads false k).andThen stands₅ rfl (fun ls viable => ?_)
    fun directives ds s₆ directed stands₆ => ?_
  · obtain ⟨rest, ds, derives⟩ := viable
    exact .of_append (rest ++ _) (.intro proper defined (.intro typeText) derives isSelectionSet_a) (by simp [Name.bare]; rfl)
  refine (selectionSet_reads sets k).andThen stands₆ rfl (fun ls viable => ?_) fun set ls s₇ _ stands₇ =>
    .located stands₇ s.token _
  obtain ⟨rest, set, derives⟩ := viable
  exact .of_append rest (.intro proper defined (.intro typeText) directed derives) (by simp [Name.bare])

theorem definition_attempt (sets : c.sets) (stands : s.Stands c.limited k) :
    c.Attempt { viable := Viable (IsDefinition c.limited.allowFragmentVariables) } s definition definition := by
  have operation (begins : s.token.kind = .braceOpen ∨
      s.token.kind = .name ∧ (OperationType.ofText? s.token.value).isSome = true) :
      c.Attempt { viable := Viable (IsDefinition c.limited.allowFragmentVariables) } s
        (do return Definition.operation (← operation)) (do return Definition.operation (← operation)) := by
    have attempt := (operation_attempt sets stands begins).weaken
      (E := { viable := Viable (IsDefinition c.limited.allowFragmentVariables) })
      (fun ls viable => viable.mono (H := IsOperation) fun _ _ derives => .of_derives (.operation derives)) rfl
    exact attempt.bind fun o s₁ _ _ _ stands₁ => .pure (stands.depth ▸ stands₁) (Definition.operation o)
  have fragment : c.Attempt { viable := Viable (IsDefinition c.limited.allowFragmentVariables) } s
      (do return Definition.fragment (← fragment)) (do return Definition.fragment (← fragment)) := by
    have attempt := (fragment_attempt sets stands).weaken
      (E := { viable := Viable (IsDefinition c.limited.allowFragmentVariables) })
      (fun ls viable => viable.mono (H := IsFragment _) fun _ _ derives => .of_derives (.fragment derives)) rfl
    exact attempt.bind fun f s₁ _ _ _ stands₁ => .pure (stands.depth ▸ stands₁) (Definition.fragment f)
  have empty : Viable (IsDefinition c.limited.allowFragmentVariables) [] :=
    .nil (.of_derives (.operation (.shorthand isSelectionSet_a)))
  refine Attempt.current ?_
  split_ifs with brace name type begins
  · exact operation (.inl brace)
  · exact operation (.inr ⟨name, type⟩)
  · exact fragment
  · exact Attempt.unexpectedAt empty fun _ _ _ _ => by simp [unexpectedAt]
  · exact Attempt.unexpectedAt empty fun _ _ _ _ => by simp [unexpectedAt]

theorem definition_reads (sets : c.sets) (k : Nat) : c.Reads k definition definition Definition.bare
    (definitionAt c.limited.allowFragmentVariables) (IsDefinition c.limited.allowFragmentVariables) where
  sound := definition_sound
  sound' := by
    rw [← c.definitions]
    exact definition_sound
  derives _ _ _ derives := derives.1
  matched _ _ := IsDefinition.bracketed
  attempt _ stands := definition_attempt sets stands

theorem definitions_attempt (sets : c.sets) (stands : s.Stands c.limited k) :
    c.Attempt { viable := Viable (IsDocument c.limited.allowFragmentVariables) } s (oneOrMore definition .endOfFile)
      (oneOrMore definition .endOfFile) :=
  oneOrMore_attempt (definition_reads sets k) (IsDefinition.begins _) stands rfl
    (fun _ viable => viable.mono fun _ _ derives => .of_derives (.intro derives.1 derives.2)) .endOfFile

end QueryPlanner.Comparison
