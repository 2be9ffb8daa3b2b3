import QueryPlanner.Proofs.Parser.AttemptLists
import QueryPlanner.Proofs.Parser.Types

namespace QueryPlanner.Comparison
open Grammar ParserState QueryPlanner.Parser
open Lexeme (mark word)

variable {c : Comparison} {E : Expectation} {s : ParserState} {α β : Type} {k : Nat} {isConst : Bool}

theorem nameThen {f g : Name → Parser β} (stands : s.Stands c.limited k) (begins : E.viable [])
    (next : ∀ made s', s'.Stands c.limited k → c.Attempt (E.behind [word made.text]) s' (f made) (g made)) :
    c.Attempt E s (name >>= f) (name >>= g) := by
  unfold name
  simp only [bind_assoc, pure_bind]
  refine Attempt.expectThen .name stands begins fun found s' stands' => ?_
  rw [written_of_name found, Expectation.after_eq_behind (.word s.token.value)]
  exact .locatedThen stands' s.token fun loc => next ⟨s.token.value, loc⟩ s' stands'

theorem name_attempt (stands : s.Stands c.limited k) (begins : E.viable []) : c.Attempt E s name name := by
  have named := nameThen (f := Pure.pure) (g := Pure.pure) stands begins fun made s' stands' => .pure stands' made
  rwa [bind_pure] at named

theorem var_attempt (stands : s.Stands c.limited k) : c.Attempt { viable := Viable IsVariable } s var var := by
  have whole (text : Text) : Viable IsVariable [mark .dollar, word text] := .of_derives (.intro text)
  refine Attempt.markThen .dollar rfl rfl stands (whole "a").nil fun start s₁ stands₁ => ?_
  refine nameThen stands₁ ((whole "a").cut [mark .dollar]) fun made s₂ stands₂ => ?_
  exact .located stands₂ start _

theorem var_reads : c.Reads k var var Variable.bare (fun _ => IsVariable) IsVariable where
  sound := var_sound
  sound' := var_sound
  derives _ _ _ derives := derives
  matched _ _ := IsVariable.bracketed
  attempt _ stands := var_attempt stands

section
variable {inner inner' : Parser Value} (value : c.Reads k inner inner' Value.bare (valueAt isConst) (IsValue isConst))
include value

theorem labelled_attempt {G : List Lexeme → β → Prop}
    (complete : ∀ text ls value, IsValue isConst ls value → Viable G ([word text] ++ ([mark .colon] ++ ls)))
    (make : Name → Value → Option Location → α) (stands : s.Stands c.limited k) :
    c.Attempt { viable := Viable G } s (labelled inner make) (labelled inner' make) := by
  have some := complete "a" _ _ .null
  refine Attempt.current ?_
  refine nameThen stands some.nil fun name s₁ stands₁ => ?_
  refine Attempt.markThen .colon rfl rfl stands₁ ((complete name.text _ _ .null).cut [word name.text]) fun _ s₂ stands₂ => ?_
  refine value.andThen stands₂ rfl (fun ls viable => ?_) fun value ls s₃ derives stands₃ => .located stands₃ s.token _
  exact viable.lift ([word name.text] ++ [mark .colon]) (complete name.text)

theorem objectFieldWith_reads : c.Reads k (objectFieldWith inner) (objectFieldWith inner') ObjectField.bare
    (objectFieldAt isConst) (IsObjectField isConst) where
  sound := objectFieldWith_sound value.sound
  sound' := objectFieldWith_sound value.sound'
  derives _ _ _ derives := derives.1
  matched _ _ := IsObjectField.bracketed
  attempt _ stands := labelled_attempt value (fun text _ _ derives => .of_derives (.intro text derives)) ObjectField.mk stands

end

theorem isValue_viable_nil : Viable (IsValue isConst) [] := .nil (.of_derives .null)

section
variable {inner inner' : Parser Value} (value : c.Reads (k + 1) inner inner' Value.bare (valueAt isConst) (IsValue isConst))
  (stands : s.Stands c.limited k)
include value stands

theorem listWith_attempt (found : s.token.kind = .bracketOpen) :
    c.Attempt { viable := Viable (IsValue isConst) } s (listWith inner) (listWith inner') := by
  refine Attempt.current ?_
  have items := any_attempt (E := { viable := Viable (IsValue isConst), offset := -1 }) value (IsValue.begins isConst)
    (stands_deeper stands) .bracketOpen .bracketClose rfl rfl isValue_viable_nil fun ls viable =>
      viable.lift [mark .bracketOpen] fun ls parts derives => .of_append [mark .bracketClose] (.list derives.1) rfl
  have nested := Attempt.nested (E := { viable := Viable (IsValue isConst) }) stands (fun limit => .full stands limit (by rw [found]; exact Int.one_pos)) items
  exact nested.bind fun values s₁ _ _ _ stands₁ => .located stands₁ s.token _

theorem objectWith_attempt (found : s.token.kind = .braceOpen) :
    c.Attempt { viable := Viable (IsValue isConst) } s (objectWith inner) (objectWith inner') := by
  refine Attempt.current ?_
  have items := any_attempt (E := { viable := Viable (IsValue isConst), offset := -1 }) (objectFieldWith_reads value)
    (IsObjectField.begins isConst) (stands_deeper stands) .braceOpen .braceClose rfl rfl isValue_viable_nil fun ls viable =>
      viable.lift [mark .braceOpen] fun ls parts derives => .of_append [mark .braceClose] (.object derives.1) rfl
  have nested := Attempt.nested (E := { viable := Viable (IsValue isConst) }) stands (fun limit => .full stands limit (by rw [found]; exact Int.one_pos)) items
  exact nested.bind fun fields s₁ _ _ _ stands₁ => .located stands₁ s.token _

end

theorem variableInConstant_attempt (stands : s.Stands c.limited k) (found : s.token.kind = .dollar) (begins : E.viable []) :
    c.Attempt E s (variableInConstant s.token) (variableInConstant s.token) := by
  have refuses (s₂ : ParserState) (_ : s₂.token = s.token) (a : Value) (s₂' : ParserState) :
      variableInConstant s.token s₂ ≠ .ok a s₂' := variableInConstant_fails
  have opened : expectToken .dollar s = (advance >>= fun _ => pure s.token) s := by
    unfold expectToken
    rw [Run.get_bind, if_pos found]
  unfold Attempt
  obtain ⟨fault, s', -, run⟩ | ⟨most, token, text, s', limit, run⟩ | ⟨s', run, -, source, -⟩ := advance_takes stands
  · have run : variableInConstant s.token s = .error (.lexical s.source fault) s' :=
      Run.bind_of_error (opened.trans (Run.bind_of_error run))
    exact run ▸ .lexical fault
  · have run : variableInConstant s.token s = .error (.grammar s.source token text) s' :=
      Run.bind_of_error (opened.trans (Run.bind_of_error run))
    exact run ▸ .overrun token text limit
  · have opened : expectToken .dollar s = .ok s.token s' := opened.trans (Run.bind_of_ok run)
    have run : ∃ text, variableInConstant s.token s = .error (.grammar s.source s.token text) s' := by
      unfold variableInConstant
      rw [Run.bind_of_ok opened, Run.get_bind, ← source]
      split_ifs
      · exact ⟨_, rfl⟩
      · exact ⟨_, rfl⟩
    obtain ⟨text, run⟩ := run
    exact run ▸ Fails.here text none begins refuses

theorem literal_attempt (stands : s.Stands c.limited k) (start : Token) (make : Option Location → α) :
    c.Attempt E s (do advance; return make (← locationFrom start)) (do advance; return make (← locationFrom start)) :=
  Attempt.advanceThen stands fun _ stands' => .located stands' start make

theorem valueWith_attempt {inner inner' : Parser Value}
    (value : c.Reads (k + 1) inner inner' Value.bare (valueAt isConst) (IsValue isConst)) (stands : s.Stands c.limited k) :
    c.Attempt { viable := Viable (IsValue isConst) } s (valueWith isConst inner) (valueWith isConst inner') := by
  refine Attempt.current ?_
  cases kind : s.token.kind <;> simp only
  case bracketOpen => exact listWith_attempt value stands kind
  case braceOpen => exact objectWith_attempt value stands kind
  case int => exact literal_attempt stands s.token fun loc => Value.int s.token.value loc
  case float => exact literal_attempt stands s.token fun loc => Value.float s.token.value loc
  case string | blockString =>
      refine Attempt.current ?_
      exact literal_attempt stands s.token fun loc => Value.string s.token.value (s.token.kind == .blockString) loc
  case name =>
      rw [nameValue_eq]
      exact literal_attempt stands s.token (named s.token.value)
  case dollar =>
      cases isConst with
      | true => exact variableInConstant_attempt stands kind isValue_viable_nil
      | false =>
          refine var_reads.andThen stands rfl (fun ls viable => ?_) fun v ls s' _ stands' => .pure stands' (Value.var v)
          exact viable.mono fun ls v derives => .of_derives (.var rfl derives)
  all_goals exact Attempt.unexpected isValue_viable_nil fun _ _ _ _ => unexpected_fails

theorem value_reads (isConst : Bool) (k : Nat) :
    c.Reads k (value isConst) (value isConst) Value.bare (valueAt isConst) (IsValue isConst) :=
  levels_read (valueWithin isConst) (valueWith isConst) rfl (fun _ => rfl) (fun _ _ => valueWithin_sound)
    (fun _ _ _ derives => derives.1) (fun _ _ => IsValue.bracketed) (fun _ _ _ value _ stands => valueWith_attempt value stands) k

theorem argument_reads (isConst : Bool) (k : Nat) :
    c.Reads k (argument isConst) (argument isConst) Argument.bare (argumentAt isConst) (IsArgument isConst) where
  sound := argument_sound
  sound' := argument_sound
  derives _ _ _ derives := derives.1
  matched _ _ := IsArgument.bracketed
  attempt _ stands := labelled_attempt (value_reads isConst k) (fun text _ _ derives => .of_derives (.intro text derives))
    Argument.mk stands

theorem arguments_reads (isConst : Bool) (k : Nat) : c.Reads k (arguments isConst) (arguments isConst) (List.map Argument.bare)
    (fun n => Parenthesized (argumentAt isConst n)) (Parenthesized (IsArgument isConst)) where
  sound := arguments_sound
  sound' := arguments_sound
  derives _ _ _ derives := (parenthesized_within.1 derives).1
  matched _ _ derives := derives.bracketed fun _ _ => IsArgument.bracketed
  attempt _ stands := parenthesized_attempt (argument_reads isConst k) (IsArgument.begins isConst) stands

theorem directive_attempt (stands : s.Stands c.limited k) :
    c.Attempt { viable := Viable (IsDirective isConst) } s (directive isConst) (directive isConst) := by
  have whole {ls : List Lexeme} {arguments : List Argument} (text : Text)
      (derives : Parenthesized (IsArgument isConst) ls arguments) :
      Viable (IsDirective isConst) ([mark .atSign] ++ ([word text] ++ ls)) := .of_derives (.intro text derives)
  refine Attempt.markThen .atSign rfl rfl stands (whole "a" .absent).nil fun start s₁ stands₁ => ?_
  refine nameThen stands₁ ((whole "a" .absent).cut [mark .atSign]) fun name s₂ stands₂ => ?_
  refine (arguments_reads isConst k).andThen stands₂ rfl (fun ls viable => ?_) fun arguments ls s₃ derives stands₃ =>
    .located stands₃ start _
  exact viable.lift ([mark .atSign] ++ [word name.text]) fun _ _ => whole name.text

theorem directive_reads (isConst : Bool) (k : Nat) :
    c.Reads k (directive isConst) (directive isConst) Directive.bare (directiveAt isConst) (IsDirective isConst) where
  sound := directive_sound
  sound' := directive_sound
  derives _ _ _ derives := derives.1
  matched _ _ := IsDirective.bracketed
  attempt _ stands := directive_attempt stands

theorem directives_reads (isConst : Bool) (k : Nat) : c.Reads k (directives isConst) (directives isConst)
    (List.map Directive.bare) (fun n => Sequence (directiveAt isConst n)) (AreDirectives isConst) where
  sound := directives_sound
  sound' := directives_sound
  derives _ _ _ derives := (sequence_within.1 derives).1
  matched _ _ := AreDirectives.bracketed
  attempt _ stands := asLong_attempt (directive_reads isConst k) (IsDirective.begins isConst) stands rfl
    (fun _ viable => viable.mono fun _ _ derives => .of_derives derives.1) .atSign

theorem namedType_reads : c.Reads k namedType namedType NamedType.bare (fun _ => IsNamedType) IsNamedType where
  sound := namedType_sound
  sound' := namedType_sound
  derives _ _ _ derives := derives
  matched _ _ := IsNamedType.bracketed
  attempt s stands := by
    refine Attempt.current ?_
    refine nameThen stands (.nil (.of_derives (.intro "a"))) fun name s₁ stands₁ => .located stands₁ s.token _

section
variable {inner inner' : Parser TypeRef} (item : c.Reads (k + 1) inner inner' TypeRef.bare typeRefAt IsTypeRef)
  (stands : s.Stands c.limited k)
include item stands

theorem typeHead_attempt (start : Token) :
    c.Attempt { viable := Viable IsTypeRef } s (typeHead inner start) (typeHead inner' start) := by
  have whole (ls : List Lexeme) (type : TypeRef) (derives : IsTypeRef ls type) : Viable IsTypeRef ([mark .bracketOpen] ++ ls) :=
    .of_append [mark .bracketClose] (.list derives) rfl
  refine Attempt.optionalThen .bracketOpen stands (fun found s₁ stands₁ => ?_) fun _ => ?_
  · rw [Token.written_of_kind found (.inl rfl)]
    refine item.nestedThen stands₁ rfl (fun ls viable => viable.lift [mark .bracketOpen] whole) fun type ls s₂ derives stands₂ => ?_
    have closing : Viable IsTypeRef ([mark .bracketOpen] ++ (ls ++ [])) := (List.append_nil ls).symm ▸ whole ls _ derives
    exact Attempt.expectThen .bracketClose stands₂ closing fun _ s₃ stands₃ => .located stands₃ start _
  · exact namedType_reads.map stands rfl (fun ls viable => viable.mono fun _ _ derives => .of_derives (.named derives)) _

omit item in
theorem typeMark_attempt (start : Token) (type : TypeRef) : c.Attempt E s (typeMark start type) (typeMark start type) :=
  Attempt.optionalThen .bang stands (fun _ _ stands' => .located stands' start _) fun _ => .pure stands type

theorem typeRefWith_attempt : c.Attempt { viable := Viable IsTypeRef } s (typeRefWith inner) (typeRefWith inner') := by
  refine Attempt.congr typeRefWith_run (fun us s₂ some beside => ?_) ((typeHead_attempt item stands s.token).bind
    fun type s₁ _ _ _ stands₁ => typeMark_attempt stands₁ s.token type)
  rw [typeRefWith_run, beside.token_eq some]

end

theorem typeRef_reads (k : Nat) : c.Reads k typeRef typeRef TypeRef.bare typeRefAt IsTypeRef :=
  levels_read typeRefWithin typeRefWith rfl (fun _ => rfl) (fun _ _ => typeRefWithin_sound)
    (fun _ _ _ derives => derives.1) (fun _ _ => IsTypeRef.bracketed) (fun _ _ _ item _ stands => typeRefWith_attempt item stands) k

section
variable {inner inner' : Parser (Option Modifier)}
  (element : c.Reads (k + 1) inner inner' (Option.map Modifier.bare) modifierAt IsModifier) (stands : s.Stands c.limited k)
include element stands

theorem modifierHead_attempt (start : Token) :
    c.Attempt { viable := Viable IsModifier } s (modifierHead inner start) (modifierHead inner' start) := by
  have whole (ls : List Lexeme) (element : Option Modifier) (derives : IsModifier ls element) :
      Viable IsModifier ([mark .bracketOpen] ++ ls) :=
    .of_append [mark .bracketClose] (.unmarked (.list derives)) rfl
  refine Attempt.optionalThen .bracketOpen stands (fun found s₁ stands₁ => ?_) fun _ => .pure stands none
  rw [Token.written_of_kind found (.inl rfl)]
  simp only [if_true, map_eq_pure_bind, listModifierWith, bind_assoc, pure_bind]
  refine element.nestedThen stands₁ rfl (fun ls viable => viable.lift [mark .bracketOpen] whole) fun element ls s₂ derives stands₂ => ?_
  have closing : Viable IsModifier ([mark .bracketOpen] ++ (ls ++ [])) := (List.append_nil ls).symm ▸ whole ls _ derives
  exact Attempt.expectThen .bracketClose stands₂ closing fun _ s₃ stands₃ => .located stands₃ start _

omit element in
theorem modifierMark_attempt (start : Token) (element : Option Modifier) :
    c.Attempt E s (modifierMark start element) (modifierMark start element) :=
  Attempt.optionalThen .bang stands (fun _ _ stands' => .located stands' start _) fun _ =>
    Attempt.optionalThen .questionMark stands (fun _ _ stands' => .located stands' start _) fun _ => .pure stands element

theorem modifierWith_attempt : c.Attempt { viable := Viable IsModifier } s (modifierWith inner) (modifierWith inner') := by
  refine Attempt.congr modifierWith_run (fun us s₂ some beside => ?_) ((modifierHead_attempt element stands s.token).bind
    fun element s₁ _ _ _ stands₁ => modifierMark_attempt stands₁ s.token element)
  rw [modifierWith_run, beside.token_eq some]

end

theorem modifier_reads (k : Nat) : c.Reads k modifier modifier (Option.map Modifier.bare) modifierAt IsModifier :=
  levels_read modifierWithin modifierWith rfl (fun _ => rfl) (fun _ _ => modifierWithin_sound)
    (fun _ _ _ derives => derives.1) (fun _ _ => IsModifier.bracketed)
    (fun _ _ _ element _ stands => modifierWith_attempt element stands) k

end QueryPlanner.Comparison
