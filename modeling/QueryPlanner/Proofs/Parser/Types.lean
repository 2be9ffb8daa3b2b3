import QueryPlanner.Parser.Types
import QueryPlanner.Proofs.Parser.Values

namespace QueryPlanner.Grammar

theorem IsNamedType.begins : BeginsWith IsNamedType [.name] := by
  rintro _ _ ⟨text⟩
  exact ⟨_, _, rfl, List.mem_singleton_self _⟩

theorem IsTypeRef.begins : BeginsWith IsTypeRef [.name, .bracketOpen] := by
  intro ls type derives
  induction derives with
  | named derives =>
      cases derives with
      | intro text => exact ⟨_, _, rfl, by simp [Lexeme.word]⟩
  | list _ _ => exact ⟨_, _, rfl, by simp [Lexeme.mark]⟩
  | nonNull _ _ ih =>
      obtain ⟨l, rest, rfl, kind⟩ := ih
      exact ⟨l, _, rfl, kind⟩

theorem IsModifier.begins : MayBeginWith IsModifier [.bracketOpen, .bang, .questionMark] := by
  rintro _ _ ((_ | _) | (_ | _) | (_ | _)) rest
  · exact .inr rfl
  all_goals exact .inl (by simp [Lexeme.mark])

end QueryPlanner.Grammar

namespace QueryPlanner.Parser
open Run ParserState Grammar
open Lexeme (mark word)

variable {o : ParseOptions} {n : Nat} {s s' : ParserState}

abbrev typeRefAt : Nat → List Lexeme → TypeRef → Prop := Within TypeRef.depth IsTypeRef

theorem namedType_sound : SoundAt o n namedType NamedType.bare IsNamedType := by
  intro s made s' valid here h
  simp only [namedType, currentToken_bind, bind_ok, locationFrom_ok, pure_ok] at h
  obtain ⟨made, s₁, named, _, _, ⟨rfl, rfl⟩, rfl, rfl⟩ := h
  obtain ⟨_, derives, taken⟩ := name_sound valid here named
  obtain ⟨text⟩ := made
  cases derives
  exact ⟨_, .intro _, taken⟩

theorem namedType_complete : CompleteAt o n namedType NamedType.bare IsNamedType [] := by
  rintro s _ _ rest ready here ⟨text⟩ remaining follows
  obtain ⟨made, s₁, named, bare, c₁⟩ := name_complete ready here (.intro text) remaining follows
  refine ⟨⟨made, located s₁ s.token⟩, s₁, ?_, by rw [NamedType.bare, bare], c₁⟩
  simp only [namedType, currentToken_bind, bind_ok, locationFrom_ok, pure_ok]
  exact ⟨made, s₁, named, _, _, ⟨rfl, rfl⟩, rfl, rfl⟩

section
variable {inner : Parser TypeRef}

theorem listTypeWith_sound (sound : ∀ m, n = m + 1 → SoundAt o m inner TypeRef.bare (typeRefAt m)) {start : Token}
    {made : TypeRef} (valid : s.Valid) (here : s.At o n) (h : listTypeWith inner start s = .ok made s') :
    ∃ ls, typeRefAt n (mark .bracketOpen :: (ls ++ [mark .bracketClose])) made.bare ∧ made.isNonNull = false ∧
      Consumes (ls ++ [mark .bracketClose]) s s' := by
  simp only [listTypeWith, bind_ok, locationFrom_ok, pure_ok] at h
  obtain ⟨item, s₁, read, t, s₂, closed, _, _, ⟨rfl, rfl⟩, rfl, rfl⟩ := h
  obtain ⟨ls, ⟨m, rfl, derives, low⟩, taken⟩ := nested_sound sound valid here read
  exact ⟨ls, ⟨.list derives, Nat.succ_le_succ low⟩, rfl, taken.trans (expectMark_sound taken.valid closed rfl)⟩

theorem listTypeWith_complete (complete : ∀ m, n = m + 1 → CompleteAt o m inner TypeRef.bare (typeRefAt m) [.bang])
    (start : Token) {ls rest : List Lexeme} {item : TypeRef} (ready : s.Ready) (here : s.At o n)
    (derives : IsTypeRef ls item) (low : (TypeRef.list item none).depth ≤ n)
    (remaining : s.remaining = ls ++ (mark .bracketClose :: rest)) :
    ∃ made s', listTypeWith inner start s = .ok made s' ∧ made.bare = .list item none ∧
      Consumes (ls ++ [mark .bracketClose]) s s' := by
  rw [TypeRef.depth] at low
  obtain ⟨m, rfl⟩ := Nat.exists_eq_succ_of_ne_zero (Nat.ne_of_gt (Nat.zero_lt_of_lt low))
  obtain ⟨made, s₁, read, rfl, c₁⟩ := nested_complete complete ready here
    ⟨m, rfl, derives, Nat.le_of_succ_le_succ low⟩ remaining (by simp [mark])
  obtain ⟨s₂, closed, c₂⟩ := expectToken_complete (c₁.ready ready) (c₁.rest remaining)
  refine ⟨.list made (located s₂ start), s₂, ?_, rfl, c₁.trans c₂⟩
  simp only [listTypeWith, bind_ok, locationFrom_ok, pure_ok]
  exact ⟨made, s₁, read, _, s₂, closed, _, _, ⟨rfl, rfl⟩, rfl, rfl⟩

def typeHead (inner : Parser TypeRef) (start : Token) : Parser TypeRef := do
  if ← optionalToken .bracketOpen then listTypeWith inner start else .named <$> namedType

def typeMark (start : Token) (type : TypeRef) : Parser TypeRef := do
  if ← optionalToken .bang then return .nonNull type (← locationFrom start)
  return type

theorem typeRefWith_run : typeRefWith inner s = (typeHead inner s.token >>= typeMark s.token) s := by
  unfold typeRefWith typeHead typeMark
  rw [currentToken_bind, bind_assoc]
  refine congrArg (fun next => (optionalToken .bracketOpen >>= next) s) (funext fun bracket => ?_)
  cases bracket <;> rfl

theorem typeHead_sound (sound : ∀ m, n = m + 1 → SoundAt o m inner TypeRef.bare (typeRefAt m)) {start : Token}
    {made : TypeRef} (valid : s.Valid) (here : s.At o n) (h : typeHead inner start s = .ok made s') :
    ∃ ls, typeRefAt n ls made.bare ∧ made.isNonNull = false ∧ Consumes ls s s' := by
  unfold typeHead at h
  obtain ⟨bracket, s₁, looked, h⟩ := bind_ok.1 h
  obtain ⟨rfl, -, taken⟩ | ⟨rfl, rfl⟩ := optionalToken_sound valid looked (.inl rfl)
  · obtain ⟨ls, derives, plain, taken'⟩ := listTypeWith_sound sound taken.valid (taken.at_iff.2 here) h
    exact ⟨_, derives, plain, taken.trans taken'⟩
  · obtain ⟨type, named, rfl⟩ := map_ok.1 h
    obtain ⟨ls, derives, taken⟩ := namedType_sound valid here named
    exact ⟨ls, ⟨.named derives, Nat.zero_le n⟩, rfl, taken⟩

theorem typeRefWith_sound (sound : ∀ m, n = m + 1 → SoundAt o m inner TypeRef.bare (typeRefAt m)) :
    SoundAt o n (typeRefWith inner) TypeRef.bare (typeRefAt n) := by
  intro s made s' valid here h
  rw [typeRefWith_run] at h
  obtain ⟨type, s₁, read, h⟩ := bind_ok.1 h
  obtain ⟨ls, ⟨derives, low⟩, plain, taken⟩ := typeHead_sound sound valid here read
  unfold typeMark at h
  obtain ⟨bang, s₂, looked, h⟩ := bind_ok.1 h
  obtain ⟨rfl, -, taken'⟩ | ⟨rfl, rfl⟩ := optionalToken_sound taken.valid looked (.inl rfl)
  · simp only [if_true, bind_ok, locationFrom_ok, pure_ok] at h
    obtain ⟨_, _, ⟨rfl, rfl⟩, rfl, rfl⟩ := h
    exact ⟨_, ⟨.nonNull derives (by simpa using plain), low⟩, taken.trans taken'⟩
  · obtain ⟨rfl, rfl⟩ := pure_ok.1 h
    exact ⟨ls, ⟨derives, low⟩, taken⟩

theorem typeHead_complete (complete : ∀ m, n = m + 1 → CompleteAt o m inner TypeRef.bare (typeRefAt m) [.bang])
    (start : Token) {ls rest : List Lexeme} {type : TypeRef} (ready : s.Ready) (here : s.At o n)
    (derives : typeRefAt n ls type) (plain : type.isNonNull = false) (remaining : s.remaining = ls ++ rest) :
    ∃ made s', typeHead inner start s = .ok made s' ∧ made.bare = type ∧ Consumes ls s s' := by
  obtain ⟨derives, low⟩ := derives
  unfold typeHead
  cases derives with
  | named derives =>
      obtain ⟨type, s₁, read, rfl, c₁⟩ := namedType_complete ready here derives remaining List.not_mem_nil
      have skipped := optionalToken_skip .bracketOpen ready.toValid (by
        rw [remaining, List.mem_singleton.1 (IsNamedType.begins.nextKind derives rest)]
        decide)
      exact ⟨.named type, s₁, bind_ok.2 ⟨false, s, skipped, map_ok.2 ⟨type, read, rfl⟩⟩, rfl, c₁⟩
  | list derives =>
      simp only [List.cons_append, List.append_assoc] at remaining
      obtain ⟨s₁, opened, c₁⟩ := optionalToken_take .bracketOpen ready (by rw [remaining]; rfl) (.inl rfl)
      obtain ⟨made, s₂, read, bare, c₂⟩ := listTypeWith_complete complete start (c₁.ready ready) (c₁.at_iff.2 here)
        derives low (c₁.rest remaining)
      exact ⟨made, s₂, bind_ok.2 ⟨true, s₁, opened, read⟩, bare, c₁.trans c₂⟩
  | nonNull => contradiction

theorem typeRefWith_complete (complete : ∀ m, n = m + 1 → CompleteAt o m inner TypeRef.bare (typeRefAt m) [.bang]) :
    CompleteAt o n (typeRefWith inner) TypeRef.bare (typeRefAt n) [.bang] := by
  intro s ls type rest ready here derives remaining follows
  rw [typeRefWith_run]
  cases plain : type.isNonNull with
  | false =>
      obtain ⟨made, s₁, read, rfl, c₁⟩ := typeHead_complete complete s.token ready here derives plain remaining
      have skipped := optionalToken_skip .bang c₁.valid (by rw [c₁.rest remaining]; simpa using follows)
      exact ⟨made, s₁, bind_ok.2 ⟨made, s₁, read, bind_ok.2 ⟨false, s₁, skipped, pure_ok.2 ⟨rfl, rfl⟩⟩⟩, rfl, c₁⟩
  | true =>
      obtain ⟨derives, low⟩ := derives
      cases derives with
      | nonNull derives inside =>
          rw [List.append_assoc] at remaining
          obtain ⟨made, s₁, read, rfl, c₁⟩ := typeHead_complete complete s.token ready here ⟨derives, low⟩ inside remaining
          obtain ⟨s₂, taken, c₂⟩ := optionalToken_take .bang (c₁.ready ready) (by rw [c₁.rest remaining]; rfl) (.inl rfl)
          refine ⟨.nonNull made (located s₂ s.token), s₂, bind_ok.2 ⟨made, s₁, read, bind_ok.2 ⟨true, s₂, taken, ?_⟩⟩, rfl,
            c₁.trans c₂⟩
          exact bind_ok.2 ⟨_, s₂, locationFrom_ok.2 ⟨rfl, rfl⟩, pure_ok.2 ⟨rfl, rfl⟩⟩
      | named | list => contradiction

end

theorem typeRefWithin_sound : SoundAt o n (typeRefWithin n) TypeRef.bare (typeRefAt n) := by
  induction n with
  | zero => exact typeRefWith_sound fun m level => absurd level (Nat.succ_ne_zero m).symm
  | succ n ih => exact typeRefWith_sound fun m level => Nat.succ.inj level ▸ ih

theorem typeRefWithin_complete : CompleteAt o n (typeRefWithin n) TypeRef.bare (typeRefAt n) [.bang] := by
  induction n with
  | zero => exact typeRefWith_complete fun m level => absurd level (Nat.succ_ne_zero m).symm
  | succ n ih => exact typeRefWith_complete fun m level => Nat.succ.inj level ▸ ih

theorem typeRef_sound : SoundAt o n typeRef TypeRef.bare (typeRefAt n) := typeRefWithin_sound.ofLevels

theorem typeRef_complete : CompleteAt o n typeRef TypeRef.bare (typeRefAt n) [.bang] := typeRefWithin_complete.ofLevels

abbrev modifierAt : Nat → List Lexeme → Option Modifier → Prop := Within elementDepth IsModifier

abbrev bracketsAt : Nat → List Lexeme → Option Modifier → Prop := Within elementDepth IsBrackets

section
variable {inner : Parser (Option Modifier)}

def modifierHead (inner : Parser (Option Modifier)) (start : Token) : Parser (Option Modifier) := do
  if ← optionalToken .bracketOpen then some <$> listModifierWith inner start else pure none

def modifierMark (start : Token) (element : Option Modifier) : Parser (Option Modifier) := do
  if ← optionalToken .bang then return some (.required element (← locationFrom start))
  if ← optionalToken .questionMark then return some (.optional element (← locationFrom start))
  return element

theorem modifierWith_run : modifierWith inner s = (modifierHead inner s.token >>= modifierMark s.token) s := by
  unfold modifierWith modifierHead modifierMark
  rw [currentToken_bind, bind_assoc]
  refine congrArg (fun next => (optionalToken .bracketOpen >>= next) s) (funext fun bracket => ?_)
  cases bracket <;> rfl

theorem modifierHead_sound
    (sound : ∀ m, n = m + 1 → SoundAt o m inner (Option.map Modifier.bare) (modifierAt m)) (start : Token) :
    SoundAt o n (modifierHead inner start) (Option.map Modifier.bare) (bracketsAt n) := by
  intro s made s' valid here h
  unfold modifierHead at h
  obtain ⟨bracket, s₁, looked, h⟩ := bind_ok.1 h
  obtain ⟨rfl, -, taken⟩ | ⟨rfl, rfl⟩ := optionalToken_sound valid looked (.inl rfl)
  · simp only [if_true, map_ok, listModifierWith, bind_ok, locationFrom_ok, pure_ok] at h
    obtain ⟨_, ⟨element, s₂, read, t, s₃, closed, _, _, ⟨rfl, rfl⟩, rfl, rfl⟩, rfl⟩ := h
    obtain ⟨ls, ⟨m, rfl, derives, low⟩, taken₁⟩ := nested_sound sound taken.valid (taken.at_iff.2 here) read
    refine ⟨_, ⟨?_, ?_⟩, taken.trans (taken₁.trans (expectMark_sound taken₁.valid closed rfl))⟩
    · rw [Option.map_some, Modifier.bare, bareElement_eq_map]
      exact .list derives
    · rw [Option.map_some, Modifier.bare, bareElement_eq_map]
      exact Nat.succ_le_succ low
  · obtain ⟨rfl, rfl⟩ := pure_ok.1 h
    exact ⟨[], ⟨.absent, Nat.zero_le n⟩, .refl valid⟩

theorem modifierWith_sound
    (sound : ∀ m, n = m + 1 → SoundAt o m inner (Option.map Modifier.bare) (modifierAt m)) :
    SoundAt o n (modifierWith inner) (Option.map Modifier.bare) (modifierAt n) := by
  intro s made s' valid here h
  rw [modifierWith_run] at h
  obtain ⟨element, s₁, read, h⟩ := bind_ok.1 h
  obtain ⟨ls, ⟨derives, low⟩, taken⟩ := modifierHead_sound sound s.token valid here read
  unfold modifierMark at h
  obtain ⟨bang, s₂, looked, h⟩ := bind_ok.1 h
  obtain ⟨rfl, -, taken'⟩ | ⟨rfl, rfl⟩ := optionalToken_sound taken.valid looked (.inl rfl)
  · simp only [if_true, bind_ok, locationFrom_ok, pure_ok] at h
    obtain ⟨_, _, ⟨rfl, rfl⟩, rfl, rfl⟩ := h
    refine ⟨_, ⟨?_, ?_⟩, taken.trans taken'⟩
    · rw [Option.map_some, Modifier.bare, bareElement_eq_map]
      exact .required derives
    · rw [Option.map_some, Modifier.bare, bareElement_eq_map]
      exact low
  · simp only [Bool.false_eq_true, if_false] at h
    obtain ⟨question, s₂, looked, h⟩ := bind_ok.1 h
    obtain ⟨rfl, -, taken'⟩ | ⟨rfl, rfl⟩ := optionalToken_sound taken.valid looked (.inl rfl)
    · simp only [if_true, bind_ok, locationFrom_ok, pure_ok] at h
      obtain ⟨_, _, ⟨rfl, rfl⟩, rfl, rfl⟩ := h
      refine ⟨_, ⟨?_, ?_⟩, taken.trans taken'⟩
      · rw [Option.map_some, Modifier.bare, bareElement_eq_map]
        exact .optional derives
      · rw [Option.map_some, Modifier.bare, bareElement_eq_map]
        exact low
    · obtain ⟨rfl, rfl⟩ := pure_ok.1 h
      exact ⟨ls, ⟨.unmarked derives, low⟩, taken⟩

def modifierAvoids : List TokenKind := [.bracketOpen, .bang, .questionMark]

theorem modifierHead_complete
    (complete : ∀ m, n = m + 1 → CompleteAt o m inner (Option.map Modifier.bare) (modifierAt m) modifierAvoids)
    (start : Token) :
    CompleteAt o n (modifierHead inner start) (Option.map Modifier.bare) (bracketsAt n) [.bracketOpen] := by
  rintro s ls element rest ready here ⟨derives, low⟩ remaining follows
  unfold modifierHead
  cases derives with
  | absent =>
      have skipped := optionalToken_skip .bracketOpen ready.toValid (by rw [remaining]; simpa using follows)
      exact ⟨none, s, bind_ok.2 ⟨false, s, skipped, pure_ok.2 ⟨rfl, rfl⟩⟩, rfl, .refl ready.toValid⟩
  | @list ls element derives =>
      simp only [List.cons_append, List.append_assoc] at remaining
      rw [elementDepth, Modifier.depth] at low
      obtain ⟨m, rfl⟩ := Nat.exists_eq_succ_of_ne_zero (Nat.ne_of_gt (Nat.zero_lt_of_lt low))
      obtain ⟨s₁, opened, c₁⟩ := optionalToken_take .bracketOpen ready (by rw [remaining]; rfl) (.inl rfl)
      have ready₁ := c₁.ready ready
      have remaining₁ : s₁.remaining = ls ++ (mark .bracketClose :: rest) := c₁.rest remaining
      obtain ⟨made, s₂, read, rfl, c₂⟩ := nested_complete complete ready₁ (c₁.at_iff.2 here)
        ⟨m, rfl, derives, Nat.le_of_succ_le_succ low⟩ remaining₁ (by simp [mark, modifierAvoids])
      obtain ⟨s₃, closed, c₃⟩ := expectToken_complete (c₂.ready ready₁) (c₂.rest remaining₁)
      refine ⟨some (.list made (located s₃ start)), s₃, bind_ok.2 ⟨true, s₁, opened, ?_⟩,
        by rw [Option.map_some, Modifier.bare, bareElement_eq_map], c₁.trans (c₂.trans c₃)⟩
      simp only [if_true, map_ok, listModifierWith, bind_ok, locationFrom_ok, pure_ok]
      exact ⟨_, ⟨made, s₂, read, _, s₃, closed, _, _, ⟨rfl, rfl⟩, rfl, rfl⟩, rfl⟩

theorem modifierWith_complete
    (complete : ∀ m, n = m + 1 → CompleteAt o m inner (Option.map Modifier.bare) (modifierAt m) modifierAvoids) :
    CompleteAt o n (modifierWith inner) (Option.map Modifier.bare) (modifierAt n) modifierAvoids := by
  rintro s ls modifier rest ready here ⟨derives, low⟩ remaining follows
  rw [modifierWith_run]
  have head := modifierHead_complete complete s.token
  simp only [modifierAvoids, List.mem_cons, List.not_mem_nil, or_false, not_or] at follows
  cases derives with
  | unmarked derives =>
      obtain ⟨made, s₁, read, rfl, c₁⟩ := head ready here ⟨derives, low⟩ remaining (by simpa using follows.1)
      have remaining₁ := c₁.rest remaining
      have noBang := optionalToken_skip .bang c₁.valid (by rw [remaining₁]; exact follows.2.1)
      have noQuestion := optionalToken_skip .questionMark c₁.valid (by rw [remaining₁]; exact follows.2.2)
      exact ⟨made, s₁, bind_ok.2 ⟨made, s₁, read, bind_ok.2 ⟨false, s₁, noBang, bind_ok.2 ⟨false, s₁, noQuestion,
        pure_ok.2 ⟨rfl, rfl⟩⟩⟩⟩, rfl, c₁⟩
  | required derives =>
      rw [List.append_assoc] at remaining
      obtain ⟨made, s₁, read, rfl, c₁⟩ := head ready here ⟨derives, low⟩ remaining (by simp [mark])
      obtain ⟨s₂, taken, c₂⟩ := optionalToken_take .bang (c₁.ready ready) (by rw [c₁.rest remaining]; rfl) (.inl rfl)
      refine ⟨some (.required made (located s₂ s.token)), s₂,
        bind_ok.2 ⟨made, s₁, read, bind_ok.2 ⟨true, s₂, taken, ?_⟩⟩,
        by rw [Option.map_some, Modifier.bare, bareElement_eq_map], c₁.trans c₂⟩
      exact bind_ok.2 ⟨_, s₂, locationFrom_ok.2 ⟨rfl, rfl⟩, pure_ok.2 ⟨rfl, rfl⟩⟩
  | optional derives =>
      rw [List.append_assoc] at remaining
      obtain ⟨made, s₁, read, rfl, c₁⟩ := head ready here ⟨derives, low⟩ remaining (by simp [mark])
      have remaining₁ := c₁.rest remaining
      have noBang := optionalToken_skip .bang c₁.valid (by rw [remaining₁]; simp [mark])
      obtain ⟨s₂, taken, c₂⟩ := optionalToken_take .questionMark (c₁.ready ready) (by rw [remaining₁]; rfl) (.inl rfl)
      refine ⟨some (.optional made (located s₂ s.token)), s₂, bind_ok.2 ⟨made, s₁, read,
        bind_ok.2 ⟨false, s₁, noBang, bind_ok.2 ⟨true, s₂, taken, ?_⟩⟩⟩,
        by rw [Option.map_some, Modifier.bare, bareElement_eq_map], c₁.trans c₂⟩
      exact bind_ok.2 ⟨_, s₂, locationFrom_ok.2 ⟨rfl, rfl⟩, pure_ok.2 ⟨rfl, rfl⟩⟩

end

theorem modifierWithin_sound : SoundAt o n (modifierWithin n) (Option.map Modifier.bare) (modifierAt n) := by
  induction n with
  | zero => exact modifierWith_sound fun m level => absurd level (Nat.succ_ne_zero m).symm
  | succ n ih => exact modifierWith_sound fun m level => Nat.succ.inj level ▸ ih

theorem modifierWithin_complete :
    CompleteAt o n (modifierWithin n) (Option.map Modifier.bare) (modifierAt n) modifierAvoids := by
  induction n with
  | zero => exact modifierWith_complete fun m level => absurd level (Nat.succ_ne_zero m).symm
  | succ n ih => exact modifierWith_complete fun m level => Nat.succ.inj level ▸ ih

theorem modifier_sound : SoundAt o n modifier (Option.map Modifier.bare) (modifierAt n) := modifierWithin_sound.ofLevels

theorem modifier_complete : CompleteAt o n modifier (Option.map Modifier.bare) (modifierAt n) modifierAvoids :=
  modifierWithin_complete.ofLevels

end QueryPlanner.Parser
