import QueryPlanner.Proofs.Document.WellFormed

namespace QueryPlanner
open Grammar
open Lexeme (mark word)

namespace Lexeme

def AllProper (ls : List Lexeme) : Prop := ∀ l ∈ ls, l.Proper

variable {l : Lexeme} {ls ls' : List Lexeme} {text : Text} {kind : TokenKind}

theorem AllProper.nil : AllProper [] := nofun

theorem allProper_singleton : AllProper [l] ↔ l.Proper := List.forall_mem_singleton

theorem allProper_append : AllProper (ls ++ ls') ↔ AllProper ls ∧ AllProper ls' := List.forall_mem_append

theorem proper_mark (punctuator : kind.isPunctuator = true) : (mark kind).Proper := by
  cases kind <;> trivial

theorem allProper_mark_cons (punctuator : kind.isPunctuator = true) : AllProper (mark kind :: ls) ↔ AllProper ls :=
  List.forall_mem_cons.trans (and_iff_right (proper_mark punctuator))

theorem allProper_append_mark (punctuator : kind.isPunctuator = true) : AllProper (ls ++ [mark kind]) ↔ AllProper ls :=
  allProper_append.trans (and_iff_left (allProper_singleton.2 (proper_mark punctuator)))

theorem allProper_between {opening closing : TokenKind} (opens : opening.isPunctuator = true)
    (closes : closing.isPunctuator = true) : AllProper (mark opening :: (ls ++ [mark closing])) ↔ AllProper ls :=
  (allProper_mark_cons opens).trans (allProper_append_mark closes)

theorem allProper_word_cons : AllProper (word text :: ls) ↔ IsNameText text ∧ AllProper ls := List.forall_mem_cons

theorem allProper_word : AllProper [word text] ↔ IsNameText text := allProper_singleton

end Lexeme

open Lexeme

/-- The part derives from tokens that have the form of their kind. -/
def Spelled {α : Type} (G : List Lexeme → α → Prop) (part : α) : Prop := ∃ ls, AllProper ls ∧ G ls part

theorem Spelled.of_token {α : Type} {G : List Lexeme → α → Prop} {part : α} {l : Lexeme} (derives : G [l] part)
    (proper : l.Proper) : Spelled G part :=
  ⟨[l], allProper_singleton.2 proper, derives⟩

section
variable {α : Type} {G : List Lexeme → α → Prop}

theorem spelled_sequence {parts : List α} : Spelled (Sequence G) parts ↔ ∀ part ∈ parts, Spelled G part := by
  induction parts with
  | nil => exact iff_of_true ⟨[], .nil, .nil⟩ nofun
  | cons part parts ih =>
      rw [List.forall_mem_cons, ← ih]
      constructor
      · rintro ⟨_, proper, derives⟩
        cases derives with
        | cons first rest =>
            rw [allProper_append] at proper
            exact ⟨⟨_, proper.1, first⟩, _, proper.2, rest⟩
      · rintro ⟨⟨_, left, first⟩, _, right, rest⟩
        exact ⟨_, allProper_append.2 ⟨left, right⟩, .cons first rest⟩

theorem spelled_maybe {part : Option α} : Spelled (Maybe G) part ↔ ∀ p ∈ part, Spelled G p := by
  constructor
  · rintro ⟨_, proper, derives⟩
    cases derives with
    | absent => exact nofun
    | present derives =>
        rintro _ ⟨⟩
        exact ⟨_, proper, derives⟩
  · intro spelled
    cases part with
    | none => exact ⟨[], .nil, .absent⟩
    | some p =>
        obtain ⟨ls, proper, derives⟩ := spelled p rfl
        exact ⟨ls, proper, .present derives⟩

theorem spelled_parenthesized {parts : List α} : Spelled (Parenthesized G) parts ↔ ∀ part ∈ parts, Spelled G part := by
  rw [← spelled_sequence]
  constructor
  · rintro ⟨_, proper, derives⟩
    cases derives with
    | absent => exact ⟨[], .nil, .nil⟩
    | present derives => exact ⟨_, (allProper_between rfl rfl).1 proper, derives⟩
  · rintro ⟨ls, proper, derives⟩
    cases parts with
    | nil => exact ⟨[], .nil, .absent⟩
    | cons part parts => exact ⟨_, (allProper_between rfl rfl).2 proper, .present derives (List.cons_ne_nil _ _)⟩

end

variable {isConst : Bool}

theorem Variable.spelled_iff (v : Variable) : Spelled IsVariable v.bare ↔ v.name.IsWellFormed := by
  constructor
  · rintro ⟨_, proper, derives⟩
    cases derives
    exact allProper_word.1 ((allProper_mark_cons rfl).1 proper)
  · exact fun named => ⟨_, (allProper_mark_cons rfl).2 (allProper_word.2 named), .intro v.name.text⟩

mutual

theorem Value.spelled_iff : (v : Value) → (Spelled (IsValue isConst) v.bare ↔ v.IsWellFormed isConst)
  | .var v => by
      rw [Value.bare, Value.IsWellFormed, ← Variable.spelled_iff]
      constructor
      · rintro ⟨_, proper, derives⟩
        cases derives with
        | var free derives => exact ⟨free, _, proper, derives⟩
      · exact fun ⟨free, _, proper, derives⟩ => ⟨_, proper, .var free derives⟩
  | .int text _ => by
      rw [Value.bare, Value.IsWellFormed]
      constructor
      · rintro ⟨_, proper, derives⟩
        cases derives
        exact allProper_singleton.1 proper
      · exact fun number => .of_token (.int text) number
  | .float text _ => by
      rw [Value.bare, Value.IsWellFormed]
      constructor
      · rintro ⟨_, proper, derives⟩
        cases derives
        exact allProper_singleton.1 proper
      · exact fun number => .of_token (.float text) number
  | .string text false _ => by
      rw [Value.bare, Value.IsWellFormed]
      constructor
      · rintro ⟨_, proper, derives⟩
        cases derives
        exact ⟨allProper_singleton.1 proper, nofun⟩
      · exact fun ⟨wellFormed, _⟩ => .of_token (.string text) wellFormed
  | .string text true _ => by
      rw [Value.bare, Value.IsWellFormed]
      constructor
      · rintro ⟨_, proper, derives⟩
        cases derives
        obtain ⟨wellFormed, tidy⟩ := BlockString.normal_iff.1 (allProper_singleton.1 proper)
        exact ⟨wellFormed, fun _ => tidy⟩
      · exact fun ⟨wellFormed, tidy⟩ =>
          .of_token (.blockString text) (BlockString.normal_iff.2 ⟨wellFormed, tidy rfl⟩)
  | .boolean b _ => by
      rw [Value.bare, Value.IsWellFormed]
      have named : IsNameText (if b then "true" else "false") := by cases b <;> decide
      exact iff_of_true (.of_token (.boolean b) named) trivial
  | .null _ => by
      rw [Value.bare, Value.IsWellFormed]
      exact iff_of_true (.of_token .null (show IsNameText "null" by decide)) trivial
  | .enum text _ => by
      rw [Value.bare, Value.IsWellFormed]
      constructor
      · rintro ⟨_, proper, derives⟩
        cases derives with
        | enum free => exact ⟨allProper_word.1 proper, free⟩
      · exact fun ⟨named, free⟩ => .of_token (.enum free) named
  | .list values _ => by
      rw [Value.bare, Value.IsWellFormed, ← values_spelled_iff values]
      constructor
      · rintro ⟨_, proper, derives⟩
        cases derives with
        | list derives => exact ⟨_, (allProper_between rfl rfl).1 proper, derives⟩
      · exact fun ⟨_, proper, derives⟩ => ⟨_, (allProper_between rfl rfl).2 proper, .list derives⟩
  | .object fields _ => by
      rw [Value.bare, Value.IsWellFormed, ← objectFields_spelled_iff fields]
      constructor
      · rintro ⟨_, proper, derives⟩
        cases derives with
        | object derives => exact ⟨_, (allProper_between rfl rfl).1 proper, derives⟩
      · exact fun ⟨_, proper, derives⟩ => ⟨_, (allProper_between rfl rfl).2 proper, .object derives⟩

theorem ObjectField.spelled_iff : (f : ObjectField) → (Spelled (IsObjectField isConst) f.bare ↔ f.IsWellFormed isConst)
  | ⟨name, value, _⟩ => by
      rw [ObjectField.bare, ObjectField.IsWellFormed, ← Value.spelled_iff value]
      constructor
      · rintro ⟨_, proper, derives⟩
        cases derives with
        | intro _ derives =>
            obtain ⟨named, proper⟩ := allProper_word_cons.1 proper
            exact ⟨named, _, (allProper_mark_cons rfl).1 proper, derives⟩
      · exact fun ⟨named, _, proper, derives⟩ =>
          ⟨_, allProper_word_cons.2 ⟨named, (allProper_mark_cons rfl).2 proper⟩, .intro name.text derives⟩

theorem values_spelled_iff : (values : List Value) →
    (Spelled (Sequence (IsValue isConst)) (bareValues values) ↔ areWellFormedValues isConst values)
  | [] => iff_of_true ⟨[], .nil, .nil⟩ trivial
  | v :: rest => by
      rw [bareValues, areWellFormedValues, ← Value.spelled_iff v, ← values_spelled_iff rest, spelled_sequence,
        List.forall_mem_cons, spelled_sequence]

theorem objectFields_spelled_iff : (fields : List ObjectField) →
    (Spelled (Sequence (IsObjectField isConst)) (bareObjectFields fields) ↔ areWellFormedObjectFields isConst fields)
  | [] => iff_of_true ⟨[], .nil, .nil⟩ trivial
  | f :: rest => by
      rw [bareObjectFields, areWellFormedObjectFields, ← ObjectField.spelled_iff f, ← objectFields_spelled_iff rest,
        spelled_sequence, List.forall_mem_cons, spelled_sequence]

end

theorem Argument.spelled_iff (a : Argument) : Spelled (IsArgument isConst) a.bare ↔ a.IsWellFormed isConst := by
  constructor
  · rintro ⟨_, proper, derives⟩
    cases derives with
    | intro _ derives =>
        obtain ⟨named, proper⟩ := allProper_word_cons.1 proper
        exact ⟨named, (Value.spelled_iff a.value).1 ⟨_, (allProper_mark_cons rfl).1 proper, derives⟩⟩
  · rintro ⟨named, value⟩
    obtain ⟨_, proper, derives⟩ := (Value.spelled_iff a.value).2 value
    exact ⟨_, allProper_word_cons.2 ⟨named, (allProper_mark_cons rfl).2 proper⟩, .intro a.name.text derives⟩

theorem arguments_spelled_iff (arguments : List Argument) :
    Spelled (Parenthesized (IsArgument isConst)) (arguments.map Argument.bare) ↔ ∀ a ∈ arguments, a.IsWellFormed isConst := by
  simp only [spelled_parenthesized, List.forall_mem_map, Argument.spelled_iff]

theorem Directive.spelled_iff (d : Directive) : Spelled (IsDirective isConst) d.bare ↔ d.IsWellFormed isConst := by
  constructor
  · rintro ⟨_, proper, derives⟩
    cases derives with
    | intro _ derives =>
        obtain ⟨named, proper⟩ := allProper_word_cons.1 ((allProper_mark_cons rfl).1 proper)
        exact ⟨named, (arguments_spelled_iff d.arguments).1 ⟨_, proper, derives⟩⟩
  · rintro ⟨named, arguments⟩
    obtain ⟨_, proper, derives⟩ := (arguments_spelled_iff d.arguments).2 arguments
    exact ⟨_, (allProper_mark_cons rfl).2 (allProper_word_cons.2 ⟨named, proper⟩), .intro d.name.text derives⟩

theorem directives_spelled_iff (directives : List Directive) :
    Spelled (AreDirectives isConst) (directives.map Directive.bare) ↔ ∀ d ∈ directives, d.IsWellFormed isConst := by
  simp only [spelled_sequence, List.forall_mem_map, Directive.spelled_iff]

theorem NamedType.spelled_iff (type : NamedType) : Spelled IsNamedType type.bare ↔ type.name.IsWellFormed := by
  constructor
  · rintro ⟨_, proper, derives⟩
    cases derives
    exact allProper_word.1 proper
  · exact fun named => .of_token (.intro type.name.text) named

theorem TypeRef.spelled_iff (type : TypeRef) : Spelled IsTypeRef type.bare ↔ type.IsWellFormed := by
  induction type with
  | named type =>
      rw [TypeRef.bare, TypeRef.IsWellFormed, TypeRef.IsProper, and_true]
      refine Iff.trans ?_ type.spelled_iff
      constructor
      · rintro ⟨_, proper, derives⟩
        cases derives with
        | named derives => exact ⟨_, proper, derives⟩
      · exact fun ⟨_, proper, derives⟩ => ⟨_, proper, .named derives⟩
  | list item _ ih =>
      refine Iff.trans ?_ ih
      constructor
      · rintro ⟨_, proper, derives⟩
        cases derives with
        | list derives => exact ⟨_, (allProper_between rfl rfl).1 proper, derives⟩
      · exact fun ⟨_, proper, derives⟩ => ⟨_, (allProper_between rfl rfl).2 proper, .list derives⟩
  | nonNull type _ ih =>
      constructor
      · rintro ⟨_, proper, derives⟩
        cases derives with
        | nonNull derives nullable =>
            obtain ⟨named, inside⟩ := ih.1 ⟨_, (allProper_append_mark rfl).1 proper, derives⟩
            exact ⟨named, type.isNonNull_bare ▸ nullable, inside⟩
      · rintro ⟨named, nullable, inside⟩
        obtain ⟨_, proper, derives⟩ := ih.2 ⟨named, inside⟩
        exact ⟨_, (allProper_append_mark rfl).2 proper, .nonNull derives (type.isNonNull_bare.trans nullable)⟩

theorem isBrackets_iff {ls : List Lexeme} {element : Option Modifier} :
    IsBrackets ls element ↔ IsModifier ls element ∧ ∀ m ∈ element, m.isList = true := by
  refine ⟨fun derives => ⟨.unmarked derives, ?_⟩, fun ⟨derives, list⟩ => ?_⟩
  · cases derives with
    | absent => exact nofun
    | list =>
        rintro _ ⟨⟩
        rfl
  · cases derives with
    | unmarked derives => exact derives
    | required => exact absurd (list _ rfl) nofun
    | optional => exact absurd (list _ rfl) nofun

theorem Modifier.isList_bare (m : Modifier) : m.bare.isList = m.isList := by
  cases m <;> rfl

theorem brackets_spelled_iff (element : Option Modifier) : Spelled IsBrackets (bareElement element) ↔
    (∀ m ∈ element, m.isList = true) ∧ Spelled IsModifier (bareElement element) := by
  have lists : (∀ m ∈ bareElement element, m.isList = true) ↔ ∀ m ∈ element, m.isList = true := by
    cases element with
    | none => exact iff_of_true nofun nofun
    | some m => simp [bareElement, Modifier.isList_bare]
  rw [← lists]
  constructor
  · rintro ⟨_, proper, derives⟩
    obtain ⟨derives, lists⟩ := isBrackets_iff.1 derives
    exact ⟨lists, _, proper, derives⟩
  · exact fun ⟨lists, _, proper, derives⟩ => ⟨_, proper, isBrackets_iff.2 ⟨derives, lists⟩⟩

mutual

theorem Modifier.spelled_iff : (m : Modifier) → (Spelled IsModifier (some m.bare) ↔ m.IsWellFormed)
  | .list element _ => by
      rw [Modifier.bare, Modifier.IsWellFormed, ← element_spelled_iff element]
      constructor
      · rintro ⟨_, proper, derives⟩
        cases derives with
        | unmarked derives =>
            cases derives with
            | list derives => exact ⟨_, (allProper_between rfl rfl).1 proper, derives⟩
      · exact fun ⟨_, proper, derives⟩ => ⟨_, (allProper_between rfl rfl).2 proper, .unmarked (.list derives)⟩
  | .required element _ => by
      rw [Modifier.bare, Modifier.IsWellFormed, ← element_spelled_iff element, ← brackets_spelled_iff]
      constructor
      · rintro ⟨_, proper, derives⟩
        cases derives with
        | unmarked derives => cases derives
        | required derives => exact ⟨_, (allProper_append_mark rfl).1 proper, derives⟩
      · exact fun ⟨_, proper, derives⟩ => ⟨_, (allProper_append_mark rfl).2 proper, .required derives⟩
  | .optional element _ => by
      rw [Modifier.bare, Modifier.IsWellFormed, ← element_spelled_iff element, ← brackets_spelled_iff]
      constructor
      · rintro ⟨_, proper, derives⟩
        cases derives with
        | unmarked derives => cases derives
        | optional derives => exact ⟨_, (allProper_append_mark rfl).1 proper, derives⟩
      · exact fun ⟨_, proper, derives⟩ => ⟨_, (allProper_append_mark rfl).2 proper, .optional derives⟩

theorem element_spelled_iff : (element : Option Modifier) → (Spelled IsModifier (bareElement element) ↔ isWellFormedElement element)
  | none => iff_of_true ⟨[], .nil, .unmarked .absent⟩ trivial
  | some m => Modifier.spelled_iff m

end

theorem fieldNames_spelled_iff (responseName : Option Name) (name : Name) :
    Spelled IsFieldName (responseName.map Name.bare, name.bare) ↔
      (∀ n ∈ responseName, n.IsWellFormed) ∧ name.IsWellFormed := by
  cases responseName with
  | none =>
      constructor
      · rintro ⟨_, proper, derives⟩
        cases derives
        exact ⟨nofun, allProper_word.1 proper⟩
      · exact fun ⟨_, named⟩ => .of_token (.plain name.text) named
  | some alias' =>
      constructor
      · rintro ⟨_, proper, derives⟩
        cases derives
        obtain ⟨named, proper⟩ := allProper_word_cons.1 proper
        refine ⟨?_, allProper_word.1 ((allProper_mark_cons rfl).1 proper)⟩
        rintro _ ⟨⟩
        exact named
      · exact fun ⟨named, named'⟩ => ⟨_, allProper_word_cons.2 ⟨named _ rfl, (allProper_mark_cons rfl).2 (allProper_word.2 named')⟩,
          .renamed alias'.text name.text⟩

theorem FragmentSpread.spelled_iff (s : FragmentSpread) : Spelled IsFragmentSpread s.bare ↔ s.IsWellFormed := by
  constructor
  · rintro ⟨_, proper, derives⟩
    cases derives with
    | intro notOn derives =>
        obtain ⟨named, proper⟩ := allProper_word_cons.1 ((allProper_mark_cons rfl).1 proper)
        exact ⟨named, notOn, (directives_spelled_iff s.directives).1 ⟨_, proper, derives⟩⟩
  · rintro ⟨named, notOn, directives⟩
    obtain ⟨_, proper, derives⟩ := (directives_spelled_iff s.directives).2 directives
    exact ⟨_, (allProper_mark_cons rfl).2 (allProper_word_cons.2 ⟨named, proper⟩), .intro notOn derives⟩

theorem isNameText_on : IsNameText "on" := by decide

theorem typeCondition_spelled_iff (type : NamedType) : Spelled IsTypeCondition type.bare ↔ type.name.IsWellFormed := by
  constructor
  · rintro ⟨_, proper, derives⟩
    cases derives
    exact allProper_word.1 (allProper_word_cons.1 proper).2
  · exact fun named => ⟨_, allProper_word_cons.2 ⟨isNameText_on, allProper_word.2 named⟩, .intro type.name.text⟩

theorem maybeCondition_spelled_iff (type : Option NamedType) :
    Spelled (Maybe IsTypeCondition) (type.map NamedType.bare) ↔ ∀ t ∈ type, t.name.IsWellFormed := by
  simp [spelled_maybe, typeCondition_spelled_iff]

mutual

theorem Field.spelled_iff : (f : Field) → (Spelled IsField f.bare ↔ f.IsWellFormed)
  | ⟨responseName, name, arguments, modifier, directives, set, _⟩ => by
      rw [Field.bare_mk, Field.isWellFormed_mk, ← fieldNames_spelled_iff, ← arguments_spelled_iff, ← element_spelled_iff,
        ← directives_spelled_iff, ← maybeSet_spelled_iff set, bareElement_eq_map]
      constructor
      · rintro ⟨_, proper, derives⟩
        cases derives with
        | intro names arguments modifier directives set =>
            simp only [allProper_append] at proper
            exact ⟨⟨_, proper.1, names⟩, ⟨_, proper.2.1, arguments⟩, ⟨_, proper.2.2.1, modifier⟩,
              ⟨_, proper.2.2.2.1, directives⟩, _, proper.2.2.2.2, set⟩
      · rintro ⟨⟨_, proper₁, names⟩, ⟨_, proper₂, arguments⟩, ⟨_, proper₃, modifier⟩, ⟨_, proper₄, directives⟩, _, proper₅, set⟩
        refine ⟨_, ?_, .intro names arguments modifier directives set⟩
        simp only [allProper_append]
        exact ⟨proper₁, proper₂, proper₃, proper₄, proper₅⟩

theorem maybeSet_spelled_iff : (set : Option SelectionSet) →
    (Spelled (Maybe IsSelectionSet) (set.map SelectionSet.bare) ↔ ∀ s ∈ set, s.IsWellFormed)
  | none => iff_of_true ⟨[], .nil, .absent⟩ nofun
  | some set => by
      simp [spelled_maybe, SelectionSet.spelled_iff set]

theorem InlineFragment.spelled_iff : (f : InlineFragment) → (Spelled IsInlineFragment f.bare ↔ f.IsWellFormed)
  | ⟨type, directives, set, _⟩ => by
      rw [InlineFragment.bare, InlineFragment.IsWellFormed, ← maybeCondition_spelled_iff, ← directives_spelled_iff,
        ← SelectionSet.spelled_iff set]
      constructor
      · rintro ⟨_, proper, derives⟩
        cases derives with
        | intro condition directives set =>
            rw [allProper_mark_cons rfl, allProper_append, allProper_append] at proper
            exact ⟨⟨_, proper.1, condition⟩, ⟨_, proper.2.1, directives⟩, _, proper.2.2, set⟩
      · rintro ⟨⟨_, proper₁, condition⟩, ⟨_, proper₂, directives⟩, _, proper₃, set⟩
        refine ⟨_, ?_, .intro condition directives set⟩
        rw [allProper_mark_cons rfl, allProper_append, allProper_append]
        exact ⟨proper₁, proper₂, proper₃⟩

theorem Selection.spelled_iff : (s : Selection) → (Spelled IsSelection s.bare ↔ s.IsWellFormed)
  | .field f => by
      rw [Selection.bare, Selection.IsWellFormed, ← Field.spelled_iff f]
      constructor
      · rintro ⟨_, proper, derives⟩
        cases derives with
        | field derives => exact ⟨_, proper, derives⟩
      · exact fun ⟨_, proper, derives⟩ => ⟨_, proper, .field derives⟩
  | .spread s => by
      rw [Selection.bare, Selection.IsWellFormed, ← FragmentSpread.spelled_iff s]
      constructor
      · rintro ⟨_, proper, derives⟩
        cases derives with
        | spread derives => exact ⟨_, proper, derives⟩
      · exact fun ⟨_, proper, derives⟩ => ⟨_, proper, .spread derives⟩
  | .inline f => by
      rw [Selection.bare, Selection.IsWellFormed, ← InlineFragment.spelled_iff f]
      constructor
      · rintro ⟨_, proper, derives⟩
        cases derives with
        | inline derives => exact ⟨_, proper, derives⟩
      · exact fun ⟨_, proper, derives⟩ => ⟨_, proper, .inline derives⟩

theorem SelectionSet.spelled_iff : (set : SelectionSet) → (Spelled IsSelectionSet set.bare ↔ set.IsWellFormed)
  | ⟨selections, _⟩ => by
      rw [SelectionSet.bare, SelectionSet.IsWellFormed, ← selections_spelled_iff selections]
      constructor
      · rintro ⟨_, proper, derives⟩
        cases derives with
        | intro derives some =>
            refine ⟨fun none => some ?_, _, (allProper_between rfl rfl).1 proper, derives⟩
            rw [none, bareSelections]
      · rintro ⟨some, _, proper, derives⟩
        refine ⟨_, (allProper_between rfl rfl).2 proper, .intro derives ?_⟩
        simpa using some

theorem selections_spelled_iff : (selections : List Selection) →
    (Spelled (Sequence IsSelection) (bareSelections selections) ↔ areWellFormedSelections selections)
  | [] => iff_of_true ⟨[], .nil, .nil⟩ trivial
  | s :: rest => by
      rw [bareSelections, areWellFormedSelections, ← Selection.spelled_iff s, ← selections_spelled_iff rest, spelled_sequence,
        List.forall_mem_cons, spelled_sequence]

end

theorem defaultValue_spelled_iff (value : Option Value) :
    Spelled (Maybe IsDefault) (value.map Value.bare) ↔ ∀ v ∈ value, v.IsWellFormed true := by
  have default (v : Value) : Spelled IsDefault v.bare ↔ v.IsWellFormed true := by
    rw [← Value.spelled_iff v]
    constructor
    · rintro ⟨_, proper, derives⟩
      cases derives with
      | intro derives => exact ⟨_, (allProper_mark_cons rfl).1 proper, derives⟩
    · exact fun ⟨_, proper, derives⟩ => ⟨_, (allProper_mark_cons rfl).2 proper, .intro derives⟩
  simp [spelled_maybe, default]

theorem VariableDefinition.spelled_iff (d : VariableDefinition) : Spelled IsVariableDefinition d.bare ↔ d.IsWellFormed := by
  constructor
  · rintro ⟨_, proper, derives⟩
    cases derives with
    | intro var type value directives =>
        rw [allProper_append, allProper_mark_cons rfl, allProper_append, allProper_append] at proper
        exact ⟨d.var.spelled_iff.1 ⟨_, proper.1, var⟩, d.type.spelled_iff.1 ⟨_, proper.2.1, type⟩,
          (defaultValue_spelled_iff _).1 ⟨_, proper.2.2.1, value⟩, (directives_spelled_iff _).1 ⟨_, proper.2.2.2, directives⟩⟩
  · rintro ⟨var, type, value, directives⟩
    obtain ⟨_, proper₁, var⟩ := d.var.spelled_iff.2 var
    obtain ⟨_, proper₂, type⟩ := d.type.spelled_iff.2 type
    obtain ⟨_, proper₃, value⟩ := (defaultValue_spelled_iff _).2 value
    obtain ⟨_, proper₄, directives⟩ := (directives_spelled_iff _).2 directives
    refine ⟨_, ?_, .intro var type value directives⟩
    rw [allProper_append, allProper_mark_cons rfl, allProper_append, allProper_append]
    exact ⟨proper₁, proper₂, proper₃, proper₄⟩

theorem variableDefinitions_spelled_iff (definitions : List VariableDefinition) :
    Spelled AreVariableDefinitions (definitions.map VariableDefinition.bare) ↔ ∀ d ∈ definitions, d.IsWellFormed := by
  simp only [spelled_parenthesized, List.forall_mem_map, VariableDefinition.spelled_iff]

theorem operationName_spelled_iff (name : Option Name) :
    Spelled (Maybe IsName) (name.map Name.bare) ↔ ∀ n ∈ name, n.IsWellFormed := by
  have named (n : Name) : Spelled IsName n.bare ↔ n.IsWellFormed := by
    constructor
    · rintro ⟨_, proper, derives⟩
      cases derives
      exact allProper_word.1 proper
    · exact fun named => .of_token (.intro n.text) named
  simp [spelled_maybe, named]

theorem Operation.spelled_iff (o : Operation) : Spelled IsOperation o.bare ↔ o.IsWellFormed := by
  constructor
  · rintro ⟨_, proper, derives⟩
    generalize same : o.bare = o' at derives
    cases derives with
    | shorthand set =>
        obtain ⟨-, name, definitions, directives, bare, -⟩ := Operation.mk.inj same
        subst bare
        exact ⟨by simp [Option.map_eq_none_iff.1 name], by simp [List.map_eq_nil_iff.1 definitions],
          by simp [List.map_eq_nil_iff.1 directives], o.selectionSet.spelled_iff.1 ⟨_, proper, set⟩⟩
    | intro _ name definitions directives set =>
        rw [allProper_word_cons, allProper_append, allProper_append, allProper_append] at proper
        obtain ⟨-, rfl, rfl, rfl, rfl, -⟩ := Operation.mk.inj same
        exact ⟨(operationName_spelled_iff _).1 ⟨_, proper.2.1, name⟩,
          (variableDefinitions_spelled_iff _).1 ⟨_, proper.2.2.1, definitions⟩,
          (directives_spelled_iff _).1 ⟨_, proper.2.2.2.1, directives⟩, o.selectionSet.spelled_iff.1 ⟨_, proper.2.2.2.2, set⟩⟩
  · rintro ⟨name, definitions, directives, set⟩
    obtain ⟨_, proper₁, name⟩ := (operationName_spelled_iff _).2 name
    obtain ⟨_, proper₂, definitions⟩ := (variableDefinitions_spelled_iff _).2 definitions
    obtain ⟨_, proper₃, directives⟩ := (directives_spelled_iff _).2 directives
    obtain ⟨_, proper₄, set⟩ := o.selectionSet.spelled_iff.2 set
    refine ⟨_, ?_, .intro o.type name definitions directives set⟩
    rw [allProper_word_cons, allProper_append, allProper_append, allProper_append]
    have keyword : IsNameText o.type.text := by cases o.type <;> decide
    exact ⟨keyword, proper₁, proper₂, proper₃, proper₄⟩

theorem fragmentVariables_spelled_iff (allowVariables : Bool) (definitions : Option (List VariableDefinition)) :
    Spelled (AreFragmentVariables allowVariables) (definitions.map fun ds => ds.map VariableDefinition.bare) ↔
      definitions.isSome = allowVariables ∧ ∀ ds ∈ definitions, ∀ d ∈ ds, d.IsWellFormed := by
  cases definitions with
  | none =>
      cases allowVariables with
      | false => exact iff_of_true ⟨[], .nil, .excluded⟩ ⟨rfl, nofun⟩
      | true => exact iff_of_false (fun ⟨_, _, derives⟩ => nomatch derives) (fun ⟨same, _⟩ => nomatch same)
  | some ds =>
      cases allowVariables with
      | false => exact iff_of_false (fun ⟨_, _, derives⟩ => nomatch derives) (fun ⟨same, _⟩ => nomatch same)
      | true =>
          rw [Option.isSome_some, and_iff_right rfl]
          constructor
          · rintro ⟨_, proper, derives⟩ _ ⟨⟩
            cases derives with
            | allowed derives => exact (variableDefinitions_spelled_iff ds).1 ⟨_, proper, derives⟩
          · intro wellFormed
            obtain ⟨_, proper, derives⟩ := (variableDefinitions_spelled_iff ds).2 (wellFormed ds rfl)
            exact ⟨_, proper, .allowed derives⟩

theorem Fragment.spelled_iff (allowVariables : Bool) (f : Fragment) :
    Spelled (IsFragment allowVariables) f.bare ↔ f.IsWellFormed ∧ f.variableDefinitions.isSome = allowVariables := by
  constructor
  · rintro ⟨_, proper, derives⟩
    cases derives with
    | intro notOn definitions condition directives set =>
        rw [allProper_word_cons, allProper_word_cons, allProper_append, allProper_append, allProper_append] at proper
        obtain ⟨-, named, proper₁, proper₂, proper₃, proper₄⟩ := proper
        obtain ⟨same, definitions⟩ := (fragmentVariables_spelled_iff _ _).1 ⟨_, proper₁, definitions⟩
        exact ⟨⟨named, notOn, definitions, (typeCondition_spelled_iff _).1 ⟨_, proper₂, condition⟩,
          (directives_spelled_iff _).1 ⟨_, proper₃, directives⟩, f.selectionSet.spelled_iff.1 ⟨_, proper₄, set⟩⟩, same⟩
  · rintro ⟨⟨named, notOn, definitions, condition, directives, set⟩, same⟩
    obtain ⟨_, proper₁, definitions⟩ := (fragmentVariables_spelled_iff _ _).2 ⟨same, definitions⟩
    obtain ⟨_, proper₂, condition⟩ := (typeCondition_spelled_iff _).2 condition
    obtain ⟨_, proper₃, directives⟩ := (directives_spelled_iff _).2 directives
    obtain ⟨_, proper₄, set⟩ := f.selectionSet.spelled_iff.2 set
    refine ⟨_, ?_, .intro notOn definitions condition directives set⟩
    rw [allProper_word_cons, allProper_word_cons, allProper_append, allProper_append, allProper_append]
    have keyword : IsNameText "fragment" := by decide
    exact ⟨keyword, named, proper₁, proper₂, proper₃, proper₄⟩

theorem Definition.spelled_iff (allowVariables : Bool) (d : Definition) :
    Spelled (IsDefinition allowVariables) d.bare ↔ d.IsWellFormed ∧ d.Carries allowVariables := by
  cases d with
  | operation o =>
      rw [Definition.IsWellFormed, Definition.Carries, and_true, ← o.spelled_iff]
      constructor
      · rintro ⟨_, proper, derives⟩
        cases derives with
        | operation derives => exact ⟨_, proper, derives⟩
      · exact fun ⟨_, proper, derives⟩ => ⟨_, proper, .operation derives⟩
  | fragment f =>
      rw [Definition.IsWellFormed, Definition.Carries, ← f.spelled_iff allowVariables]
      constructor
      · rintro ⟨_, proper, derives⟩
        cases derives with
        | fragment derives => exact ⟨_, proper, derives⟩
      · exact fun ⟨_, proper, derives⟩ => ⟨_, proper, .fragment derives⟩

theorem Document.spelled_iff (allowVariables : Bool) (d : Document) : Spelled (IsDocument allowVariables) d.bare ↔
    d.IsWellFormed ∧ ∀ definition ∈ d.definitions, definition.Carries allowVariables := by
  have definitions : Spelled (Sequence (IsDefinition allowVariables)) (d.definitions.map Definition.bare) ↔
      ∀ definition ∈ d.definitions, definition.IsWellFormed ∧ definition.Carries allowVariables := by
    simp only [spelled_sequence, List.forall_mem_map, Definition.spelled_iff]
  constructor
  · rintro ⟨_, proper, derives⟩
    cases derives with
    | intro derives some =>
        have each := definitions.1 ⟨_, proper, derives⟩
        have carries (definition : Definition) (member : definition ∈ d.definitions) := (each definition member).2
        exact ⟨⟨by simpa using some, fun definition member => (each definition member).1, allowVariables, carries⟩, carries⟩
  · rintro ⟨⟨some, each, -⟩, carries⟩
    obtain ⟨_, proper, derives⟩ := definitions.2 fun definition member => ⟨each definition member, carries definition member⟩
    exact ⟨_, proper, .intro derives (by simpa using some)⟩

end QueryPlanner
