import QueryPlanner.Proofs.Document.WellFormed
import QueryPlanner.Proofs.Plan.Outline
import QueryPlanner.Proofs.Text.Splitting
import QueryPlanner.Proofs.Token.StringGrammar

namespace QueryPlanner
open CodeUnit
open Text (IsLine join wrap)

variable {after after' : Text}

namespace StringLiteral

variable {written denoted : Text}

theorem IsEscape.isLine (isEscape : IsEscape written denoted) : IsLine written := by
  have line := escape_line (escape_complete isEscape [])
  rwa [List.append_nil, Nat.add_sub_cancel, List.take_length] at line

theorem IsCharacter.isLine (isCharacter : IsCharacter written denoted) : IsLine written := by
  cases isCharacter with
  | @single u single other =>
      simp only [List.mem_cons, List.not_mem_nil, or_false, not_or] at other
      exact List.forall_mem_singleton.2 (Text.isLineEnd_of_ne other.2.2.1 other.2.2.2)
  | pair pair =>
      obtain ⟨lead, trail⟩ := Text.isScalar_of_pair pair
      have surrogate {u : CodeUnit} (half : u.isScalar = false) : u.isLineEnd = false := by
        apply Text.isLineEnd_of_ne <;> rintro rfl <;> contradiction
      exact List.forall_mem_cons.2 ⟨surrogate lead, List.forall_mem_singleton.2 (surrogate trail)⟩
  | escape isEscape => exact List.forall_mem_cons.2 ⟨rfl, isEscape.isLine⟩

theorem AreCharacters.isLine (areCharacters : AreCharacters written denoted) : IsLine written := by
  induction areCharacters with
  | nil => exact List.forall_mem_nil _
  | cons first _ ih => exact Text.isLine_append.2 ⟨first.isLine, ih⟩

end StringLiteral

namespace Quoted

theorem escapeLabel_scalar {u : CodeUnit} (single : u.isScalar = true) (rest : Text) :
    escapeLabel (u :: rest) = escapeLabelUnit u ++ escapeLabel rest := by
  cases rest <;> simp [escapeLabel, single]

theorem escapeLabel_pair {u v : CodeUnit} (pair : Text.isPair u v = true) (rest : Text) :
    escapeLabel (u :: v :: rest) = [u, v] ++ escapeLabel rest := by
  simp [escapeLabel, (Text.isScalar_of_pair pair).1, pair]

theorem mem_shortEscapes {u letter : CodeUnit} (short : shortEscape? u = some letter) :
    (letter, u) ∈ StringLiteral.shortEscapes := by
  unfold shortEscape? at short
  split_ifs at short with b t n f r self <;> obtain rfl := Option.some.inj short
  any_goals subst u; decide
  obtain rfl | rfl := self <;> decide

theorem hex_lower : ∀ n < 32, (Text.hex false 4 n).length = 4 ∧
    StringLiteral.fourDigits? (Text.hex false 4 n) = some n := by
  simp only [Text.hex, Text.ofString, String.toList_ofList]
  decide +kernel

theorem isCharacter_hexEscape {u : CodeUnit} (control : u < 0x20) : StringLiteral.IsCharacter (hexEscape false u) [u] := by
  have low : u.toNat < 32 := UInt16.lt_iff_toNat_lt.1 control
  obtain ⟨four, read⟩ := hex_lower u.toNat low
  obtain ⟨digits, after, split, length, isHex⟩ := StringLiteral.fourDigits?_iff.1 read
  have whole : Text.hex false 4 u.toNat = digits :=
    (List.append_inj ((List.append_nil _).trans split) (four.trans length.symm)).1
  have scalar : isScalarValue u.toNat = true := by
    simp only [isScalarValue, Bool.or_eq_true, decide_eq_true_eq]
    omega
  have unit : Text.ofCodePoint u.toNat = [u] := by
    rw [Text.ofCodePoint, if_pos (by omega)]
    simp
  have escape := StringLiteral.IsCharacter.escape (.fixed isHex length scalar)
  rwa [unit, ← whole, ← StringLiteral.hexEscape_eq] at escape

theorem isCharacter_unit {u : CodeUnit} (single : u.isScalar = true) :
    StringLiteral.IsCharacter (escapeLabelUnit u) [u] := by
  unfold escapeLabelUnit
  cases short : shortEscape? u with
  | some letter => exact .escape (.short (mem_shortEscapes short))
  | none =>
      dsimp only
      split_ifs with control
      · exact isCharacter_hexEscape control
      · obtain ⟨quote, backslash, line⟩ := StringLiteral.plain_of_unescaped short
        rw [isLineEnd, Bool.or_eq_false_iff, beq_eq_false_iff_ne, beq_eq_false_iff_ne] at line
        exact .single single (by simp [quote, backslash, line])

theorem areCharacters_escapeLabel {text : Text} (wellFormed : text.WellFormed) :
    StringLiteral.AreCharacters (escapeLabel text) text := by
  induction wellFormed.characters with
  | nil => exact .nil
  | @scalar u rest single _ ih =>
      rw [escapeLabel_scalar single]
      exact .cons (isCharacter_unit single) (ih ((Text.WellFormed.scalar single).1 wellFormed))
  | @pair u v rest pair _ ih =>
      rw [escapeLabel_pair pair]
      exact .cons (.pair pair) (ih ((Text.WellFormed.pair pair).1 wellFormed))

theorem label_inj {a b : Text} (wellFormed : a.WellFormed) (wellFormed' : b.WellFormed)
    (same : label a ++ after = label b ++ after') : a = b ∧ after = after' := by
  simp only [label, enclose, List.cons_append, List.append_assoc, List.nil_append, List.cons.injEq, true_and] at same
  have read {text : Text} (wellFormed : text.WellFormed) (after : Text) :
      StringLiteral.characters 0 (escapeLabel text ++ quote :: after) 0 0 [] =
        .ok ⟨text, 0 + (escapeLabel text).length + 1, after⟩ :=
    StringLiteral.characters_complete (areCharacters_escapeLabel wellFormed) after
  have scanned := read wellFormed after
  rw [same, read wellFormed' after', Except.ok.injEq, StringLiteral.Scanned.mk.injEq] at scanned
  exact ⟨scanned.1.symm, scanned.2.2.symm⟩

theorem isLine_label {text : Text} (wellFormed : text.WellFormed) : IsLine (label text) :=
  List.forall_mem_cons.2 ⟨rfl, Text.isLine_append.2 ⟨(areCharacters_escapeLabel wellFormed).isLine, .of_all (by decide)⟩⟩

end Quoted

namespace TypeRef

variable {type type' : TypeRef}

theorem render_list (item : TypeRef) (loc : Option Location) : (list item loc).render = 0x5b :: (item.render ++ [0x5d]) := by
  have opening : (("[" : String) : Text) = [0x5b] := by decide
  have closing : (("]" : String) : Text) = [0x5d] := by decide
  rw [render, opening, closing, List.singleton_append, List.cons_append]

theorem render_nonNull (type : TypeRef) (loc : Option Location) : (nonNull type loc).render = type.render ++ [0x21] := by
  have mark : (("!" : String) : Text) = [0x21] := by decide
  rw [render, mark]

theorem mem_render {u : CodeUnit} (named : IsNameText type.namedType) (member : u ∈ type.render) :
    u.isNameContinue = true ∨ u ∈ ([0x21, 0x5b, 0x5d] : Text) := by
  induction type with
  | named t => exact .inl (named.all_continue u member)
  | list item loc ih =>
      rw [render_list, List.mem_cons, List.mem_append, List.mem_singleton] at member
      obtain rfl | inside | rfl := member
      · exact .inr (by decide)
      · exact ih named inside
      · exact .inr (by decide)
  | nonNull type loc ih =>
      rw [render_nonNull, List.mem_append, List.mem_singleton] at member
      obtain inside | rfl := member
      · exact ih named inside
      · exact .inr (by decide)

theorem isLine_render (named : IsNameText type.namedType) : IsLine type.render := by
  intro u member
  obtain continues | mark := mem_render named member
  · exact isLineEnd_of_isNameContinue continues
  · have marks : IsLine [0x21, 0x5b, 0x5d] := .of_all (by decide)
    exact marks u mark

theorem bare_of_render (named : IsNameText type.namedType) (named' : IsNameText type'.namedType)
    (same : type.render = type'.render) : type.bare = type'.bare := by
  have inside {u : CodeUnit} {t : NamedType} (isName : IsNameText t.name.text) (mark : u.isNameContinue = false)
      (member : u ∈ t.name.text) : False := by
    rw [isName.all_continue u member] at mark
    contradiction
  induction type generalizing type' with
  | named t =>
      have text : t.name.text = type'.render := same
      cases type' with
      | named t' =>
          have text : t.name.text = t'.name.text := same
          rw [TypeRef.bare, TypeRef.bare, NamedType.bare, NamedType.bare, Name.bare, Name.bare, text]
      | list item' loc' => exact (inside named (u := 0x5b) rfl (by rw [text, render_list]; exact List.mem_cons_self)).elim
      | nonNull inner' loc' => exact (inside named (u := 0x21) rfl (by rw [text, render_nonNull]; simp)).elim
  | list item loc ih =>
      rw [render_list] at same
      cases type' with
      | named t' =>
          have text : _ = t'.name.text := same
          exact (inside named' (u := 0x5b) rfl (by rw [← text]; exact List.mem_cons_self)).elim
      | list item' loc' =>
          have named' : IsNameText item'.namedType := named'
          rw [render_list, List.cons.injEq] at same
          rw [TypeRef.bare, TypeRef.bare, ih named named' (List.append_cancel_right same.2)]
      | nonNull inner' loc' =>
          rw [render_nonNull, ← List.cons_append] at same
          exact absurd (List.append_inj_right' same rfl) (by decide)
  | nonNull inner loc ih =>
      rw [render_nonNull] at same
      cases type' with
      | named t' =>
          have text : _ = t'.name.text := same
          exact (inside named' (u := 0x21) rfl (by rw [← text]; simp)).elim
      | list item' loc' =>
          rw [render_list, ← List.cons_append] at same
          exact absurd (List.append_inj_right' same rfl) (by decide)
      | nonNull inner' loc' =>
          have named' : IsNameText inner'.namedType := named'
          rw [render_nonNull] at same
          rw [TypeRef.bare, TypeRef.bare, ih named named' (List.append_cancel_right same)]

end TypeRef

structure FieldHeading.IsNamed (f : FieldHeading) : Prop where
  path : ∀ key ∈ f.path, IsNameText key
  parentType : IsNameText f.parentType
  fieldName : IsNameText f.fieldName
  resultType : IsNameText f.resultType.namedType
  bare : f.resultType.bare = f.resultType

theorem renderPath_inj {path path' : ResponsePath} (named : ∀ key ∈ path, IsNameText key)
    (named' : ∀ key ∈ path', IsNameText key) (same : renderPath path ++ after = renderPath path' ++ after') :
    path = path' ∧ after = after' := by
  have inside {path : ResponsePath} (named : ∀ key ∈ path, IsNameText key) :
      ∀ u ∈ join "." path, (u != 0x27) = true := by
    intro u member
    obtain rfl | continues := mem_join_names named member
    · decide
    · rw [bne_iff_ne]
      rintro rfl
      contradiction
  simp only [renderPath, List.append_assoc] at same
  obtain ⟨keys, behind⟩ := Text.run_inj (inside named) (inside named') (.append (by decide) _) (.append (by decide) _)
    (List.append_cancel_left same)
  exact ⟨join_names_inj named named' keys, List.append_cancel_left behind⟩

theorem isLine_renderPath {path : ResponsePath} (named : ∀ key ∈ path, IsNameText key) : IsLine (renderPath path) := by
  have apostrophe : IsLine "\x27" := .of_all (by decide)
  refine Text.isLine_append.2 ⟨Text.isLine_append.2 ⟨apostrophe, fun u member => ?_⟩, apostrophe⟩
  obtain rfl | continues := mem_join_names named member
  · decide
  · exact isLineEnd_of_isNameContinue continues

theorem FieldHeading.isLine_render {f : FieldHeading} (named : f.IsNamed) : IsLine f.render := by
  have literals : IsLine " (" ∧ IsLine "." ∧ IsLine ": " ∧ IsLine ")" :=
    ⟨.of_all (by decide), .of_all (by decide), .of_all (by decide), .of_all (by decide)⟩
  simp [render, Text.isLine_append, literals, isLine_renderPath named.path, named.parentType.isLine,
    named.fieldName.isLine, TypeRef.isLine_render named.resultType]

theorem FieldHeading.render_inj {f f' : FieldHeading} (named : f.IsNamed) (named' : f'.IsNamed)
    (same : f.render ++ after = f'.render ++ after') : f = f' ∧ after = after' := by
  have inside {f : FieldHeading} (named : f.IsNamed) : ∀ u ∈ f.resultType.render, (u != 0x29) = true := by
    intro u member
    rw [bne_iff_ne]
    rintro rfl
    have := TypeRef.mem_render named.resultType member
    contradiction
  simp only [render, List.append_assoc] at same
  obtain ⟨path, same⟩ := renderPath_inj named.path named'.path same
  obtain ⟨parentType, same⟩ := named.parentType.inj named'.parentType (.append (by decide) _) (.append (by decide) _)
    (List.append_cancel_left same)
  obtain ⟨fieldName, same⟩ := named.fieldName.inj named'.fieldName (.append (by decide) _) (.append (by decide) _)
    (List.append_cancel_left same)
  obtain ⟨type, behind⟩ := Text.run_inj (inside named) (inside named') (.append (by decide) _) (.append (by decide) _)
    (List.append_cancel_left same)
  have resultType := TypeRef.bare_of_render named.resultType named'.resultType type
  rw [named.bare, named'.bare] at resultType
  obtain ⟨_, _, _, _⟩ := f
  obtain ⟨_, _, _, _⟩ := f'
  exact ⟨(FieldHeading.mk.injEq ..).mpr ⟨path, parentType, fieldName, resultType⟩, List.append_cancel_left behind⟩

def InitialCount.IsNamed : InitialCount → Prop
  | items _ => True
  | var name => IsNameText name

theorem renderVariable_inj {name name' : Text} (named : IsNameText name) (named' : IsNameText name')
    (stops : after.Stops isNameContinue) (stops' : after'.Stops isNameContinue)
    (same : renderVariable name ++ after = renderVariable name' ++ after') : name = name' ∧ after = after' := by
  simp only [renderVariable, List.append_assoc] at same
  exact named.inj named' stops stops' (List.append_cancel_left same)

theorem renderVariable_ne_number {name : Text} {n : Nat} : renderVariable name ++ after ≠ Text.ofNat n ++ after' := by
  have dollar : (("$" : String) : Text) = [0x24] := by decide
  obtain ⟨u, rest, written⟩ := List.exists_cons_of_ne_nil (Text.ofNat_ne_nil n)
  rw [renderVariable, dollar, written, List.singleton_append, List.cons_append, List.cons_append]
  intro same
  have digit := Text.isDigit_of_mem_ofNat (written ▸ List.mem_cons_self : u ∈ Text.ofNat n)
  rw [← (List.cons.inj same).1] at digit
  contradiction

theorem isNameContinue_of_isDigit (u : CodeUnit) (digit : u.isDigit = true) : u.isNameContinue = true := by
  rw [isNameContinue, digit, Bool.or_true]

theorem InitialCount.render_inj {count count' : InitialCount} (named : count.IsNamed) (named' : count'.IsNamed)
    (stops : after.Stops isNameContinue) (stops' : after'.Stops isNameContinue)
    (same : count.render ++ after = count'.render ++ after') : count = count' ∧ after = after' := by
  cases count with
  | items n =>
      cases count' with
      | items m =>
          obtain ⟨digits, behind⟩ := Text.run_inj (fun _ => Text.isDigit_of_mem_ofNat) (fun _ => Text.isDigit_of_mem_ofNat)
            (stops.imp isNameContinue_of_isDigit) (stops'.imp isNameContinue_of_isDigit) same
          exact ⟨by rw [Text.ofNat_inj digits], behind⟩
      | var name => exact (renderVariable_ne_number same.symm).elim
  | var name =>
      cases count' with
      | items m => exact (renderVariable_ne_number same).elim
      | var name' =>
          obtain ⟨rfl, behind⟩ := renderVariable_inj named named' stops stops' same
          exact ⟨rfl, behind⟩

theorem isLine_renderVariable {name : Text} (named : IsNameText name) : IsLine (renderVariable name) :=
  Text.isLine_append.2 ⟨.of_all (by decide), named.isLine⟩

theorem isLine_ofNat (n : Nat) : IsLine (Text.ofNat n) := fun u member =>
  isLineEnd_of_isNameContinue (isNameContinue_of_isDigit u (Text.isDigit_of_mem_ofNat member))

theorem InitialCount.isLine_render {count : InitialCount} (named : count.IsNamed) : IsLine count.render := by
  cases count with
  | items n => exact isLine_ofNat n
  | var name => exact isLine_renderVariable named

inductive PlanOption where
  | count (count : InitialCount)
  | label (text : Text)
  | condition (name : Text)

namespace PlanOption

def name : PlanOption → Text
  | count _ => "initialCount"
  | label _ => "label"
  | condition _ => "if"

def value : PlanOption → Text
  | count c => c.render
  | label text => Quoted.label text
  | condition name => renderVariable name

def render (option : PlanOption) : Text := option.name ++ ": " ++ option.value

def IsNamed : PlanOption → Prop
  | count c => c.IsNamed
  | label text => text.WellFormed
  | condition name => IsNameText name

theorem isNameText_name (option : PlanOption) : IsNameText option.name := by
  cases option <;> simp only [name] <;> decide

variable {option option' : PlanOption} {options options' : List PlanOption}

theorem render_inj (named : option.IsNamed) (named' : option'.IsNamed) (stops : after.Stops isNameContinue)
    (stops' : after'.Stops isNameContinue) (same : option.render ++ after = option'.render ++ after') :
    option = option' ∧ after = after' := by
  simp only [render, List.append_assoc] at same
  obtain ⟨names, same⟩ := option.isNameText_name.inj option'.isNameText_name (.append (by decide) _)
    (.append (by decide) _) same
  have values := List.append_cancel_left same
  cases option with
  | count c =>
      cases option' with
      | count c' =>
          have named : c.IsNamed := named
          obtain ⟨rfl, behind⟩ := InitialCount.render_inj named named' stops stops' values
          exact ⟨rfl, behind⟩
      | label | condition => simp only [name] at names; exact absurd names (by decide)
  | label text =>
      cases option' with
      | label text' =>
          have named : text.WellFormed := named
          obtain ⟨rfl, behind⟩ := Quoted.label_inj named named' values
          exact ⟨rfl, behind⟩
      | count | condition => simp only [name] at names; exact absurd names (by decide)
  | condition var =>
      cases option' with
      | condition var' =>
          have named : IsNameText var := named
          obtain ⟨rfl, behind⟩ := renderVariable_inj named named' stops stops' values
          exact ⟨rfl, behind⟩
      | count | label => simp only [name] at names; exact absurd names (by decide)

def renderNext (option : PlanOption) : Text := ", " ++ option.render

theorem join_cons (option : PlanOption) (options : List PlanOption) :
    join ", " ((option :: options).map render) = option.render ++ options.flatMap renderNext := by
  induction options generalizing option with
  | nil => simp [join]
  | cons next options ih =>
      rw [List.map_cons, List.map_cons, join, List.intercalate_cons_cons, ← List.map_cons, ← join, ih, List.flatMap_cons,
        renderNext, List.append_assoc, List.append_assoc]

theorem stops_behind (options : List PlanOption) (after : Text) :
    Text.Stops isNameContinue (options.flatMap renderNext ++ (")" ++ after)) := by
  cases options with
  | nil =>
      rw [List.flatMap_nil, List.nil_append]
      exact .append (by decide) _
  | cons next options =>
      rw [List.flatMap_cons, renderNext, List.append_assoc, List.append_assoc]
      exact .append (by decide) _

theorem behind_inj (named : ∀ o ∈ options, o.IsNamed) (named' : ∀ o ∈ options', o.IsNamed)
    (same : options.flatMap renderNext ++ (")" ++ after) = options'.flatMap renderNext ++ (")" ++ after')) :
    options = options' ∧ after = after' := by
  have apart (option : PlanOption) (a b : Text) : renderNext option ++ a ≠ ")" ++ b := by
    have comma : ((", " : String) : Text) = [0x2c, 0x20] := by decide
    have closing : ((")" : String) : Text) = [0x29] := by decide
    simp [renderNext, comma, closing]
  induction options generalizing options' with
  | nil =>
      cases options' with
      | nil => exact ⟨rfl, List.append_cancel_left same⟩
      | cons option' options' =>
          rw [List.flatMap_cons, List.append_assoc] at same
          exact (apart option' _ _ same.symm).elim
  | cons option options ih =>
      cases options' with
      | nil =>
          rw [List.flatMap_cons, List.append_assoc] at same
          exact (apart option _ _ same).elim
      | cons option' options' =>
          rw [List.forall_mem_cons] at named named'
          simp only [List.flatMap_cons, renderNext, List.append_assoc] at same
          obtain ⟨rfl, others⟩ := render_inj named.1 named'.1 (stops_behind options after) (stops_behind options' after')
            (List.append_cancel_left same)
          obtain ⟨rfl, behind⟩ := ih named.2 named'.2 others
          exact ⟨rfl, behind⟩

theorem join_ne_nil (option : PlanOption) (options : List PlanOption) : join ", " ((option :: options).map render) ≠ [] := by
  rw [join_cons, render, List.append_assoc, List.append_assoc]
  exact fun empty => option.isNameText_name.ne_nil (List.append_eq_nil_iff.1 empty).1

theorem enclosed_inj (named : ∀ o ∈ option :: options, o.IsNamed) (named' : ∀ o ∈ option' :: options', o.IsNamed)
    (same : join ", " ((option :: options).map render) ++ (")" ++ after) =
      join ", " ((option' :: options').map render) ++ (")" ++ after')) :
    option :: options = option' :: options' ∧ after = after' := by
  rw [List.forall_mem_cons] at named named'
  rw [join_cons, join_cons, List.append_assoc, List.append_assoc] at same
  obtain ⟨rfl, others⟩ := render_inj named.1 named'.1 (stops_behind options after) (stops_behind options' after') same
  obtain ⟨rfl, behind⟩ := behind_inj named.2 named'.2 others
  exact ⟨rfl, behind⟩

theorem isLine_render (named : option.IsNamed) : IsLine option.render := by
  refine Text.isLine_append.2 ⟨Text.isLine_append.2 ⟨option.isNameText_name.isLine, .of_all (by decide)⟩, ?_⟩
  cases option with
  | count c => exact InitialCount.isLine_render named
  | label text => exact Quoted.isLine_label named
  | condition name => exact isLine_renderVariable named

theorem isLine_join (named : ∀ o ∈ options, o.IsNamed) : IsLine (join ", " (options.map render)) := by
  cases options with
  | nil => exact .of_all rfl
  | cons option options =>
      rw [List.forall_mem_cons] at named
      rw [join_cons]
      refine Text.isLine_append.2 ⟨isLine_render named.1, fun u member => ?_⟩
      obtain ⟨next, among, inside⟩ := List.mem_flatMap.1 member
      exact Text.isLine_append.2 ⟨.of_all (by decide), isLine_render (named.2 next among)⟩ u inside

def ofDefer (label condition : Option Text) : List PlanOption :=
  (label.map PlanOption.label).toList ++ (condition.map PlanOption.condition).toList

theorem ofDefer_inj {label label' condition condition' : Option Text}
    (same : ofDefer label condition = ofDefer label' condition') : label = label' ∧ condition = condition' := by
  cases label <;> cases label' <;> cases condition <;> cases condition' <;> simp_all [ofDefer]

theorem deferOptions_eq (label condition : Option Text) :
    deferOptions label condition = join ", " ((ofDefer label condition).map render) := by
  cases label <;> cases condition <;> rfl

theorem streamOptions_eq (count : InitialCount) (label condition : Option Text) :
    streamOptions count label condition = join ", " ((PlanOption.count count :: ofDefer label condition).map render) := by
  cases label <;> cases condition <;> rfl

def enclosure (options : List PlanOption) : Text := wrap " (" (join ", " (options.map render)) ")"

theorem enclosure_cons (option : PlanOption) (options : List PlanOption) :
    enclosure (option :: options) = " (" ++ (join ", " ((option :: options).map render) ++ ")") := by
  rw [enclosure, wrap, if_neg (join_ne_nil option options), List.append_assoc]

theorem isLine_enclosure (named : ∀ o ∈ options, o.IsNamed) : IsLine (enclosure options) := by
  cases options with
  | nil => exact .of_all (by decide)
  | cons option options =>
      rw [enclosure_cons]
      exact Text.isLine_append.2 ⟨.of_all (by decide), Text.isLine_append.2 ⟨isLine_join named, .of_all (by decide)⟩⟩

end PlanOption

end QueryPlanner
