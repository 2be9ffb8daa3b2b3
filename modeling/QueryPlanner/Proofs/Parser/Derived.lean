import QueryPlanner.Proofs.Parser.Inside

namespace QueryPlanner
open Grammar ParserState

namespace Parser
open Run

variable {α : Type} {body : Source} {o : ParseOptions} {k : Nat} {s s' : ParserState} {isConst : Bool} {node : α → Node}

theorem name_inside {made : Name} (here : s.Inside body o k) (h : name s = .ok made s') : s'.Inside body o k :=
  (here.reads (name_spans here.toLocates h) (name_sound here.toValid here.standsAt h)).1

theorem var_finds : Finds body o k var fun v => [.value (.var v)] := by
  intro s made s' here h
  obtain ⟨inside, ts, among, covers, derives⟩ :=
    here.reads (var_spans here.toLocates h) (var_sound here.toValid here.standsAt h)
  refine ⟨inside, List.forall_mem_singleton.2 (.intro ?_ (List.forall_mem_singleton.2 (Node.areDerived_name _)))⟩
  exact ⟨ts, among, covers, .var rfl derives, Nat.zero_le _⟩

section
variable {inner : Parser Value}

theorem labelled_finds {make : Name → Value → Option Location → α} (own : ∀ made, (node made).IsDerived body o)
    (children : ∀ name value loc, (node (make name value loc)).children = [.name name, .value value])
    (finds : Finds body o k inner fun v => [.value v]) :
    Finds body o k (labelled inner make) fun made => [node made] := by
  refine .other own fun s made s' here h => ?_
  simp only [labelled, currentToken_bind, bind_ok, locationFrom_ok, pure_ok] at h
  obtain ⟨name, s₁, named, t, s₂, marked, value, s₃, read, _, _, ⟨rfl, rfl⟩, rfl, rfl⟩ := h
  obtain ⟨inside, derived⟩ := finds ((name_inside here named).expectToken marked) read
  refine ⟨inside, ?_⟩
  dsimp only
  rw [children]
  exact List.forall_mem_cons.2 ⟨Node.areDerived_name name, derived⟩

theorem objectFieldWith_finds (finds : Finds body o k inner fun v => [.value v]) :
    Finds body o k (objectFieldWith inner) fun f => [.objectField f] :=
  labelled_finds (fun _ => trivial) (fun _ _ _ => rfl) finds

theorem literal_finds {make : Option Location → Value} {made : Value} (here : s.Inside body o k)
    (leaf : ∀ loc, (Node.value (make loc)).children = [])
    (h : (do Parser.advance; return make (← locationFrom s.token)) s = .ok made s') :
    s'.Inside body o k ∧ ∀ child ∈ (Node.value made).children, child.AreDerived body o := by
  simp only [bind_ok, locationFrom_ok, pure_ok] at h
  obtain ⟨_, s₁, moved, _, _, ⟨rfl, rfl⟩, rfl, rfl⟩ := h
  exact ⟨here.advance moved, leaf _ ▸ List.forall_mem_nil _⟩

theorem valueWith_finds (finds : ∀ m, o.room k = m + 1 → Finds body o (k + 1) inner fun v => [.value v]) :
    Finds body o k (valueWith isConst inner) fun v => (Node.value v).children := by
  intro s made s' here h
  unfold valueWith at h
  rw [currentToken_bind] at h
  cases kind : s.token.kind <;> simp only [kind] at h
  case bracketOpen =>
      simp only [listWith, currentToken_bind, bind_ok, locationFrom_ok, pure_ok] at h
      obtain ⟨values, s₁, read, _, _, ⟨rfl, rfl⟩, rfl, rfl⟩ := h
      exact Finds.nested (fun m level => .any (finds m level)) here read
  case braceOpen =>
      simp only [objectWith, currentToken_bind, bind_ok, locationFrom_ok, pure_ok] at h
      obtain ⟨fields, s₁, read, _, _, ⟨rfl, rfl⟩, rfl, rfl⟩ := h
      exact Finds.nested (fun m level => .any (objectFieldWith_finds (finds m level))) here read
  case int => exact literal_finds here (fun _ => rfl) h
  case float => exact literal_finds here (fun _ => rfl) h
  case string | blockString =>
      rw [stringLiteral, currentToken_bind, kind] at h
      exact literal_finds here (fun _ => rfl) h
  case name =>
      rw [nameValue_eq] at h
      exact literal_finds here (fun loc => (named_leaf _ loc).2) h
  case dollar =>
      cases isConst with
      | true => exact (variableInConstant_fails h).elim
      | false =>
          simp only [Bool.false_eq_true, if_false, bind_ok, pure_ok] at h
          obtain ⟨v, s₁, read, rfl, rfl⟩ := h
          exact ⟨(var_finds here read).1, List.forall_mem_singleton.2 (Node.areDerived_name _)⟩
  all_goals exact (unexpected_fails h).elim

end

theorem Finds.valueWithin {n : Nat} (levels : o.room k = n)
    (finds : Finds body o k (valueWithin isConst n) fun v => (Node.value v).children) :
    Finds body o k (valueWithin isConst n) fun v => [.value v] := by
  subst levels
  refine .whole (fun s made s' here h => ?_) finds
  obtain ⟨-, ts, among, covers, derives, low⟩ :=
    here.reads (valueWithin_spans _ here.toLocates h) (valueWithin_sound here.toValid here.standsAt h)
  exact ⟨ts, among, covers, derives.ofConst, Nat.le_trans low (o.room_le k)⟩

theorem valueWithin_finds {n : Nat} (levels : o.room k = n) :
    Finds body o k (valueWithin isConst n) fun v => [.value v] := by
  induction n generalizing k with
  | zero =>
      refine .valueWithin levels (valueWith_finds fun m level => ?_)
      exact absurd (level.symm.trans levels) (Nat.succ_ne_zero m)
  | succ n ih => exact .valueWithin levels (valueWith_finds fun m _ => ih (o.room_of_succ levels))

theorem value_finds : Finds body o k (value isConst) fun v => [.value v] := .ofRoom (valueWithin_finds rfl)

theorem argument_finds : Finds body o k (argument isConst) fun a => [.argument a] :=
  labelled_finds (fun _ => trivial) (fun _ _ _ => rfl) value_finds

theorem arguments_finds : Finds body o k (arguments isConst) (List.map .argument) := .optionalMany argument_finds

theorem directive_finds : Finds body o k (directive isConst) fun d => [.directive d] := by
  refine .other (fun _ => trivial) fun s made s' here h => ?_
  simp only [directive, bind_ok, locationFrom_ok, pure_ok] at h
  obtain ⟨t, s₁, opened, name, s₂, named, arguments, s₃, called, _, _, ⟨rfl, rfl⟩, rfl, rfl⟩ := h
  obtain ⟨inside, derived⟩ := arguments_finds (name_inside (here.expectToken opened) named) called
  exact ⟨inside, List.forall_mem_cons.2 ⟨Node.areDerived_name name, derived⟩⟩

theorem directives_finds : Finds body o k (directives isConst) (List.map .directive) :=
  fun s _ _ here h => Finds.itemsWhile directive_finds (s.tokensLeft + 1) here h

theorem namedType_finds : Finds body o k namedType fun t => [.type (.named t)] := by
  intro s made s' here h
  obtain ⟨inside, ts, among, covers, derives⟩ :=
    here.reads (namedType_spans here.toLocates h) (namedType_sound here.toValid here.standsAt h)
  refine ⟨inside, List.forall_mem_singleton.2 (.intro ?_ (List.forall_mem_singleton.2 (Node.areDerived_name _)))⟩
  exact ⟨ts, among, covers, .named derives, Nat.zero_le _⟩

section
variable {inner : Parser TypeRef} (spans : Spans body inner .type)
  (sound : ∀ m, o.room k = m + 1 → SoundAt o m inner TypeRef.bare (typeRefAt m))
  (finds : ∀ m, o.room k = m + 1 → Finds body o (k + 1) inner fun t => [.type t])
include spans sound finds

theorem typeHead_finds {made : TypeRef} (here : s.Inside body o k) (h : typeHead inner s.token s = .ok made s') :
    s'.Inside body o k ∧ (Node.type made).AreDerived body o := by
  obtain ⟨ls, derives, -, consumes⟩ := typeHead_sound sound here.toValid here.standsAt h
  obtain ⟨inside, ts, among, covers, derives, low⟩ :=
    here.reads (G := (typeRefAt (o.room k) · made.bare)) (typeHead_spans spans here.toLocates h) ⟨ls, derives, consumes⟩
  refine ⟨inside, .intro ⟨ts, among, covers, derives, Nat.le_trans low (o.room_le k)⟩ ?_⟩
  unfold typeHead at h
  obtain ⟨bracket, s₁, looked, h⟩ := bind_ok.1 h
  cases bracket with
  | true =>
      simp only [if_true, listTypeWith, bind_ok, locationFrom_ok, pure_ok] at h
      obtain ⟨item, s₂, read, t, s₃, closed, _, _, ⟨rfl, rfl⟩, rfl, rfl⟩ := h
      exact (Finds.nested finds (here.optionalToken looked) read).2
  | false =>
      obtain ⟨type, named, rfl⟩ := map_ok.1 h
      exact List.forall_mem_singleton.2 (Node.areDerived_name type.name)

theorem typeRefWith_finds : Finds body o k (typeRefWith inner) fun t => [.type t] := by
  intro s made s' here h
  obtain ⟨inside, ts, among, covers, derives, low⟩ := here.reads (typeRefWith_spans spans here.toLocates h)
    (typeRefWith_sound sound here.toValid here.standsAt h)
  have own : (Node.type made).IsDerived body o := ⟨ts, among, covers, derives, Nat.le_trans low (o.room_le k)⟩
  refine ⟨inside, List.forall_mem_singleton.2 ?_⟩
  rw [typeRefWith_run] at h
  obtain ⟨type, s₁, read, h⟩ := bind_ok.1 h
  obtain ⟨-, derived⟩ := typeHead_finds spans sound finds here read
  unfold typeMark at h
  obtain ⟨bang, s₂, looked, h⟩ := bind_ok.1 h
  cases bang with
  | true =>
      simp only [if_true, bind_ok, locationFrom_ok, pure_ok] at h
      obtain ⟨_, _, ⟨rfl, rfl⟩, rfl, rfl⟩ := h
      exact .intro own (List.forall_mem_singleton.2 derived)
  | false =>
      obtain ⟨rfl, rfl⟩ := pure_ok.1 h
      exact derived

end

theorem typeRefWithin_finds {n : Nat} (levels : o.room k = n) :
    Finds body o k (typeRefWithin n) fun t => [.type t] := by
  induction n generalizing k with
  | zero =>
      have bottom (m : Nat) : o.room k ≠ m + 1 := fun level => Nat.succ_ne_zero m (level.symm.trans levels)
      exact typeRefWith_finds tooDeep_returns (fun m level => absurd level (bottom m))
        fun m level => absurd level (bottom m)
  | succ n ih =>
      refine typeRefWith_finds (typeRefWithin_spans n) (fun m level => ?_) fun m _ => ih (o.room_of_succ levels)
      obtain rfl := Nat.succ.inj (levels.symm.trans level)
      exact typeRefWithin_sound

theorem typeRef_finds : Finds body o k typeRef fun t => [.type t] := .ofRoom (typeRefWithin_finds rfl)

theorem modifier_finds : Finds body o k modifier fun m => m.toList.map .modifier := by
  intro s made s' here h
  have inside := (here.reads (modifier_strews here.toLocates h) (modifier_sound here.toValid here.standsAt h)).1
  exact ⟨inside, List.forall_mem_map.2 fun m _ => Node.areDerived_modifier m⟩

theorem fragmentName_inside {made : Name} (here : s.Inside body o k) (h : fragmentName s = .ok made s') :
    s'.Inside body o k :=
  (here.reads (fragmentName_spans here.toLocates h) (fragmentName_sound here.toValid here.standsAt h)).1

theorem fragmentSpread_finds (start : Token) :
    Finds body o k (fragmentSpread start) fun made => [.selection (.spread made)] := by
  refine .other (fun _ => trivial) fun s made s' here h => ?_
  simp only [fragmentSpread, bind_ok, locationFrom_ok, pure_ok] at h
  obtain ⟨name, s₁, named, ds, s₂, directed, _, _, ⟨rfl, rfl⟩, rfl, rfl⟩ := h
  obtain ⟨inside, derived⟩ := directives_finds (fragmentName_inside here named) directed
  exact ⟨inside, List.forall_mem_cons.2 ⟨Node.areDerived_name name, derived⟩⟩

theorem fieldNames_finds : Finds body o k fieldNames fun names => names.1.toList.map .name ++ [.name names.2] := by
  intro s made s' here h
  have inside := (here.reads (fieldNames_fills here.toLocates h) (fieldNames_sound here.toValid here.standsAt h)).1
  exact ⟨inside, List.forall_mem_append.2 ⟨List.forall_mem_map.2 fun n _ => Node.areDerived_name n,
    List.forall_mem_singleton.2 (Node.areDerived_name _)⟩⟩

section
variable {inner : Parser SelectionSet} (finds : Finds body o k inner fun set => [.selectionSet set])
include finds

theorem inlineFragmentWith_finds (start : Token) (hasTypeCondition : Bool) :
    Finds body o k (inlineFragmentWith inner start hasTypeCondition) fun made => [.selection (.inline made)] := by
  refine .other (fun _ => trivial) fun s made s' here h => ?_
  rw [inlineFragmentWith_eq] at h
  simp only [bind_ok, locationFrom_ok, pure_ok] at h
  obtain ⟨type, s₁, typed, ds, s₂, directed, set, s₃, selected, _, _, ⟨rfl, rfl⟩, rfl, rfl⟩ := h
  obtain ⟨i₁, d₁⟩ := Finds.optional namedType_finds hasTypeCondition here typed
  obtain ⟨i₂, d₂⟩ := directives_finds i₁ directed
  obtain ⟨i₃, d₃⟩ := finds i₂ selected
  exact ⟨i₃, List.forall_mem_append.2 ⟨d₁, List.forall_mem_append.2 ⟨d₂, d₃⟩⟩⟩

theorem fragmentSelectionWith_finds : Finds body o k (fragmentSelectionWith inner) fun made => [.selection made] := by
  intro s made s' here h
  unfold fragmentSelectionWith at h
  simp only [bind_ok, peek_ok] at h
  obtain ⟨start, s₁, marked, hasCondition, s₂, looked, isName, s₃, ⟨-, rfl⟩, h⟩ := h
  have inside := (here.expectToken marked).optionalKeyword looked
  split_ifs at h
  · obtain ⟨f, s₄, read, h⟩ := bind_ok.1 h
    obtain ⟨rfl, rfl⟩ := pure_ok.1 h
    exact fragmentSpread_finds start inside read
  · obtain ⟨f, s₄, read, h⟩ := bind_ok.1 h
    obtain ⟨rfl, rfl⟩ := pure_ok.1 h
    exact inlineFragmentWith_finds finds start hasCondition inside read

theorem maybeSet_finds : Finds body o k (maybeSet inner) fun set => set.toList.map .selectionSet :=
  .peek finds.optional

theorem fieldWith_finds : Finds body o k (fieldWith inner) fun made => [.selection (.field made)] := by
  refine .other (fun _ => trivial) fun s made s' here h => ?_
  rw [fieldWith_run] at h
  simp only [bind_ok, locationFrom_ok, pure_ok] at h
  obtain ⟨names, s₁, named, as, s₂, called, m, s₃, modified, ds, s₄, directed, set, s₅, selected, _, _, ⟨rfl, rfl⟩, rfl,
    rfl⟩ := h
  obtain ⟨i₁, d₁⟩ := fieldNames_finds here named
  obtain ⟨i₂, d₂⟩ := arguments_finds i₁ called
  obtain ⟨i₃, d₃⟩ := modifier_finds i₂ modified
  obtain ⟨i₄, d₄⟩ := directives_finds i₃ directed
  obtain ⟨i₅, d₅⟩ := maybeSet_finds finds i₄ selected
  have derived := List.forall_mem_append.2 ⟨d₁, List.forall_mem_append.2 ⟨d₂, List.forall_mem_append.2 ⟨d₃,
    List.forall_mem_append.2 ⟨d₄, d₅⟩⟩⟩⟩
  rw [List.append_assoc] at derived
  exact ⟨i₅, derived⟩

theorem selectionWith_finds : Finds body o k (selectionWith inner) fun made => [.selection made] := by
  refine .peek fun isSpread => ?_
  cases isSpread with
  | true => exact fragmentSelectionWith_finds finds
  | false =>
      intro s made s' here h
      simp only [Bool.false_eq_true, if_false, bind_ok, pure_ok] at h
      obtain ⟨f, s₂, read, rfl, rfl⟩ := h
      exact fieldWith_finds finds here read

end

theorem selectionSetWith_finds {inner : Parser SelectionSet}
    (finds : ∀ m, o.room k = m + 1 → Finds body o (k + 1) inner fun set => [.selectionSet set]) :
    Finds body o k (selectionSetWith inner) fun set => [.selectionSet set] := by
  refine .other (fun _ => trivial) fun s made s' here h => ?_
  simp only [selectionSetWith, currentToken_bind, bind_ok, locationFrom_ok, pure_ok] at h
  obtain ⟨selections, s₁, read, _, _, ⟨rfl, rfl⟩, rfl, rfl⟩ := h
  exact Finds.nested (fun m level => .many (selectionWith_finds (finds m level))) here read

theorem selectionSetWithin_finds {n : Nat} (levels : o.room k = n) :
    Finds body o k (selectionSetWithin n) fun set => [.selectionSet set] := by
  induction n generalizing k with
  | zero => exact selectionSetWith_finds fun m level => absurd (level.symm.trans levels) (Nat.succ_ne_zero m)
  | succ n ih => exact selectionSetWith_finds fun m _ => ih (o.room_of_succ levels)

theorem selectionSet_finds : Finds body o k selectionSet fun set => [.selectionSet set] :=
  .ofRoom (selectionSetWithin_finds rfl)

theorem maybeDefault_finds : Finds body o k maybeDefault fun v => v.toList.map .value :=
  .optionalToken (Finds.optional value_finds)

theorem variableDefinition_finds : Finds body o k variableDefinition fun made => [.variableDefinition made] := by
  refine .other (fun _ => trivial) fun s made s' here h => ?_
  rw [variableDefinition_run] at h
  simp only [bind_ok, locationFrom_ok, pure_ok] at h
  obtain ⟨v, s₁, named, t, s₂, marked, type, s₃, typed, value, s₄, read, ds, s₅, directed, _, _, ⟨rfl, rfl⟩, rfl,
    rfl⟩ := h
  obtain ⟨i₁, d₁⟩ := var_finds here named
  obtain ⟨i₃, d₃⟩ := typeRef_finds (i₁.expectToken marked) typed
  obtain ⟨i₄, d₄⟩ := maybeDefault_finds i₃ read
  obtain ⟨i₅, d₅⟩ := directives_finds i₄ directed
  exact ⟨i₅, List.forall_mem_append.2 ⟨d₁, List.forall_mem_append.2 ⟨d₃, List.forall_mem_append.2 ⟨d₄, d₅⟩⟩⟩⟩

theorem variableDefinitions_finds : Finds body o k variableDefinitions (List.map .variableDefinition) :=
  .optionalMany variableDefinition_finds

theorem maybeName_inside {made : Option Name} (here : s.Inside body o k) (h : maybeName s = .ok made s') :
    s'.Inside body o k :=
  (here.reads (maybeName_strews here.toLocates h) (maybeName_sound here.toValid here.standsAt h)).1

theorem operation_finds :
    Finds body o k operation fun made => (Node.definition (.operation made)).children := by
  intro s made s' here h
  rw [operation_run] at h
  simp only [bind_ok, peek_ok] at h
  obtain ⟨brace, s₁, ⟨-, rfl⟩, h⟩ := h
  cases brace with
  | true =>
      simp only [if_true, shorthand, bind_ok, locationFrom_ok, pure_ok] at h
      obtain ⟨set, s₁, selected, _, _, ⟨rfl, rfl⟩, rfl, rfl⟩ := h
      exact selectionSet_finds here selected
  | false =>
      simp only [Bool.false_eq_true, if_false, namedOperation, bind_ok, locationFrom_ok, pure_ok] at h
      obtain ⟨type, s₁, typed, found, s₂, named, vs, s₃, defined, ds, s₄, directed, set, s₅, selected, _, _, ⟨rfl, rfl⟩,
        rfl, rfl⟩ := h
      have i₁ := here.taken (operationType_passes here.toLocates typed) (operationType_sound here.toValid typed)
      obtain ⟨i₃, d₃⟩ := variableDefinitions_finds (maybeName_inside i₁ named) defined
      obtain ⟨i₄, d₄⟩ := directives_finds i₃ directed
      obtain ⟨i₅, d₅⟩ := selectionSet_finds i₄ selected
      exact ⟨i₅, List.forall_mem_append.2 ⟨List.forall_mem_map.2 fun n _ => Node.areDerived_name n,
        List.forall_mem_append.2 ⟨d₃, List.forall_mem_append.2 ⟨d₄, d₅⟩⟩⟩⟩

theorem fragmentVariables_finds :
    Finds body o k fragmentVariables fun definitions => (definitions.getD []).map .variableDefinition := by
  intro s made s' here h
  unfold fragmentVariables at h
  rw [get_bind] at h
  split_ifs at h
  · obtain ⟨definitions, read, rfl⟩ := map_ok.1 h
    exact variableDefinitions_finds here read
  · obtain ⟨rfl, rfl⟩ := pure_ok.1 h
    exact ⟨here, List.forall_mem_nil _⟩

theorem fragment_finds : Finds body o k fragment fun made => (Node.definition (.fragment made)).children := by
  intro s made s' here h
  rw [fragment_run] at h
  simp only [bind_ok, locationFrom_ok, pure_ok] at h
  obtain ⟨_, s₁, begun, name, s₂, named, vs, s₃, defined, _, s₄, condition, type, s₅, typed, ds, s₆, directed, set, s₇,
    selected, _, _, ⟨rfl, rfl⟩, rfl, rfl⟩ := h
  obtain ⟨i₃, d₃⟩ := fragmentVariables_finds (fragmentName_inside (here.expectKeyword begun) named) defined
  obtain ⟨i₅, d₅⟩ := namedType_finds (i₃.expectKeyword condition) typed
  obtain ⟨i₆, d₆⟩ := directives_finds i₅ directed
  obtain ⟨i₇, d₇⟩ := selectionSet_finds i₆ selected
  exact ⟨i₇, List.forall_mem_cons.2 ⟨Node.areDerived_name name, List.forall_mem_append.2 ⟨d₃,
    List.forall_mem_append.2 ⟨d₅, List.forall_mem_append.2 ⟨d₆, d₇⟩⟩⟩⟩⟩

theorem definition_parts : Finds body o k definition fun made => (Node.definition made).children := by
  intro s made s' here h
  have ofOperation (h : (do return .operation (← operation) : Parser Definition) s = .ok made s') :
      s'.Inside body o k ∧ ∀ child ∈ (Node.definition made).children, child.AreDerived body o := by
    simp only [bind_ok, pure_ok] at h
    obtain ⟨made, s₁, read, rfl, rfl⟩ := h
    exact operation_finds here read
  unfold definition at h
  rw [currentToken_bind] at h
  split_ifs at h with brace name type begins
  · exact ofOperation h
  · exact ofOperation h
  · simp only [bind_ok, pure_ok] at h
    obtain ⟨made, s₁, read, rfl, rfl⟩ := h
    exact fragment_finds here read
  · simp at h
  · simp at h

theorem definition_finds : Finds body o k definition fun made => [.definition made] := by
  refine .whole (fun s made s' here h => ?_) definition_parts
  obtain ⟨-, ts, among, covers, derives, low⟩ :=
    here.reads (definition_spans here.toLocates h) (definition_sound here.toValid here.standsAt h)
  exact ⟨ts, among, covers, derives, Nat.le_trans low (o.room_le k)⟩

end Parser

section
variable {α : Type} {source : Source} {o : ParseOptions}
open QueryPlanner.Parser Run

theorem ParserState.Enters.inside {s : ParserState} (enters : s.Enters source o) (locations : o.noLocation = false) :
    s.Inside source o 0 where
  toLocates := enters.locates locations
  options := enters.options
  depth := enters.depth
  within := enters.ahead ▸ List.suffix_rfl

theorem whole_derived {p : Parser α} {node : α → Node} {made : α} (finds : Finds source o 0 p fun made => [node made])
    (locations : o.noLocation = false) (returned : parse (whole p) source o = .ok made) :
    (node made).AreDerived source o := by
  obtain ⟨s, s', enters, read⟩ := parse_enters (show whole p _ = (_ >>= fun _ => toEnd p) _ from rfl) returned
  simp only [toEnd, bind_ok, pure_ok] at read
  obtain ⟨_, s₁, read, _, _, -, rfl, -⟩ := read
  exact List.forall_mem_singleton.1 (finds (enters.inside locations) read).2

theorem document_derived {d : Document} (locations : o.noLocation = false)
    (returned : Document.parse source o = .ok d) : (Node.document d).AreDerived source o := by
  obtain ⟨s, s', enters, read⟩ := parse_enters document_start returned
  simp only [definitionsFrom, bind_ok, locationFrom_ok, pure_ok] at read
  obtain ⟨definitions, s₁, read, _, _, ⟨rfl, rfl⟩, rfl, rfl⟩ := read
  exact .intro trivial (Finds.oneOrMore definition_finds (enters.inside locations) read).2

end

end QueryPlanner
