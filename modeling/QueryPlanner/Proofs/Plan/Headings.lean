import QueryPlanner.Proofs.Plan.Wording

namespace QueryPlanner
open CodeUnit
open Text (IsLine join wrap)

variable {after after' : Text}

namespace PlanHeading

def IsNamed : PlanHeading → Prop
  | operation _ name => ∀ n ∈ name, IsNameText n
  | subscription field | resolver field | composite field => field.IsNamed
  | serial | parallel => True
  | stream _ path initialCount label condition => (∀ key ∈ path, IsNameText key) ∧ initialCount.IsNamed ∧
      ∀ option ∈ PlanOption.ofDefer label condition, option.IsNamed
  | defer path parentType label condition => (∀ key ∈ path, IsNameText key) ∧ IsNameText parentType ∧
      ∀ option ∈ PlanOption.ofDefer label condition, option.IsNamed

def title : PlanHeading → Text
  | operation .. => "Operation"
  | subscription _ => "Subscription"
  | serial => "Serial"
  | parallel => "Parallel"
  | resolver _ => "Resolver"
  | composite _ => "Composite"
  | stream .. => "Stream"
  | defer .. => "Defer"

def nameSuffix : Option Text → Text
  | none => []
  | some name => " " ++ name

def details (hasParts : Bool) : PlanHeading → Text
  | operation type name => ": " ++ type.text ++ nameSuffix name
  | subscription field | composite field => " " ++ field.render ++ line.ending hasParts
  | serial | parallel => ":"
  | resolver field => " " ++ field.render
  | stream id path initialCount label condition =>
    " #" ++ Text.ofNat id ++ " " ++ renderPath path ++ " (" ++ streamOptions initialCount label condition ++ "):"
  | defer path parentType label condition => " at " ++ line.place path ++ " on " ++ parentType ++
      PlanOption.enclosure (PlanOption.ofDefer label condition) ++ line.ending hasParts

theorem line_eq (hasParts : Bool) (h : PlanHeading) : h.line hasParts = h.title ++ h.details hasParts := by
  have operation : (("Operation: " : String) : Text) = Text.ofString "Operation" ++ Text.ofString ": " := by decide
  have subscription : (("Subscription " : String) : Text) = Text.ofString "Subscription" ++ Text.ofString " " := by decide
  have serial : (("Serial:" : String) : Text) = Text.ofString "Serial" ++ Text.ofString ":" := by decide
  have parallel : (("Parallel:" : String) : Text) = Text.ofString "Parallel" ++ Text.ofString ":" := by decide
  have resolver : (("Resolver " : String) : Text) = Text.ofString "Resolver" ++ Text.ofString " " := by decide
  have composite : (("Composite " : String) : Text) = Text.ofString "Composite" ++ Text.ofString " " := by decide
  have stream : (("Stream #" : String) : Text) = Text.ofString "Stream" ++ Text.ofString " #" := by decide
  have defer : (("Defer at " : String) : Text) = Text.ofString "Defer" ++ Text.ofString " at " := by decide
  cases h with
  | operation type name => cases name <;> simp [line, title, details, nameSuffix, operation]
  | _ =>
      simp [line, title, details, PlanOption.enclosure, PlanOption.deferOptions_eq, subscription, serial, parallel, resolver,
        composite, stream, defer]

theorem isNameText_title (h : PlanHeading) : IsNameText h.title := by
  cases h <;> simp only [title] <;> decide

theorem stops_details (hasParts : Bool) (h : PlanHeading) : Text.Stops isNameContinue (h.details hasParts) := by
  cases h <;> simp only [details, List.append_assoc]
  case serial | parallel => exact .append (by decide) []
  all_goals exact .append (by decide) _

theorem line_stops_space (hasParts : Bool) (h : PlanHeading) : Text.Stops (· == space) (h.line hasParts) := by
  obtain ⟨u, rest, title, start, -⟩ := h.isNameText_title
  rw [line_eq, title, List.cons_append]
  refine .cons (beq_eq_false_iff_ne.2 ?_)
  rintro rfl
  contradiction

theorem isLine_line (hasParts : Bool) {h : PlanHeading} (named : h.IsNamed) : IsLine (h.line hasParts) := by
  have literals : IsLine ": " ∧ IsLine " " ∧ IsLine " #" ∧ IsLine " (" ∧ IsLine "):" ∧ IsLine " at " ∧ IsLine " on " := by
    refine ⟨?_, ?_, ?_, ?_, ?_, ?_, ?_⟩ <;> exact .of_all (by decide)
  have ending : IsLine (line.ending hasParts) := by cases hasParts <;> exact .of_all (by decide)
  rw [line_eq, Text.isLine_append]
  refine ⟨h.isNameText_title.isLine, ?_⟩
  cases h with
  | operation type name =>
      have typed : IsLine type.text := by cases type <;> exact .of_all (by decide)
      have suffix : IsLine (nameSuffix name) := by
        cases name with
        | none => exact .of_all rfl
        | some name => exact Text.isLine_append.2 ⟨.of_all (by decide), (named name rfl).isLine⟩
      simp [details, Text.isLine_append, literals, typed, suffix]
  | subscription field | composite field | resolver field =>
      simp [details, Text.isLine_append, literals, ending, FieldHeading.isLine_render named]
  | serial | parallel => exact (IsLine.of_all (by decide) : IsLine ":")
  | stream id path count label condition =>
      obtain ⟨keys, counted, options⟩ := named
      have all : ∀ o ∈ PlanOption.count count :: PlanOption.ofDefer label condition, o.IsNamed :=
        List.forall_mem_cons.2 ⟨counted, options⟩
      have given : IsLine (streamOptions count label condition) := by
        rw [PlanOption.streamOptions_eq]
        exact PlanOption.isLine_join all
      simp [details, Text.isLine_append, literals, isLine_ofNat, isLine_renderPath keys, given]
  | defer path parentType label condition =>
      obtain ⟨keys, onType, options⟩ := named
      have place : IsLine (line.place path) := by
        unfold line.place
        split_ifs
        · exact .of_all (by decide)
        · exact isLine_renderPath keys
      simp [details, Text.isLine_append, literals, place, onType.isLine, PlanOption.isLine_enclosure options, ending]

theorem operation_inj {type type' : OperationType} {name name' : Option Text} (named : ∀ n ∈ name, IsNameText n)
    (named' : ∀ n ∈ name', IsNameText n) (same : type.text ++ nameSuffix name = type'.text ++ nameSuffix name') :
    type = type' ∧ name = name' := by
  have stops (name : Option Text) : Text.Stops isNameContinue (nameSuffix name) := by
    cases name with
    | none => exact .nil
    | some name => exact .append (by decide) _
  have isName (type : OperationType) : IsNameText type.text := by cases type <;> decide
  obtain ⟨types, names⟩ := (isName type).inj (isName type') (stops name) (stops name') same
  have types := congrArg OperationType.ofText? types
  rw [OperationType.ofText?_text, OperationType.ofText?_text, Option.some.injEq] at types
  refine ⟨types, ?_⟩
  have blank : ((" " : String) : Text) = [space] := by decide
  cases name with
  | none =>
      cases name' with
      | none => rfl
      | some name' => simp [nameSuffix, blank] at names
  | some name =>
      cases name' with
      | none => simp [nameSuffix, blank] at names
      | some name' => rw [List.append_cancel_left names]

theorem place_inj {path path' : ResponsePath} (named : ∀ key ∈ path, IsNameText key)
    (named' : ∀ key ∈ path', IsNameText key) (same : line.place path ++ after = line.place path' ++ after') :
    path = path' ∧ after = after' := by
  have apart (path : ResponsePath) (a b : Text) : ("root" : Text) ++ a ≠ renderPath path ++ b := by
    have root : (("root" : String) : Text) = [0x72, 0x6f, 0x6f, 0x74] := by decide
    have opening : (("\x27" : String) : Text) = [0x27] := by decide
    simp [renderPath, root, opening]
  unfold line.place at same
  split_ifs at same with top top' top'
  · exact ⟨top.trans top'.symm, List.append_cancel_left same⟩
  · exact (apart path' _ _ same).elim
  · exact (apart path _ _ same.symm).elim
  · exact renderPath_inj named named' same

theorem ending_eq (hasParts : Bool) : line.ending hasParts = [] ∨ line.ending hasParts = [0x3a] := by
  cases hasParts with
  | false => exact .inl rfl
  | true => exact .inr (by decide)

theorem enclosure_inj {options options' : List PlanOption} {hasParts hasParts' : Bool}
    (named : ∀ o ∈ options, o.IsNamed) (named' : ∀ o ∈ options', o.IsNamed)
    (same : PlanOption.enclosure options ++ line.ending hasParts = PlanOption.enclosure options' ++ line.ending hasParts') :
    options = options' := by
  have apart (option : PlanOption) (options : List PlanOption) (after : Text) (hasParts : Bool) :
      PlanOption.enclosure (option :: options) ++ after ≠ PlanOption.enclosure [] ++ line.ending hasParts := by
    have opening : ((" (" : String) : Text) = [0x20, 0x28] := by decide
    rw [PlanOption.enclosure_cons, opening]
    obtain none | colon := ending_eq hasParts
    · simp [PlanOption.enclosure, wrap, join, none]
    · simp [PlanOption.enclosure, wrap, join, colon]
  cases options with
  | nil =>
      cases options' with
      | nil => rfl
      | cons option' options' => exact (apart option' options' _ _ same.symm).elim
  | cons option options =>
      cases options' with
      | nil => exact (apart option options _ _ same).elim
      | cons option' options' =>
          simp only [PlanOption.enclosure_cons, List.append_assoc] at same
          exact (PlanOption.enclosed_inj named named' (List.append_cancel_left same)).1

theorem stops_enclosure (options : List PlanOption) (hasParts : Bool) :
    Text.Stops isNameContinue (PlanOption.enclosure options ++ line.ending hasParts) := by
  cases options with
  | nil =>
      cases hasParts with
      | false => exact .nil
      | true => exact .append (by decide) []
  | cons option options =>
      rw [PlanOption.enclosure_cons, List.append_assoc]
      exact .append (by decide) _

theorem stream_inj {id id' : Nat} {path path' : ResponsePath} {count count' : InitialCount}
    {label label' condition condition' : Option Text} {hasParts hasParts' : Bool}
    (named : (stream id path count label condition).IsNamed) (named' : (stream id' path' count' label' condition').IsNamed)
    (same : (stream id path count label condition).details hasParts =
      (stream id' path' count' label' condition').details hasParts') :
    stream id path count label condition = stream id' path' count' label' condition' := by
  have closing : (("):" : String) : Text) = Text.ofString ")" ++ Text.ofString ":" := by decide
  have all {count : InitialCount} {options : List PlanOption} (counted : count.IsNamed) (named : ∀ o ∈ options, o.IsNamed) :
      ∀ o ∈ PlanOption.count count :: options, o.IsNamed := List.forall_mem_cons.2 ⟨counted, named⟩
  obtain ⟨keys, counted, options⟩ := named
  obtain ⟨keys', counted', options'⟩ := named'
  simp only [details, PlanOption.streamOptions_eq, closing, List.append_assoc] at same
  obtain ⟨ids, paths⟩ := Text.run_inj (p := isDigit) (fun _ => Text.isDigit_of_mem_ofNat)
    (fun _ => Text.isDigit_of_mem_ofNat) (.append (by decide) _) (.append (by decide) _) (List.append_cancel_left same)
  obtain ⟨rfl, written⟩ := renderPath_inj keys keys' (List.append_cancel_left paths)
  obtain ⟨given, -⟩ := PlanOption.enclosed_inj (all counted options) (all counted' options')
    (List.append_cancel_left written)
  obtain ⟨first, others⟩ := List.cons.inj given
  obtain rfl := PlanOption.count.inj first
  obtain ⟨rfl, rfl⟩ := PlanOption.ofDefer_inj others
  rw [Text.ofNat_inj ids]

theorem defer_inj {path path' : ResponsePath} {parentType parentType' : Text}
    {label label' condition condition' : Option Text} {hasParts hasParts' : Bool}
    (named : (defer path parentType label condition).IsNamed) (named' : (defer path' parentType' label' condition').IsNamed)
    (same : (defer path parentType label condition).details hasParts =
      (defer path' parentType' label' condition').details hasParts') :
    defer path parentType label condition = defer path' parentType' label' condition' := by
  obtain ⟨keys, onType, options⟩ := named
  obtain ⟨keys', onType', options'⟩ := named'
  simp only [details, List.append_assoc] at same
  obtain ⟨rfl, types⟩ := place_inj keys keys' (List.append_cancel_left same)
  obtain ⟨rfl, given⟩ := onType.inj onType' (stops_enclosure _ hasParts) (stops_enclosure _ hasParts')
    (List.append_cancel_left types)
  obtain ⟨rfl, rfl⟩ := PlanOption.ofDefer_inj (enclosure_inj options options' given)
  rfl

theorem line_inj {h h' : PlanHeading} {hasParts hasParts' : Bool} (named : h.IsNamed) (named' : h'.IsNamed)
    (same : h.line hasParts = h'.line hasParts') : h = h' := by
  rw [line_eq, line_eq] at same
  -- The word that the line begins with tells the kind of the part.
  obtain ⟨titles, same⟩ := h.isNameText_title.inj h'.isNameText_title (h.stops_details hasParts)
    (h'.stops_details hasParts') same
  cases h with
  | operation type name =>
      cases h' with
      | operation type' name' =>
          simp only [details, List.append_assoc] at same
          obtain ⟨rfl, rfl⟩ := operation_inj named named' (List.append_cancel_left same)
          rfl
      | _ => simp only [title] at titles; exact absurd titles (by decide)
  | subscription field =>
      cases h' with
      | subscription field' =>
          simp only [details, List.append_assoc] at same
          rw [(FieldHeading.render_inj named named' (List.append_cancel_left same)).1]
      | _ => simp only [title] at titles; exact absurd titles (by decide)
  | composite field =>
      cases h' with
      | composite field' =>
          simp only [details, List.append_assoc] at same
          rw [(FieldHeading.render_inj named named' (List.append_cancel_left same)).1]
      | _ => simp only [title] at titles; exact absurd titles (by decide)
  | resolver field =>
      cases h' with
      | resolver field' =>
          have same := List.append_cancel_left same
          rw [← List.append_nil field.render, ← List.append_nil field'.render] at same
          rw [(FieldHeading.render_inj named named' same).1]
      | _ => simp only [title] at titles; exact absurd titles (by decide)
  | serial =>
      cases h' with
      | serial => rfl
      | _ => simp only [title] at titles; exact absurd titles (by decide)
  | parallel =>
      cases h' with
      | parallel => rfl
      | _ => simp only [title] at titles; exact absurd titles (by decide)
  | stream =>
      cases h' with
      | stream => exact stream_inj named named' same
      | _ => simp only [title] at titles; exact absurd titles (by decide)
  | defer =>
      cases h' with
      | defer => exact defer_inj named named' same
      | _ => simp only [title] at titles; exact absurd titles (by decide)

end PlanHeading

end QueryPlanner
