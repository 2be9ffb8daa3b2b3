import QueryPlanner.Plan.Printer
import QueryPlanner.Proofs.Document.Bare

namespace QueryPlanner
open Text (spaces wrap)

structure FieldHeading where
  path : ResponsePath
  parentType : Text
  fieldName : Text
  resultType : TypeRef

inductive PlanHeading where
  | operation (type : OperationType) (name : Option Text)
  | subscription (field : FieldHeading)
  | serial
  | parallel
  | resolver (field : FieldHeading)
  | composite (field : FieldHeading)
  | stream (id : Nat) (path : ResponsePath) (initialCount : InitialCount) (label condition : Option Text)
  | defer (path : ResponsePath) (parentType : Text) (label condition : Option Text)

inductive PlanOutline where
  | node (heading : PlanHeading) (parts : List PlanOutline)

def PlanField.heading (f : PlanField) : FieldHeading := ⟨f.path, f.parentType, f.fieldName, f.resultType.bare⟩

mutual

def ResolvePlan.outline : ResolvePlan → PlanOutline
  | .resolver field => .node (.resolver field.heading) []
  | .composite field none => .node (.composite field.heading) []
  | .composite field (some plan) => .node (.composite field.heading) [plan.outline]

def StreamPlan.outline : StreamPlan → PlanOutline
  | ⟨id, label, path, initialCount, condition, node⟩ =>
    .node (.stream id path initialCount label condition) [node.outline]

def FieldPlan.outline : FieldPlan → PlanOutline
  | .resolve plan => plan.outline
  | .stream plan => plan.outline

def SelectionPlan.outline : SelectionPlan → PlanOutline
  | .parallel nodes => .node .parallel (fieldOutlines nodes)
  | .serial ordered [] => .node .serial (fieldOutlines ordered)
  | .serial ordered (other :: others) =>
    .node .serial (fieldOutlines ordered ++ [.node .parallel (other.outline :: fieldOutlines others)])

def fieldOutlines : List FieldPlan → List PlanOutline
  | [] => []
  | plan :: rest => plan.outline :: fieldOutlines rest

end

theorem fieldOutlines_eq_map (nodes : List FieldPlan) : fieldOutlines nodes = nodes.map (·.outline) := by
  induction nodes with
  | nil => rfl
  | cons node rest ih => rw [fieldOutlines, ih, List.map_cons]

def selectionOutlines : Option SelectionPlan → List PlanOutline
  | none => []
  | some plan => [plan.outline]

theorem ResolvePlan.outline_composite (field : PlanField) (selections : Option SelectionPlan) :
    (composite field selections).outline = .node (.composite field.heading) (selectionOutlines selections) := by
  cases selections <;> rfl

mutual

def DeferPlan.outline : DeferPlan → PlanOutline
  | ⟨label, path, parentType, condition, node, deferred⟩ =>
    .node (.defer path parentType label condition) (selectionOutlines node ++ deferOutlines deferred)

def deferOutlines : List DeferPlan → List PlanOutline
  | [] => []
  | plan :: rest => plan.outline :: deferOutlines rest

end

theorem deferOutlines_eq_map (plans : List DeferPlan) : deferOutlines plans = plans.map (·.outline) := by
  induction plans with
  | nil => rfl
  | cons plan rest ih => rw [deferOutlines, ih, List.map_cons]

def RootPlan.outlines : RootPlan → List PlanOutline
  | selections plan => selectionOutlines plan
  | subscription field plan => [.node (.subscription field.heading) (selectionOutlines plan)]

def OperationPlan.outline (plan : OperationPlan) : PlanOutline := .node (.operation plan.type plan.name) plan.root.outlines

/-- The operation and, beside it, the deferred fragments, with all that is below them. -/
def QueryPlan.outline (plan : QueryPlan) : List PlanOutline := plan.root.outline :: deferOutlines plan.deferred

def FieldHeading.render (f : FieldHeading) : Text :=
  renderPath f.path ++ " (" ++ f.parentType ++ "." ++ f.fieldName ++ ": " ++ f.resultType.render ++ ")"

def streamOptions (initialCount : InitialCount) (label condition : Option Text) : Text :=
  renderOptions [("initialCount", some initialCount.render), ("label", label.map Quoted.label),
    ("if", condition.map renderVariable)]

def deferOptions (label condition : Option Text) : Text :=
  renderOptions [("label", label.map Quoted.label), ("if", condition.map renderVariable)]

/-- What is written of a part, which may end differently if there are parts below it. -/
def PlanHeading.line (hasParts : Bool) : PlanHeading → Text
  | operation type none => "Operation: " ++ type.text
  | operation type (some name) => "Operation: " ++ type.text ++ " " ++ name
  | subscription field => "Subscription " ++ field.render ++ ending
  | serial => "Serial:"
  | parallel => "Parallel:"
  | resolver field => "Resolver " ++ field.render
  | composite field => "Composite " ++ field.render ++ ending
  | stream id path initialCount label condition =>
    "Stream #" ++ Text.ofNat id ++ " " ++ renderPath path ++ " (" ++ streamOptions initialCount label condition ++ "):"
  | defer path parentType label condition =>
    "Defer at " ++ place path ++ " on " ++ parentType ++ wrap " (" (deferOptions label condition) ")" ++ ending
where
  ending : Text := if hasParts then ":" else []
  place (path : ResponsePath) : Text := if path = [] then "root" else renderPath path

structure OutlineEntry where
  level : Nat
  heading : PlanHeading
  hasParts : Bool

def OutlineEntry.line (indent : Nat) (e : OutlineEntry) : Text :=
  spaces (indent + 2 * e.level) ++ e.heading.line e.hasParts

mutual

def PlanOutline.entries (level : Nat) : PlanOutline → List OutlineEntry
  | .node heading parts => ⟨level, heading, !parts.isEmpty⟩ :: outlineEntries (level + 1) parts

def outlineEntries (level : Nat) : List PlanOutline → List OutlineEntry
  | [] => []
  | part :: rest => part.entries level ++ outlineEntries level rest

end

theorem outlineEntries_append (level : Nat) (parts rest : List PlanOutline) :
    outlineEntries level (parts ++ rest) = outlineEntries level parts ++ outlineEntries level rest := by
  induction parts with
  | nil => rfl
  | cons part parts ih => rw [List.cons_append, outlineEntries, outlineEntries, ih, List.append_assoc]

theorem outlineEntries_singleton (level : Nat) (part : PlanOutline) : outlineEntries level [part] = part.entries level := by
  rw [outlineEntries, outlineEntries, List.append_nil]

theorem PlanField.render_heading (f : PlanField) : f.heading.render = f.render := by
  rw [FieldHeading.render, PlanField.render, heading, TypeRef.render_bare]

section
variable (indent : Nat)

mutual

theorem ResolvePlan.lines_eq (level : Nat) : (plan : ResolvePlan) →
    plan.lines (indent + 2 * level) = (plan.outline.entries level).map (·.line indent)
  | .resolver field => by
      simp [ResolvePlan.lines, ResolvePlan.outline, PlanOutline.entries, outlineEntries, OutlineEntry.line,
        PlanHeading.line, field.render_heading]
  | .composite field none => by
      simp [ResolvePlan.lines, ResolvePlan.outline, PlanOutline.entries, outlineEntries, OutlineEntry.line,
        PlanHeading.line, PlanHeading.line.ending, field.render_heading]
  | .composite field (some plan) => by
      have below := plan.lines_eq (level + 1)
      rw [ResolvePlan.lines, ResolvePlan.outline, PlanOutline.entries, outlineEntries_singleton, List.map_cons, ← below]
      simp [OutlineEntry.line, PlanHeading.line, PlanHeading.line.ending, field.render_heading, Nat.mul_add, Nat.add_assoc]

theorem StreamPlan.lines_eq (level : Nat) : (plan : StreamPlan) →
    plan.lines (indent + 2 * level) = (plan.outline.entries level).map (·.line indent)
  | ⟨id, label, path, initialCount, condition, node⟩ => by
      have below := node.lines_eq (level + 1)
      rw [StreamPlan.lines, StreamPlan.outline, PlanOutline.entries, outlineEntries_singleton, List.map_cons, ← below]
      simp [OutlineEntry.line, PlanHeading.line, streamOptions, Nat.mul_add, Nat.add_assoc]

theorem FieldPlan.lines_eq (level : Nat) : (plan : FieldPlan) →
    plan.lines (indent + 2 * level) = (plan.outline.entries level).map (·.line indent)
  | .resolve plan => plan.lines_eq level
  | .stream plan => plan.lines_eq level

theorem SelectionPlan.lines_eq (level : Nat) : (plan : SelectionPlan) →
    plan.lines (indent + 2 * level) = (plan.outline.entries level).map (·.line indent)
  | .parallel nodes => by
      have below := fieldPlanLines_eq (level + 1) nodes
      rw [SelectionPlan.lines, SelectionPlan.outline, PlanOutline.entries, List.map_cons, ← below]
      rfl
  | .serial ordered [] => by
      have below := fieldPlanLines_eq (level + 1) ordered
      rw [SelectionPlan.lines, SelectionPlan.outline, PlanOutline.entries, List.map_cons, ← below]
      rfl
  | .serial ordered (other :: others) => by
      have first := fieldPlanLines_eq (level + 1) ordered
      have next := other.lines_eq (level + 2)
      have last := fieldPlanLines_eq (level + 2) others
      rw [SelectionPlan.lines, SelectionPlan.outline, PlanOutline.entries, List.map_cons, outlineEntries_append,
        List.map_append, ← first, outlineEntries_singleton, PlanOutline.entries, List.map_cons, outlineEntries,
        List.map_append, ← next, ← last]
      rfl

theorem fieldPlanLines_eq (level : Nat) : (plans : List FieldPlan) →
    fieldPlanLines (indent + 2 * level) plans = (outlineEntries level (fieldOutlines plans)).map (·.line indent)
  | [] => rfl
  | plan :: rest => by
      rw [fieldPlanLines, fieldOutlines, outlineEntries, List.map_append, plan.lines_eq level,
        fieldPlanLines_eq level rest]

end

theorem selectionLines_eq (level : Nat) : (plan : Option SelectionPlan) →
    selectionLines (indent + 2 * level) plan = (outlineEntries level (selectionOutlines plan)).map (·.line indent)
  | none => rfl
  | some plan => by rw [selectionLines, selectionOutlines, outlineEntries_singleton, plan.lines_eq indent]

theorem isEmpty_selectionOutlines : (plan : Option SelectionPlan) → (selectionOutlines plan).isEmpty = plan.isNone
  | none => rfl
  | some _ => rfl

mutual

theorem DeferPlan.lines_eq (level : Nat) : (plan : DeferPlan) →
    plan.lines (indent + 2 * level) = (plan.outline.entries level).map (·.line indent)
  | ⟨label, path, parentType, condition, node, deferred⟩ => by
      have below := selectionLines_eq indent (level + 1) node
      have nested := deferPlanLines_eq (level + 1) deferred
      have hasParts : (!(selectionOutlines node ++ deferOutlines deferred).isEmpty) =
          (node.isSome || !deferred.isEmpty) := by
        cases node <;> cases deferred <;> rfl
      rw [DeferPlan.lines, DeferPlan.outline, PlanOutline.entries, List.map_cons, outlineEntries_append,
        List.map_append, ← below, ← nested, hasParts]
      simp [OutlineEntry.line, PlanHeading.line, PlanHeading.line.ending, PlanHeading.line.place, deferOptions,
        Nat.mul_add, Nat.add_assoc]

theorem deferPlanLines_eq (level : Nat) : (plans : List DeferPlan) →
    deferPlanLines (indent + 2 * level) plans = (outlineEntries level (deferOutlines plans)).map (·.line indent)
  | [] => rfl
  | plan :: rest => by
      rw [deferPlanLines, deferOutlines, outlineEntries, List.map_append, plan.lines_eq level,
        deferPlanLines_eq level rest]

end

theorem RootPlan.lines_eq (level : Nat) (plan : RootPlan) :
    plan.lines (indent + 2 * level) = (outlineEntries level plan.outlines).map (·.line indent) := by
  cases plan with
  | selections plan => exact selectionLines_eq indent level plan
  | subscription field plan =>
      have below := selectionLines_eq indent (level + 1) plan
      rw [RootPlan.lines, RootPlan.outlines, outlineEntries_singleton, PlanOutline.entries, List.map_cons, ← below,
        isEmpty_selectionOutlines]
      simp [OutlineEntry.line, PlanHeading.line, PlanHeading.line.ending, field.render_heading, Nat.mul_add,
        Nat.add_assoc]

theorem OperationPlan.lines_eq (level : Nat) (plan : OperationPlan) :
    plan.lines (indent + 2 * level) = (plan.outline.entries level).map (·.line indent) := by
  obtain ⟨type, name, root⟩ := plan
  have below := root.lines_eq indent (level + 1)
  rw [OperationPlan.outline, PlanOutline.entries, List.map_cons, ← below]
  cases name <;> simp [OperationPlan.lines, OutlineEntry.line, PlanHeading.line, Nat.mul_add, Nat.add_assoc]

end

theorem QueryPlan.render_eq (plan : QueryPlan) :
    plan.render = renderLines ((outlineEntries 0 plan.outline).map (·.line 0)) := by
  rw [QueryPlan.render, QueryPlan.outline, outlineEntries, List.map_append, ← plan.root.lines_eq 0 0,
    ← deferPlanLines_eq 0 0]

def OutlineEntry.key (e : OutlineEntry) : Nat × PlanHeading := (e.level, e.heading)

def EndsAbove (level : Nat) (keys : List (Nat × PlanHeading)) : Prop := ∀ key ∈ keys.head?, key.1 < level

theorem EndsAbove.behind {level : Nat} {keys : List (Nat × PlanHeading)} (ends : EndsAbove level keys) :
    (parts : List PlanOutline) → EndsAbove (level + 1) ((outlineEntries level parts).map (·.key) ++ keys)
  | [] => fun key first => Nat.lt_succ_of_lt (ends key first)
  | .node heading parts :: rest => fun key first => by
      obtain rfl := Option.some.inj first
      exact Nat.lt_succ_self level

theorem keys_cons (level : Nat) (heading : PlanHeading) (parts rest : List PlanOutline) (keys : List (Nat × PlanHeading)) :
    (outlineEntries level (.node heading parts :: rest)).map (·.key) ++ keys = (level, heading) ::
      ((outlineEntries (level + 1) parts).map (·.key) ++ ((outlineEntries level rest).map (·.key) ++ keys)) := by
  rw [outlineEntries, PlanOutline.entries, List.map_append, List.map_cons, List.append_assoc, List.cons_append]
  rfl

theorem outline_of_keys (level : Nat) {keys keys' : List (Nat × PlanHeading)} (ends : EndsAbove level keys)
    (ends' : EndsAbove level keys') : (parts parts' : List PlanOutline) →
    (outlineEntries level parts).map (·.key) ++ keys = (outlineEntries level parts').map (·.key) ++ keys' →
      parts = parts' ∧ keys = keys'
  | [], [], same => ⟨rfl, same⟩
  | [], .node heading parts :: rest, same => by
      rw [keys_cons] at same
      have := ends (level, heading) (by rw [show keys = _ from same]; rfl)
      exact absurd this (Nat.lt_irrefl level)
  | .node heading parts :: rest, [], same => by
      rw [keys_cons] at same
      have := ends' (level, heading) (by rw [show keys' = _ from same.symm]; rfl)
      exact absurd this (Nat.lt_irrefl level)
  | .node heading parts :: rest, .node heading' parts' :: rest', same => by
      rw [keys_cons, keys_cons, List.cons.injEq] at same
      obtain ⟨head, below⟩ := same
      -- The parts below end where a key of this level or of one above it follows, which the rest and `keys` begin with.
      obtain ⟨rfl, behind⟩ := outline_of_keys (level + 1) (ends.behind rest) (ends'.behind rest') parts parts' below
      obtain ⟨rfl, after⟩ := outline_of_keys level ends ends' rest rest' behind
      exact ⟨by rw [(Prod.mk.inj head).2], after⟩

end QueryPlanner
