import QueryPlanner.Compile
import QueryPlanner.Proofs.Plan.Names

namespace QueryPlanner
open CodeUnit
open Text (IsLine spaces unlines)

theorem renderLines_eq (lines : List Text) : renderLines lines = unlines lines := by
  rw [renderLines, Text.lineFeed_text, unlines]

def Text.indentation (line : Text) : Nat := (line.takeWhile (· == space)).length

theorem Text.isSpace_of_mem_spaces {n : Nat} : ∀ u ∈ spaces n, (u == space) = true := fun _ member =>
  beq_iff_eq.2 (List.eq_of_mem_replicate member)

namespace OutlineEntry

variable {e e' : OutlineEntry} {indent : Nat}

theorem line_eq (indent : Nat) (e : OutlineEntry) : e.line indent = spaces indent ++ e.line 0 := by
  rw [line, line, Nat.zero_add, spaces, List.replicate_add, List.append_assoc]
  rfl

theorem indentation_line (indent : Nat) (e : OutlineEntry) : (e.line indent).indentation = indent + 2 * e.level := by
  rw [Text.indentation, line, Text.takeWhile_append_of_stops Text.isSpace_of_mem_spaces (e.heading.line_stops_space _),
    spaces, List.length_replicate]

theorem isLine_line (indent : Nat) (named : e.heading.IsNamed) : IsLine (e.line indent) := by
  refine Text.isLine_append.2 ⟨fun u member => ?_, PlanHeading.isLine_line _ named⟩
  rw [List.eq_of_mem_replicate member]
  rfl

theorem key_of_line (named : e.heading.IsNamed) (named' : e'.heading.IsNamed) (same : e.line indent = e'.line indent) :
    e.key = e'.key := by
  have levels := congrArg Text.indentation same
  rw [indentation_line, indentation_line] at levels
  have level : e.level = e'.level := by omega
  rw [line, line, level] at same
  exact Prod.ext level (PlanHeading.line_inj named named' (List.append_cancel_left same))

theorem keys_of_lines {entries entries' : List OutlineEntry} (named : ∀ e ∈ entries, e.heading.IsNamed)
    (named' : ∀ e ∈ entries', e.heading.IsNamed) (same : entries.map (·.line indent) = entries'.map (·.line indent)) :
    entries.map (·.key) = entries'.map (·.key) := by
  induction entries generalizing entries' with
  | nil => rw [List.map_eq_nil_iff.1 same.symm]
  | cons e rest ih =>
      cases entries' with
      | nil => cases same
      | cons e' rest' =>
          rw [List.forall_mem_cons] at named named'
          obtain ⟨first, others⟩ := List.cons.inj same
          rw [List.map_cons, List.map_cons, key_of_line named.1 named'.1 first, ih named.2 named'.2 others]

end OutlineEntry

mutual

theorem PlanOutline.IsNamed.entries (level : Nat) : {part : PlanOutline} → part.IsNamed →
    ∀ e ∈ part.entries level, e.heading.IsNamed
  | .node _ _, ⟨heading, parts⟩ => List.forall_mem_cons.2 ⟨heading, areNamed_entries (level + 1) parts⟩

theorem areNamed_entries (level : Nat) : {parts : List PlanOutline} → areNamedOutlines parts →
    ∀ e ∈ outlineEntries level parts, e.heading.IsNamed
  | [], _ => List.forall_mem_nil _
  | _ :: _, ⟨first, others⟩ => List.forall_mem_append.2 ⟨first.entries level, areNamed_entries level others⟩

end

theorem lines_renderLines {entries : List OutlineEntry} (indent : Nat) (filled : entries ≠ [])
    (named : ∀ e ∈ entries, e.heading.IsNamed) :
    (renderLines (entries.map (·.line indent))).lines = entries.map (·.line indent) := by
  rw [renderLines_eq]
  refine Text.lines_unlines (mt List.map_eq_nil_iff.1 filled) fun line member => ?_
  obtain ⟨e, among, rfl⟩ := List.mem_map.1 member
  exact e.isLine_line indent (named e among)

theorem QueryPlan.entries_ne_nil (plan : QueryPlan) : outlineEntries 0 plan.outline ≠ [] := by
  rw [outline, OperationPlan.outline, outlineEntries, PlanOutline.entries]
  exact List.cons_ne_nil _ _

theorem QueryPlan.lines_render {plan : QueryPlan} (named : areNamedOutlines plan.outline) :
    plan.render.lines = (outlineEntries 0 plan.outline).map (·.line 0) := by
  rw [plan.render_eq, lines_renderLines 0 plan.entries_ne_nil (areNamed_entries 0 named)]

theorem QueryPlan.outline_of_render {plan plan' : QueryPlan} (named : areNamedOutlines plan.outline)
    (named' : areNamedOutlines plan'.outline) (same : plan.render = plan'.render) : plan.outline = plan'.outline := by
  have lines := congrArg Text.lines same
  rw [lines_render named, lines_render named'] at lines
  have keys := OutlineEntry.keys_of_lines (areNamed_entries 0 named) (areNamed_entries 0 named') lines
  have ends : EndsAbove 0 [] := by simp [EndsAbove]
  exact (outline_of_keys 0 ends ends plan.outline plan'.outline (by rw [keys])).1

inductive PlanNode where
  | operation (plan : OperationPlan)
  | subscription (field : PlanField) (selections : Option SelectionPlan)
  | selections (plan : SelectionPlan)
  | resolve (plan : ResolvePlan)
  | stream (plan : StreamPlan)
  | defer (plan : DeferPlan)

namespace PlanNode

def ofField : FieldPlan → PlanNode
  | .resolve plan => resolve plan
  | .stream plan => stream plan

def ofSelections (plan : Option SelectionPlan) : List PlanNode := plan.toList.map selections

def children : PlanNode → List PlanNode
  | operation ⟨_, _, .selections plan⟩ => ofSelections plan
  | operation ⟨_, _, .subscription field plan⟩ => [subscription field plan]
  | subscription _ plan => ofSelections plan
  | selections (.parallel nodes) => nodes.map ofField
  | selections (.serial ordered []) => ordered.map ofField
  | selections (.serial ordered (other :: others)) =>
    ordered.map ofField ++ [selections (.parallel (other :: others))]
  | resolve plan => ofSelections plan.selections?
  | stream plan => [resolve plan.node]
  | defer plan => ofSelections plan.node ++ plan.deferred.map defer

def heading : PlanNode → PlanHeading
  | operation plan => .operation plan.type plan.name
  | subscription field _ => .subscription field.heading
  | selections (.parallel _) => .parallel
  | selections (.serial _ _) => .serial
  | resolve (.resolver field) => .resolver field.heading
  | resolve (.composite field _) => .composite field.heading
  | stream plan => .stream plan.id plan.path plan.initialCount plan.label plan.condition
  | defer plan => .defer plan.path plan.parentType plan.label plan.condition

def outline : PlanNode → PlanOutline
  | operation plan => plan.outline
  | subscription field plan => .node (.subscription field.heading) (selectionOutlines plan)
  | selections plan => plan.outline
  | resolve plan => plan.outline
  | stream plan => plan.outline
  | defer plan => plan.outline

def lines (indent : Nat) : PlanNode → List Text
  | operation plan => plan.lines indent
  | subscription field plan => (RootPlan.subscription field plan).lines indent
  | selections plan => plan.lines indent
  | resolve plan => plan.lines indent
  | stream plan => plan.lines indent
  | defer plan => plan.lines indent

def render (indent : Nat) (node : PlanNode) : Text := renderLines (node.lines indent)

theorem lines_eq (indent : Nat) (node : PlanNode) :
    node.lines indent = (node.outline.entries 0).map (·.line indent) := by
  cases node with
  | operation plan => exact plan.lines_eq indent 0
  | subscription field plan =>
      rw [outline, ← outlineEntries_singleton]
      exact (RootPlan.subscription field plan).lines_eq indent 0
  | selections plan => exact plan.lines_eq indent 0
  | resolve plan => exact plan.lines_eq indent 0
  | stream plan => exact plan.lines_eq indent 0
  | defer plan => exact plan.lines_eq indent 0

theorem lines_indent (indent : Nat) (node : PlanNode) : node.lines indent = (node.lines 0).map (spaces indent ++ ·) := by
  rw [lines_eq, lines_eq, List.map_map]
  exact List.map_congr_left fun e _ => e.line_eq indent

theorem map_outline_ofField (nodes : List FieldPlan) : (nodes.map ofField).map outline = fieldOutlines nodes := by
  rw [fieldOutlines_eq_map, List.map_map]
  exact List.map_congr_left fun node _ => by cases node <;> rfl

theorem map_outline_ofSelections (plan : Option SelectionPlan) :
    (ofSelections plan).map outline = selectionOutlines plan := by
  cases plan <;> rfl

theorem outline_eq (node : PlanNode) : node.outline = .node node.heading (node.children.map outline) := by
  match node with
  | operation ⟨_, _, .selections plan⟩ => rw [children, map_outline_ofSelections]; rfl
  | operation ⟨_, _, .subscription field plan⟩ => rfl
  | subscription field plan => rw [children, map_outline_ofSelections]; rfl
  | selections (.parallel nodes) => rw [children, map_outline_ofField]; rfl
  | selections (.serial ordered []) => rw [children, map_outline_ofField]; rfl
  | selections (.serial ordered (other :: others)) =>
      rw [children, List.map_append, map_outline_ofField]
      rfl
  | resolve (.resolver field) => rfl
  | resolve (.composite field plan) =>
      rw [children, map_outline_ofSelections]
      exact ResolvePlan.outline_composite field plan
  | stream ⟨_, _, _, _, _, _⟩ => rfl
  | defer ⟨_, _, _, _, _, _⟩ =>
      rw [children, List.map_append, map_outline_ofSelections, List.map_map]
      exact congrArg _ (congrArg _ (deferOutlines_eq_map _))

end PlanNode

inductive QueryPlan.HasNode (plan : QueryPlan) : PlanNode → Prop
  | operation : HasNode plan (.operation plan.root)
  | deferred {fragment : DeferPlan} : fragment ∈ plan.deferred → HasNode plan (.defer fragment)
  | child {node child : PlanNode} : HasNode plan node → child ∈ node.children → HasNode plan child

theorem QueryPlan.HasNode.isNamed {plan : QueryPlan} {node : PlanNode} (named : areNamedOutlines plan.outline)
    (has : plan.HasNode node) : node.outline.IsNamed := by
  obtain ⟨root, deferred⟩ := named
  induction has with
  | operation => exact root
  | @deferred fragment member =>
      rw [deferOutlines_eq_map, areNamedOutlines_iff] at deferred
      exact deferred _ (List.mem_map_of_mem member)
  | child _ member ih =>
      rw [PlanNode.outline_eq] at ih
      exact areNamedOutlines_iff.1 ih.2 _ (List.mem_map_of_mem member)

theorem PlanNode.lines_render {node : PlanNode} (indent : Nat) (named : node.outline.IsNamed) :
    (node.render indent).lines = node.lines indent := by
  have filled : node.outline.entries 0 ≠ [] := by
    rw [node.outline_eq, PlanOutline.entries]
    exact List.cons_ne_nil _ _
  rw [render, node.lines_eq, lines_renderLines indent filled (named.entries 0)]

def QueryPlan.IsBuiltWith (provider : MetadataProvider) (plan : QueryPlan) : Prop :=
  ∃ source options document wanted operation, Document.parse source options = .ok document ∧
    document.prepare wanted = .ok operation ∧ (operation.plan provider).1 = .ok plan

theorem QueryPlan.IsBuiltWith.isNamed {provider : MetadataProvider} {plan : QueryPlan} (built : plan.IsBuiltWith provider)
    (answers : provider.IsNamed) : areNamedOutlines plan.outline := by
  obtain ⟨source, options, document, wanted, operation, parsed, prepared, planned⟩ := built
  exact operation.plan_isNamed (operation.isWellFormed (Document.isWellFormed_of_parse parsed) prepared) answers planned

theorem Compiled.isBuiltWith {provider : MetadataProvider} {source : Source} {options : ParseOptions}
    {wanted : Option Text} {compiled : Compiled} (returned : (compile provider source options wanted).1 = .ok compiled) :
    compiled.plan.IsBuiltWith provider := by
  unfold compile at returned
  cases parsed : Document.parse source options with
  | error d => simp [parsed, bind, Except.bind] at returned
  | ok document =>
      cases prepared : document.prepare wanted with
      | error d => simp [parsed, prepared, bind, Except.bind] at returned
      | ok operation =>
          simp only [parsed, prepared, bind, Except.bind, pure, Except.pure] at returned
          cases planned : (operation.plan provider).1 with
          | error failure => simp [planned, Except.map] at returned
          | ok plan =>
              simp only [planned, Except.map, Except.ok.injEq] at returned
              exact returned ▸ ⟨source, options, document, wanted, operation, parsed, prepared, planned⟩

/-- The text of a plan tells its outline; it has one line for each part, and is indented line by line. -/
theorem printed_plan_tells_outline {provider provider' : MetadataProvider} {plan plan' : QueryPlan}
    (answers : provider.IsNamed) (answers' : provider'.IsNamed) (built : plan.IsBuiltWith provider)
    (built' : plan'.IsBuiltWith provider') :
    (plan.render = plan'.render → plan.outline = plan'.outline) ∧
      plan.render.lines = (outlineEntries 0 plan.outline).map (·.line 0) ∧
      plan.render.lines.map Text.indentation = (outlineEntries 0 plan.outline).map (2 * ·.level) ∧
      ∀ node, plan.HasNode node → ∀ indent,
        node.render indent = unlines ((node.render 0).lines.map (spaces indent ++ ·)) := by
  have named := built.isNamed answers
  have lines := QueryPlan.lines_render named
  refine ⟨QueryPlan.outline_of_render named (built'.isNamed answers'), lines, ?_, fun node has indent => ?_⟩
  · rw [lines, List.map_map]
    exact List.map_congr_left fun e _ => (e.indentation_line 0).trans (Nat.zero_add _)
  · rw [node.lines_render 0 (has.isNamed named), ← node.lines_indent, PlanNode.render, renderLines_eq]

namespace PlannedAlike

def query (argument : String) : Source where
  body := "query Q($v: Boolean) \x7b items(first: " ++ argument ++ ") @stream(initialCount: 2, label: \"a\\\"b\") \x7b" ++
    " ... on Item @defer(if: $v) \x7b name \x7d \x7d \x7d"

def provider : MetadataProvider := .ofTables [(.query, "Query")]
  [("Query.items", ⟨.list (.ofName "Item") none, false, true, true, true⟩),
    ("Item.name", ⟨.ofName "String", false, true, false, true⟩)]

theorem provider_isNamed : provider.IsNamed := MetadataProvider.isNamed_ofTables (by decide) (by decide)

theorem one_outline : ∃ plan plan' : QueryPlan, provider.IsNamed ∧ plan.IsBuiltWith provider ∧
    plan'.IsBuiltWith provider ∧ plan.render = plan'.render ∧ plan.outline = plan'.outline ∧
      plan.render.lines = (outlineEntries 0 plan.outline).map (·.line 0) ∧
      plan.render.lines.map Text.indentation = (outlineEntries 0 plan.outline).map (2 * ·.level) ∧
      ∀ node, plan.HasNode node → ∀ indent,
        node.render indent = unlines ((node.render 0).lines.map (spaces indent ++ ·)) := by
  have same : (compile provider (query "1") {} none).1.toOption.map (·.plan.render) =
      (compile provider (query "9") {} none).1.toOption.map (·.plan.render) := by decide +kernel
  obtain ⟨compiled, returned⟩ := Run.exists_of_isOk
    (show (compile provider (query "1") {} none).1.isOk = true by decide +kernel)
  obtain ⟨compiled', returned'⟩ := Run.exists_of_isOk
    (show (compile provider (query "9") {} none).1.isOk = true by decide +kernel)
  rw [returned, returned'] at same
  have rendered : compiled.plan.render = compiled'.plan.render := Option.some.inj same
  have built := Compiled.isBuiltWith returned
  have built' := Compiled.isBuiltWith returned'
  obtain ⟨outlines, rest⟩ := printed_plan_tells_outline provider_isNamed provider_isNamed built built'
  exact ⟨compiled.plan, compiled'.plan, provider_isNamed, built, built', rendered, outlines rendered, rest⟩

example : (compile provider (query "1") {} none).1.toOption.map (·.plan.render) =
    some ("Operation: query Q\n  Parallel:\n    Stream #0 \x27items\x27 (initialCount: 2, label: \"a\\\"b\"):\n" ++
      "      Composite \x27items\x27 (Query.items: [Item])\nDefer at \x27items\x27 on Item (if: $v):\n" ++
      "  Parallel:\n    Resolver \x27items.name\x27 (Item.name: String)") := by
  decide +kernel

end PlannedAlike

end QueryPlanner
