import QueryPlanner.Proofs.Plan.Arrangement
import QueryPlanner.Proofs.Plan.DocumentOrder
import QueryPlanner.Proofs.Token.Number
import Mathlib.Data.Nat.Digits.Defs

namespace QueryPlanner

namespace Text

def digitsValue (digits : Text) : Nat := Nat.ofDigits 10 (digits.reverse.map fun d => d.toNat - 0x30)

/-- Any number of digits, and a minus sign in front of them if the value is negated. -/
inductive IsDecimal : Text → Int → Prop
  | plain {digits : Text} : Number.AreDigits digits → IsDecimal digits (digitsValue digits)
  | minus {digits : Text} : Number.AreDigits digits → IsDecimal (0x2d :: digits) (-(digitsValue digits : Int))

theorem natOf_eq (digits : Text) : toInt.natOf digits = digitsValue digits := by
  rw [toInt.natOf, digitsValue, Nat.ofDigits_eq_foldr, List.foldr_map, List.foldr_reverse]
  congr 1
  funext n d
  rw [Nat.add_comm, Nat.mul_comm]
  rfl

theorem IsDecimal.toInt_eq {text : Text} {v : Int} (decimal : text.IsDecimal v) : text.toInt = v := by
  cases decimal with
  | plain areDigits =>
      obtain ⟨u, rest, rfl, digit⟩ := areDigits.cons
      have unsigned : u ≠ 0x2d := by
        rintro rfl
        contradiction
      rw [toInt, natOf_eq]
      exact fun _ same => unsigned (List.cons.inj same).1
  | minus areDigits => rw [toInt, natOf_eq]

end Text

def IsFirstWith {α : Type} (has : α → Prop) (items : List α) (item : α) : Prop :=
  ∃ before after, items = before ++ item :: after ∧ has item ∧ ∀ other ∈ before, ¬ has other

def Directive.Gives (d : Directive) (name : Text) (value : Value) : Prop :=
  ∃ a, IsFirstWith (fun a => a.name.text = name) d.arguments a ∧ a.value = value

inductive TypeRef.IsListType : TypeRef → Prop
  | list {item : TypeRef} {loc : Option Location} : IsListType (.list item loc)
  | nonNull {item : TypeRef} {loc loc' : Option Location} : IsListType (.nonNull (.list item loc) loc')

/-- The directive is the first one that could have the field streamed, and it does. -/
structure PlanField.IsStreamedBy (f : PlanField) (d : Directive) : Prop where
  first : IsFirstWith (fun d => d.name.text = Text.ofString "stream") (f.fieldNodes.flatMap (·.directives)) d
  enabled : ∀ loc, ¬ d.Gives "if" (.boolean false loc)
  streamable : f.metadata.isStreamable = true
  list : f.resultType.IsListType

def PlanField.IsTyped (f : PlanField) : Prop :=
  ∃ first rest, f.fieldNodes = first :: rest ∧ f.metadata.resultType.modifiedBy first.modifier = some f.resultType

structure InitialCount.IsGivenBy (d : Directive) (count : InitialCount) : Prop where
  literal : ∀ (text : Text) (loc : Option Location) (v : Int), d.Gives "initialCount" (.int text loc) →
    text.IsDecimal v → count = .items (min (max v 0) (2 ^ 53 - 1)).toNat
  named : ∀ v, d.Gives "initialCount" (.var v) → count = .var v.name.text
  otherwise : (∀ text loc, ¬ d.Gives "initialCount" (.int text loc)) → (∀ v, ¬ d.Gives "initialCount" (.var v)) →
    count = .items 0

def QueryPlan.fieldPlans (plan : QueryPlan) : List FieldPlan := plan.root.root.allNodes ++ deferredNodes plan.deferred

theorem find?_eq_some_iff_isFirstWith {α : Type} {has : α → Prop} [DecidablePred has] {items : List α} {item : α} :
    items.find? (has ·) = some item ↔ IsFirstWith has items item := by
  simp only [List.find?_eq_some_iff_append, IsFirstWith, decide_eq_true_eq, Bool.not_eq_true', decide_eq_false_iff_not]
  grind

theorem Directive.argument?_eq_some_iff {d : Directive} {name : Text} {value : Value} :
    d.argument? name = some value ↔ d.Gives name value := by
  simp only [argument?, Gives, Option.map_eq_some_iff, ← find?_eq_some_iff_isFirstWith]

theorem TypeRef.isList_iff {type : TypeRef} : type.isList = true ↔ type.IsListType := by
  constructor
  · intro isList
    match type with
    | .list .. => exact .list
    | .nonNull (.list ..) _ => exact .nonNull
  · rintro (_ | _) <;> rfl

namespace Double

theorem unit_of_lt {m : Nat} (small : m < 2 ^ 53) : unit m = 1 := by
  have bits : m.log2 - 52 = 0 := by
    by_cases zero : m = 0
    · subst zero
      rfl
    · have := (Nat.log2_lt zero).2 small
      omega
  rw [unit, bits, Nat.shiftLeft_zero]

theorem round_of_lt {m : Nat} (small : m < 2 ^ 53) : round m = m := by
  unfold round
  simp [unit_of_lt small, Nat.mod_one]

theorem le_round {m : Nat} (great : 2 ^ 53 ≤ m) : 2 ^ 53 ≤ round m := by
  have nonzero : m ≠ 0 := by omega
  have bits : 53 ≤ m.log2 := (Nat.le_log2 nonzero).2 great
  -- All that is left out below is less than the unit, and m holds 53 bits above it.
  have below : 2 ^ 53 ≤ m / unit m * unit m := by
    have leading : 2 ^ 52 ≤ m / unit m := by
      rw [unit, Nat.one_shiftLeft, Nat.le_div_iff_mul_le (Nat.two_pow_pos _), ← Nat.pow_add]
      exact (Nat.le_log2 nonzero).1 (by omega)
    have even : 2 ≤ unit m := by
      rw [unit, Nat.one_shiftLeft]
      exact Nat.pow_le_pow_right Nat.two_pos (by omega : 1 ≤ m.log2 - 52)
    exact Nat.mul_le_mul leading even
  unfold round
  dsimp only
  split_ifs
  · exact below
  · exact below.trans (Nat.mul_le_mul_right _ (Nat.le_succ _))

end Double

namespace InitialCount

theorem clamp_ofInt (n : Int) : clamp (.ofInt n) = (min (max n 0) maxInitialCount).toNat := by
  have power {k : Nat} (bits : 53 ≤ k) : 2 ^ 53 ≤ 1 <<< k := by
    rw [Nat.one_shiftLeft]
    exact Nat.pow_le_pow_right Nat.two_pos bits
  have finite := power (by decide : 53 ≤ 1024)
  unfold Double.ofInt
  generalize 1 <<< 1024 = limit at finite
  by_cases small : n.natAbs < 2 ^ 53
  · have exact : (if n < 0 then -(n.natAbs : Int) else n.natAbs) = n := by omega
    rw [Double.round_of_lt small, if_neg (by omega), exact, clamp]
  · have great := Double.le_round (Nat.not_lt.1 small)
    dsimp only
    split_ifs
    · simp only [clamp, maxInitialCount, decide_eq_true_eq]
      split_ifs <;> omega
    all_goals
      simp only [clamp, maxInitialCount]
      omega

theorem isGivenBy_ofValue (d : Directive) : (ofValue (d.argument? "initialCount")).IsGivenBy d := by
  refine ⟨fun text loc v given decimal => ?_, fun v given => ?_, fun notLiteral notNamed => ?_⟩
  · rw [Directive.argument?_eq_some_iff.2 given, ofValue, Double.ofText, decimal.toInt_eq, clamp_ofInt]
    rfl
  · rw [Directive.argument?_eq_some_iff.2 given, ofValue]
  · unfold ofValue
    split
    · exact absurd (Directive.argument?_eq_some_iff.1 ‹_›) (notNamed _)
    · exact absurd (Directive.argument?_eq_some_iff.1 ‹_›) (notLiteral _ _)
    · rfl

end InitialCount

namespace PlanField

variable {f : PlanField} {d : Directive}

theorem IsStreamedBy.unique {d' : Directive} (asked : f.IsStreamedBy d) (asked' : f.IsStreamedBy d') : d = d' :=
  Option.some.inj ((find?_eq_some_iff_isFirstWith.2 asked.first).symm.trans (find?_eq_some_iff_isFirstWith.2 asked'.first))

theorem isStreamedBy_iff (gathered : f.directives = f.fieldNodes.flatMap (·.directives)) :
    f.IsStreamedBy d ↔ Directive.find? f.directives "stream" = some d ∧
      (d.argument? "if").bind Value.boolean? ≠ some false ∧ f.metadata.isStreamable ∧ f.resultType.isList := by
  have first : Directive.find? f.directives "stream" = some d ↔
      IsFirstWith (fun d => d.name.text = Text.ofString "stream") (f.fieldNodes.flatMap (·.directives)) d := by
    rw [gathered, Directive.find?, find?_eq_some_iff_isFirstWith]
  have enabled : (d.argument? "if").bind Value.boolean? ≠ some false ↔ ∀ loc, ¬ d.Gives "if" (.boolean false loc) := by
    simp only [← Directive.argument?_eq_some_iff]
    cases d.argument? "if" with
    | none => simp
    | some value => cases value <;> simp [Value.boolean?]
  rw [first, enabled, TypeRef.isList_iff]
  constructor
  · rintro ⟨first, enabled, streamable, list⟩
    exact ⟨first, enabled, streamable, list⟩
  · rintro ⟨first, enabled, streamable, list⟩
    exact ⟨first, enabled, streamable, list⟩

theorem streaming_spec (gathered : f.directives = f.fieldNodes.flatMap (·.directives)) :
    (∃ d options, f.IsStreamedBy d ∧ f.streaming = .ok options ∧ options.initialCount.IsGivenBy d) ∨
      (∀ d, ¬ f.IsStreamedBy d) ∧ ∃ reason, f.streaming = .error reason := by
  simp only [isStreamedBy_iff gathered]
  unfold streaming
  cases Directive.find? f.directives "stream" with
  | none => exact .inr ⟨nofun, _, rfl⟩
  | some d =>
      dsimp only
      split_ifs with disabled ignored
      · exact .inr ⟨by rintro _ ⟨⟨⟩, enabled, -⟩; exact enabled disabled, _, rfl⟩
      · exact .inr ⟨by rintro _ ⟨-, -, streamable, list⟩; simp [streamable, list] at ignored, _, rfl⟩
      · refine .inl ⟨d, _, ⟨rfl, disabled, ?_⟩, rfl, InitialCount.isGivenBy_ofValue d⟩
        simpa using ignored

end PlanField

structure FieldPlan.IsDelivered (provider : MetadataProvider) (node : FieldPlan) : Prop where
  described : node.field.IsDescribedBy provider
  typed : node.field.IsTyped
  streamed_iff : (∃ stream, node = .stream stream) ↔ ∃ d, node.field.IsStreamedBy d
  count : ∀ stream d, node = .stream stream → node.field.IsStreamedBy d → stream.initialCount.IsGivenBy d

section
variable {provider : MetadataProvider}

theorem FieldGroup.IsPlannedAs.isDelivered {scope : Scope} {g : FieldGroup} {node : FieldPlan}
    (planned : g.IsPlannedAs provider scope node.field) (id : Nat)
    (made : node = node.field.fieldPlan id node.resolution) : node.IsDelivered provider := by
  have described := planned.isDescribedBy
  obtain ⟨metadata, type, known, modified, field⟩ := planned
  have typed : node.field.IsTyped := ⟨g.first, g.others, by rw [field]; rfl, by rw [field]; exact modified⟩
  have gathered : node.field.directives = node.field.fieldNodes.flatMap (·.directives) := by
    rw [field]
    rfl
  unfold PlanField.fieldPlan at made
  obtain ⟨d, options, asked, streams, given⟩ | ⟨unasked, reason, fails⟩ := PlanField.streaming_spec gathered
  · rw [streams] at made
    refine ⟨described, typed, iff_of_true ⟨_, made⟩ ⟨d, asked⟩, fun stream d' is asked' => ?_⟩
    obtain rfl := FieldPlan.stream.inj (made.symm.trans is)
    exact asked.unique asked' ▸ given
  · rw [fails] at made
    refine ⟨described, typed, iff_of_false ?_ fun ⟨d, asked⟩ => unasked d asked, fun stream d is => ?_⟩
    · rintro ⟨stream, is⟩
      exact nomatch made.symm.trans is
    · exact nomatch made.symm.trans is

theorem ResolvePlan.isDelivered_fieldPlan {scope : Scope} {g : FieldGroup} (resolution : ResolvePlan) (id : Nat)
    (planned : g.IsPlannedAs provider scope resolution.field) :
    (resolution.field.fieldPlan id resolution).IsDelivered provider := by
  refine FieldGroup.IsPlannedAs.isDelivered (PlanField.field_fieldPlan .. ▸ planned) id ?_
  rw [PlanField.field_fieldPlan, PlanField.resolution_fieldPlan]

mutual

theorem SetsCourse.delivered {scope : Scope} {sets : List SelectionSet} {plan : Option SelectionPlan}
    {aside : List DeferredFragment} {s s' : Planning} : SetsCourse provider scope sets plan aside s s' →
      ∀ node ∈ SelectionPlan.allNodesOf plan, node.IsDelivered provider
  | @SetsCourse.intro _ _ _ nodes _ _ _ fields => by
      have delivered := fields.delivered
      rw [SelectionPlan.allNodesOf_eq]
      exact fun node member => delivered node (((SelectionPlan.nodesOf_ofFields nodes).flatMap_right _).mem_iff.1 member)

theorem FieldsCourse.delivered {scope : Scope} {groups : List FieldGroup} {nodes : List FieldPlan}
    {aside : List DeferredFragment} {s s' : Planning} : FieldsCourse provider scope groups nodes aside s s' →
      ∀ node ∈ nodes.flatMap (·.allNodes), node.IsDelivered provider
  | .nil => nofun
  | @FieldsCourse.leaf _ _ _ _ field _ _ _ _ _ planned _ made rest => by
      have others := rest.delivered
      subst made
      rw [List.flatMap_cons, FieldPlan.allNodes_eq, PlanField.resolution_fieldPlan, List.cons_append, List.forall_mem_cons]
      exact ⟨(ResolvePlan.resolver field).isDelivered_fieldPlan _ planned, others⟩
  | @FieldsCourse.composite _ _ _ _ field _ _ selections _ _ _ _ _ planned _ below made rest => by
      have inside := below.delivered
      have others := rest.delivered
      subst made
      rw [List.flatMap_cons, FieldPlan.allNodes_eq, PlanField.resolution_fieldPlan, List.cons_append, List.forall_mem_cons,
        List.forall_mem_append]
      exact ⟨(ResolvePlan.composite field selections).isDelivered_fieldPlan _ planned, inside, others⟩

end

theorem FragmentsCourse.delivered {fragments : List DeferredFragment} {plans : List DeferPlan} {s s' : Planning}
    (course : FragmentsCourse provider fragments plans s s') :
    ∀ node ∈ deferredNodes plans, node.IsDelivered provider := by
  induction course with
  | nil => nofun
  | cons sets _ _ nested rest =>
      rw [deferredNodes, DeferPlan.allNodes_eq, List.forall_mem_append, List.forall_mem_append]
      exact ⟨⟨sets.delivered, nested⟩, rest⟩

theorem RootPlan.Shows.allNodes_subset {plan : Option SelectionPlan} {root : RootPlan} (shows : root.Shows plan) :
    root.allNodes ⊆ SelectionPlan.allNodesOf plan := by
  cases root with
  | selections p =>
      obtain rfl : p = plan := shows
      exact List.Subset.refl _
  | subscription field below =>
      obtain ⟨node, rfl, rfl, rfl⟩ := shows
      intro inner member
      have top : FieldPlan.resolve node ∈ SelectionPlan.nodesOf (SelectionPlan.ofFields [.resolve node]) :=
        (SelectionPlan.nodesOf_ofFields _).mem_iff.2 (List.mem_singleton_self _)
      rw [SelectionPlan.allNodesOf_eq]
      exact List.mem_flatMap.2 ⟨_, top, by rw [FieldPlan.allNodes_eq]; exact List.mem_cons_of_mem _ member⟩

theorem PlanCourse.delivered {operation : PreparedOperation} {rootType : Text} {plan : QueryPlan} {s' : Planning}
    (course : PlanCourse provider operation rootType plan s') :
    ∀ node ∈ plan.fieldPlans, node.IsDelivered provider := by
  obtain ⟨root, top, aside, s₁, s₂, rooted, shows, sets, fragments, -, -⟩ := course
  rw [QueryPlan.fieldPlans, rooted, List.forall_mem_append]
  exact ⟨fun node member => sets.delivered node (shows.allNodes_subset member), fragments.delivered⟩

end

open Run in
theorem Planner.queryPlan_selections {operation : PreparedOperation} {provider : MetadataProvider} {plan : QueryPlan}
    {s s' : Planning} (immediate : operation.type ≠ .subscription)
    (run : queryPlan provider operation s = .ok plan s') : ∃ top, plan.root.root = .selections top := by
  unfold queryPlan at run
  simp only [bind_ok, pure_ok] at run
  obtain ⟨rootType, s₁, -, root, s₂, rooted, -, -, -, -, -, -, -, -, -, -, -, -, rfl, -⟩ := run
  have selected : rootPlan provider operation rootType =
      .selections <$> selectionPlan provider operation.selectionSet.height {} rootType [operation.selectionSet] := by
    unfold rootPlan
    cases type : operation.type with
    | subscription => exact absurd type immediate
    | _ => rfl
  rw [selected] at rooted
  obtain ⟨top, -, rfl⟩ := map_ok.1 rooted
  exact ⟨top, rfl⟩

theorem PreparedOperation.plan_fields {operation : PreparedOperation} {provider : MetadataProvider} {plan : QueryPlan}
    (immediate : operation.type ≠ .subscription) (built : (operation.plan provider).1 = .ok plan) :
    plan.fields = plan.fieldPlans.map (·.field) := by
  obtain ⟨top, selects⟩ : ∃ top, plan.root.root = .selections top := by
    obtain ⟨s, run⟩ := PreparedOperation.plan_ok_iff.1 built
    exact Planner.queryPlan_selections immediate run
  rw [QueryPlan.fields, QueryPlan.fieldPlans, selects, List.map_append, deferredFields_eq_nodes]
  exact congrArg (· ++ _) (SelectionPlan.fieldsOf_eq_nodes top)

/-- Each field of a plan is streamed exactly if its selections, in document order, ask for it and it can be streamed. -/
theorem plan_streams_as_asked {operation : PreparedOperation} {provider : MetadataProvider} {plan : QueryPlan}
    (built : (operation.plan provider).1 = .ok plan) :
    (operation.type ≠ .subscription → plan.fields = plan.fieldPlans.map (·.field)) ∧
      (∀ f ∈ plan.fields, f.fieldNodes.Sublist (operation.selectionSet.fieldsAt f.path)) ∧
        ∀ node ∈ plan.fieldPlans, node.IsDelivered provider := by
  obtain ⟨rootType, s, -, course, -⟩ := operation.plan_course built
  obtain ⟨rootType', -, follows⟩ := operation.plan_onPlan built
  exact ⟨fun immediate => operation.plan_fields immediate built, follows.fields_ordered, course.delivered⟩

namespace CountedStreams

def stream (count : Value) : Directive where
  name := { text := "stream" }
  arguments := [{ name := { text := "initialCount" }, value := count }]

def field (name : String) (counts : List Value) : Selection :=
  .field ⟨none, { text := name }, [], none, counts.map stream, none, none⟩

/--
`{ a @stream(initialCount: -3) b @stream(initialCount: 9007199254740993) c a @stream(initialCount: 5)
  c @stream(initialCount: 99...9) d @stream(initialCount: 1) }`, with 400 nines.
-/
def query : Operation where
  type := .query
  name := none
  variableDefinitions := []
  directives := []
  selectionSet := ⟨[field "a" [.int "-3" none], field "b" [.int "9007199254740993" none], field "c" [],
    field "a" [.int "5" none], field "c" [.int (List.replicate 400 0x39) none], field "d" [.int "1" none]], none⟩

def operation : PreparedOperation := .verbatim { definitions := [.operation query] } ⟨0, query⟩

def provider : MetadataProvider :=
  let items : FieldMetadata := ⟨.list (.ofName "String") none, false, true, true, true⟩
  .ofTables [(.query, "Query")] [("Query.a", items), ("Query.b", items), ("Query.c", items),
    ("Query.d", ⟨.ofName "String", false, true, true, true⟩)]

theorem streams_as_asked : ∃ plan, (operation.plan provider).1 = .ok plan ∧
    (operation.type ≠ .subscription → plan.fields = plan.fieldPlans.map (·.field)) ∧
      (∀ f ∈ plan.fields, f.fieldNodes.Sublist (operation.selectionSet.fieldsAt f.path)) ∧
        ∀ node ∈ plan.fieldPlans, node.IsDelivered provider := by
  obtain ⟨plan, built⟩ := Run.exists_of_isOk (show (operation.plan provider).1.isOk = true by decide +kernel)
  exact ⟨plan, built, plan_streams_as_asked built⟩

example : (operation.plan provider).1.toOption.map (·.streamNodes.map (·.initialCount)) =
    some [.items 0, .items 9007199254740991, .items 9007199254740991] := by
  decide +kernel

end CountedStreams

end QueryPlanner
