import QueryPlanner.Operation.Prepared
import QueryPlanner.Document.Printer
import QueryPlanner.Plan.Failure
import QueryPlanner.Plan.Flattening
import QueryPlanner.Plan.Position
import QueryPlanner.Plan.Streaming

/-!
Planning an operation. The fields of a selection set are planned in the order in which they are first selected, each
followed by what is selected on it; fragments set aside are planned when the part that they were found in is complete.
-/

namespace QueryPlanner

/--
What has been done so far: streams numbered, events and questions put to the provider; and in the part of the plan that
is being built, fragments set aside and streams completed.
-/
structure Planning where
  nextStream : Nat := 0
  log : List Event := []
  lookups : List (Text × Text) := []
  deferred : List DeferredFragment := []
  streams : List (Nat × StreamPlan) := []

abbrev Planner := EStateM PlanFailure Planning

namespace Planner

def report (event : Event) : Planner Unit := modify fun s => { s with log := s.log ++ [event] }

def fail (cause : Cause) (whereabouts : Whereabouts) : Planner α := throw (.reported ⟨cause, whereabouts⟩)

def takeStreamId : Planner Nat := do
  let s ← get
  set { s with nextStream := s.nextStream + 1 }
  return s.nextStream

def lookup (provider : MetadataProvider) (parentType field : Text) : Planner (Option FieldMetadata) := do
  modify fun s => { s with lookups := s.lookups ++ [(parentType, field)] }
  return provider.field? parentType field

/-- Notes what flattening met, up to a spread, which no prepared operation holds. -/
def record (found : List Flattened) : Planner Unit := do
  let before := found.takeWhile (·.spread?.isNone)
  modify fun s => { s with
    log := s.log ++ before.filterMap (·.event?)
    deferred := s.deferred ++ before.filterMap (·.deferred?) }
  match found.findSome? (·.spread?) with
  | some name => throw (.broken (.spreadLeft name))
  | none => return

def collect (position : Position) (parentType : Text) (sets : List SelectionSet) : Planner (List FieldGroup) := do
  let scope : Scope := ⟨position.responsePath, position.isDeferrable, parentType⟩
  let found := sets.flatMap (·.flatten scope none)
  record found
  return FieldGroup.ofFields parentType (found.filterMap (·.field?))

def metadata (provider : MetadataProvider) (group : FieldGroup) (path : ResponsePath) : Planner FieldMetadata := do
  if group.fieldName = FieldMetadata.typenameField then return FieldMetadata.typename
  match ← lookup provider group.parentType group.fieldName with
  | some metadata => return metadata
  | none =>
    fail (.unknownField group.parentType group.fieldName) ((Whereabouts.ofLocation? group.first.loc).withPath path)

def modifierMessage (modifier : Option Modifier) (declared : TypeRef) (field : Text) : Text :=
  "Nullability modifier \"" ++ renderElement modifier ++ "\" does not match the list depth of type \"" ++
    declared.render ++ "\" of field \"" ++ field ++ "\"."

def resultType (group : FieldGroup) (declared : TypeRef) (path : ResponsePath) : Planner TypeRef :=
  match declared.modifiedBy group.first.modifier, group.first.modifier with
  | some type, _ => return type
  | none, none => throw (.broken .modifierMissing)
  | none, some modifier =>
    let field := MetadataProvider.key group.parentType group.fieldName
    fail (.nullabilityModifier (modifierMessage modifier declared field))
      ((Whereabouts.ofLocation? modifier.loc).withPath path)

def planField (provider : MetadataProvider) (position : Position) (group : FieldGroup) : Planner PlanField := do
  let path := position.responsePath ++ [group.responseKey]
  let metadata ← metadata provider group path
  let resultType ← resultType group metadata.resultType path
  return {
    responseKey := group.responseKey
    fieldName := group.fieldName
    parentType := group.parentType
    typeCondition := group.typeCondition
    path
    fieldNodes := group.fieldNodes
    arguments := group.first.arguments
    directives := group.fieldNodes.flatMap (·.directives)
    resultType
    metadata }

def subscriptionName (name : Option Text) : Text :=
  match name with
  | none => "Anonymous Subscription"
  | some name => "Subscription \"" ++ name ++ "\""

def failSubscription (operation : PreparedOperation) (problem : Text) (whereabouts : Whereabouts) : Planner α :=
  fail (.subscriptionSelection (subscriptionName operation.name ++ " " ++ problem)) whereabouts

def rootType (provider : MetadataProvider) (operation : PreparedOperation) : Planner Text :=
  match provider.rootType? operation.type with
  | some type => return type
  | none =>
    let type := operation.type.text
    fail (.unknownType type ("Schema is not configured to execute " ++ type ++ " operation."))
      (.ofLocation? operation.operation.definition.loc)

/-- The streams with one more; one of the same number would give way to it. -/
def putStream (streams : List (Nat × StreamPlan)) (entry : Nat × StreamPlan) : List (Nat × StreamPlan) :=
  if streams.any (·.1 = entry.1) then streams.map fun other => if other.1 = entry.1 then entry else other
  else streams ++ [entry]

def orderStreams (streams : List (Nat × StreamPlan)) : List (Nat × StreamPlan) :=
  streams.mergeSort fun a b => a.1 ≤ b.1

end Planner

abbrev Builder := StateT Position Planner

namespace Builder
open Planner

def enter (field : PlanField) : Builder Unit := modify (·.push field)

def leave : Builder Unit := do
  match (← get).pop with
  | .ok position => set position
  | .error invariant => throw (.broken invariant)

/-- Builds a part of its own for the object at a path; its streams are then among those of the part around it. -/
def inBranch (path : ResponsePath) (build : Builder α) : Builder α := do
  let position ← get
  let outer ← getThe Planning
  set (Position.branch path)
  modifyThe Planning fun s => { s with deferred := [], streams := [] }
  let result ← build
  set position
  modifyThe Planning fun s => { s with deferred := outer.deferred, streams := s.streams.foldl putStream outer.streams }
  return result

def setAside : Builder (List DeferredFragment) := return (← getThe Planning).deferred

abbrev Below := Text → List SelectionSet → Builder (Option SelectionPlan)

def resolvePlan (below : Below) (field : PlanField) : Builder ResolvePlan := do
  match field.fieldNodes.filterMap (·.selectionSet) with
  | [] => return .resolver field
  | sets =>
    enter field
    let selections ← below field.resultType.namedType sets
    leave
    return .composite field selections

def fieldPlan (provider : MetadataProvider) (below : Below) (group : FieldGroup) : Builder FieldPlan := do
  let field ← planField provider (← get) group
  match field.streaming with
  | .error reason =>
    (reason.forM report : Planner Unit)
    return .resolve (← resolvePlan below field)
  | .ok options =>
    -- Streams below the field are numbered behind its own, but completed before it.
    let id ← takeStreamId
    let node ← resolvePlan below field
    let stream : StreamPlan := ⟨id, options.label, field.path, options.initialCount, options.condition, node⟩
    modifyThe Planning fun s => { s with streams := putStream s.streams (id, stream) }
    report (.fieldStreamed field.path id)
    return .stream stream

def selectionPlan (provider : MetadataProvider) : Nat → Below
  | 0, _, _ => return none
  | height + 1, parentType, sets => do
    let groups ← collect (← get) parentType sets
    return SelectionPlan.ofFields (← groups.mapM (fieldPlan provider (selectionPlan provider height)))

/-- Plans a fragment set aside, and those set aside in it; the first number bounds how deeply they are nested. -/
def deferPlan (provider : MetadataProvider) : Nat → DeferredFragment → Builder DeferPlan
  | 0, f => return ⟨f.label, f.path, f.parentType, f.condition, none, []⟩
  | depth + 1, f => inBranch f.path do
    let node ← selectionPlan provider f.selectionSet.height f.parentType [f.selectionSet]
    let nested ← setAside
    return ⟨f.label, f.path, f.parentType, f.condition, node, ← nested.mapM (deferPlan provider depth)⟩

/-- A subscription selects one field at its top, at once and as a whole. -/
def subscriptionPlan (provider : MetadataProvider) (operation : PreparedOperation) (rootType : Text) :
    Builder RootPlan := do
  let set := operation.selectionSet
  let groups ← collect (← get) rootType [set]
  if let aside :: _ := ← setAside then
    failSubscription operation "must not defer its top level field." (.ofLocation? aside.selectionSet.loc)
  match groups with
  | [group] =>
    match ← fieldPlan provider (selectionPlan provider set.height) group with
    | .resolve plan => return .subscription plan.field plan.selections?
    | .stream plan =>
      failSubscription operation "must not stream its top level field."
        ((Whereabouts.ofLocation? group.first.loc).withPath plan.path)
  | _ => failSubscription operation "must select only one top level field." (.ofLocation? set.loc)

def rootPlan (provider : MetadataProvider) (operation : PreparedOperation) (rootType : Text) : Builder RootPlan :=
  match operation.type with
  | .subscription => subscriptionPlan provider operation rootType
  | _ =>
    let set := operation.selectionSet
    .selections <$> selectionPlan provider set.height rootType [set]

def queryPlan (provider : MetadataProvider) (operation : PreparedOperation) : Builder QueryPlan := do
  let rootType ← rootType provider operation
  let root ← rootPlan provider operation rootType
  let aside ← setAside
  let deferred ← aside.mapM (deferPlan provider operation.selectionSet.height)
  let streams := orderStreams (← getThe Planning).streams
  report (.planBuilt operation.name operation.type (countDeferred deferred) streams.length)
  return { root := ⟨operation.type, operation.name, root⟩, streams, deferred }

end Builder

namespace PreparedOperation

def plan (operation : PreparedOperation) (provider : MetadataProvider) : Except PlanFailure QueryPlan × Planning :=
  match Builder.queryPlan provider operation {} {} with
  | .ok (plan, _) planning => (.ok plan, planning)
  | .error failure planning => (.error failure, planning)

end PreparedOperation

end QueryPlanner
