import QueryPlanner.Proofs.Plan.PlannedFields

namespace QueryPlanner

mutual

def ResolvePlan.nodesBelow : ResolvePlan → List FieldPlan
  | .resolver _ => []
  | .composite _ none => []
  | .composite _ (some plan) => plan.allNodes

def FieldPlan.allNodes : FieldPlan → List FieldPlan
  | .resolve plan => .resolve plan :: plan.nodesBelow
  | .stream ⟨id, label, path, initialCount, condition, node⟩ =>
    .stream ⟨id, label, path, initialCount, condition, node⟩ :: node.nodesBelow

def SelectionPlan.allNodes : SelectionPlan → List FieldPlan
  | .parallel nodes => allNodesIn nodes
  | .serial ordered others => allNodesIn ordered ++ allNodesIn others

def allNodesIn : List FieldPlan → List FieldPlan
  | [] => []
  | node :: rest => node.allNodes ++ allNodesIn rest

end

def SelectionPlan.allNodesOf (plan : Option SelectionPlan) : List FieldPlan := plan.elim [] allNodes

mutual

def DeferPlan.allNodes : DeferPlan → List FieldPlan
  | ⟨_, _, _, _, node, deferred⟩ => SelectionPlan.allNodesOf node ++ deferredNodes deferred

def deferredNodes : List DeferPlan → List FieldPlan
  | [] => []
  | plan :: rest => plan.allNodes ++ deferredNodes rest

end

def RootPlan.allNodes : RootPlan → List FieldPlan
  | selections plan => SelectionPlan.allNodesOf plan
  | subscription _ below => SelectionPlan.allNodesOf below

def FieldPlan.stream? : FieldPlan → Option StreamPlan
  | resolve _ => none
  | stream plan => some plan

def streamsAmong (nodes : List FieldPlan) : List StreamPlan := nodes.filterMap (·.stream?)

def QueryPlan.streamNodes (plan : QueryPlan) : List StreamPlan :=
  streamsAmong (plan.root.root.allNodes ++ deferredNodes plan.deferred)

theorem FieldPlan.allNodes_eq (node : FieldPlan) :
    node.allNodes = node :: SelectionPlan.allNodesOf node.resolution.selections? := by
  match node with
  | .resolve (.resolver _) | .resolve (.composite _ none) | .resolve (.composite _ (some _)) => rfl
  | .stream ⟨_, _, _, _, _, .resolver _⟩ | .stream ⟨_, _, _, _, _, .composite _ none⟩
  | .stream ⟨_, _, _, _, _, .composite _ (some _)⟩ => rfl

theorem allNodesIn_eq_flatMap (nodes : List FieldPlan) : allNodesIn nodes = nodes.flatMap (·.allNodes) := by
  induction nodes with
  | nil => rfl
  | cons node rest ih => rw [allNodesIn, ih, List.flatMap_cons]

theorem SelectionPlan.allNodesOf_eq (plan : Option SelectionPlan) :
    allNodesOf plan = (nodesOf plan).flatMap (·.allNodes) := by
  match plan with
  | none => rfl
  | some (.parallel nodes) => exact allNodesIn_eq_flatMap nodes
  | some (.serial ordered others) =>
      change allNodesIn ordered ++ allNodesIn others = (ordered ++ others).flatMap (·.allNodes)
      rw [allNodesIn_eq_flatMap, allNodesIn_eq_flatMap, List.flatMap_append]

theorem DeferPlan.allNodes_eq (plan : DeferPlan) :
    plan.allNodes = SelectionPlan.allNodesOf plan.node ++ deferredNodes plan.deferred := by
  cases plan
  rfl

mutual

theorem ResolvePlan.fields_eq_nodes : (plan : ResolvePlan) →
    plan.fields = plan.field :: plan.nodesBelow.map (·.field)
  | .resolver _ | .composite _ none => rfl
  | .composite field (some plan) => congrArg (field :: ·) plan.fields_eq_nodes

theorem FieldPlan.fields_eq_nodes : (node : FieldPlan) → node.fields = node.allNodes.map (·.field)
  | .resolve plan => plan.fields_eq_nodes
  | .stream ⟨_, _, _, _, _, node⟩ => node.fields_eq_nodes

theorem SelectionPlan.fields_eq_nodes : (plan : SelectionPlan) → plan.fields = plan.allNodes.map (·.field)
  | .parallel nodes => fieldsIn_eq_nodes nodes
  | .serial ordered others => by
      rw [SelectionPlan.fields, SelectionPlan.allNodes, List.map_append, fieldsIn_eq_nodes ordered,
        fieldsIn_eq_nodes others]

theorem fieldsIn_eq_nodes : (nodes : List FieldPlan) → fieldsIn nodes = (allNodesIn nodes).map (·.field)
  | [] => rfl
  | node :: rest => by rw [fieldsIn, allNodesIn, List.map_append, node.fields_eq_nodes, fieldsIn_eq_nodes rest]

end

theorem SelectionPlan.fieldsOf_eq_nodes (plan : Option SelectionPlan) :
    fieldsOf plan = (allNodesOf plan).map (·.field) := by
  cases plan with
  | none => rfl
  | some plan => exact plan.fields_eq_nodes

mutual

theorem DeferPlan.fields_eq_nodes : (plan : DeferPlan) → plan.fields = plan.allNodes.map (·.field)
  | ⟨_, _, _, _, node, deferred⟩ => by
      rw [DeferPlan.fields, DeferPlan.allNodes, List.map_append, SelectionPlan.fieldsOf_eq_nodes,
        deferredFields_eq_nodes deferred]

theorem deferredFields_eq_nodes : (plans : List DeferPlan) → deferredFields plans = (deferredNodes plans).map (·.field)
  | [] => rfl
  | plan :: rest => by
      rw [deferredFields, deferredNodes, List.map_append, plan.fields_eq_nodes, deferredFields_eq_nodes rest]

end

theorem RootPlan.Shows.streams_eq {plan : Option SelectionPlan} {root : RootPlan} (shows : root.Shows plan) :
    streamsAmong root.allNodes = streamsAmong (SelectionPlan.allNodesOf plan) := by
  cases root with
  | selections p => exact congrArg (streamsAmong <| SelectionPlan.allNodesOf ·) shows
  | subscription field below =>
      obtain ⟨node, rfl, rfl, rfl⟩ := shows
      have single : SelectionPlan.nodesOf (SelectionPlan.ofFields [.resolve node]) = [.resolve node] :=
        List.perm_singleton.1 (SelectionPlan.nodesOf_ofFields _)
      rw [SelectionPlan.allNodesOf_eq (SelectionPlan.ofFields _), single, List.flatMap_singleton,
        FieldPlan.allNodes_eq]
      rfl

theorem streamsAmong_append (nodes nodes' : List FieldPlan) :
    streamsAmong (nodes ++ nodes') = streamsAmong nodes ++ streamsAmong nodes' := List.filterMap_append

end QueryPlanner
