import QueryPlanner.Proofs.Plan.Regrouping

namespace QueryPlanner

def relocated : SetsRelation := fun _ sets sets' => sets.map SelectionSet.bare = sets'.map SelectionSet.bare

def RelocatedNodes : NodesRelation := fun fields fields' => fields.map Field.bare = fields'.map Field.bare

section
variable {scope : Scope} {sets sets' : List SelectionSet}

theorem found_of_relocated (alike : relocated scope sets sets') :
    (scope.found sets).map Flattened.bare = (scope.found sets').map Flattened.bare := by
  rw [← scope.found_bare, ← scope.found_bare, alike]

theorem filterMap_relocated {α : Type} {select : Flattened → Option α} {bare : α → α}
    (commutes : ∀ x : Flattened, select x.bare = (select x).map bare) (alike : relocated scope sets sets') :
    ((scope.found sets).filterMap select).map bare = ((scope.found sets').filterMap select).map bare := by
  have selected (found : List Flattened) :
      (found.filterMap select).map bare = (found.map Flattened.bare).filterMap select := by
    rw [List.map_filterMap, List.filterMap_map]
    congr 1
    funext x
    exact (commutes x).symm
  rw [selected, selected, found_of_relocated alike]

theorem setAside_relocated (alike : relocated scope sets sets') :
    (scope.setAside sets).map DeferredFragment.bare = (scope.setAside sets').map DeferredFragment.bare :=
  filterMap_relocated (fun x => by cases x <;> rfl) alike

theorem entries_relocated (alike : relocated scope sets sets') :
    (scope.entries sets).map (Prod.map id Field.bare) = (scope.entries sets').map (Prod.map id Field.bare) :=
  filterMap_relocated (fun x => by cases x <;> rfl) alike

theorem groupKey_bare (entry : Option Text × Field) : groupKey (entry.map id Field.bare) = groupKey entry := by
  simp [groupKey]

theorem fieldsOf_relocated (alike : relocated scope sets sets') (k : GroupKey) :
    (fieldsOf k (scope.entries sets)).map Field.bare = (fieldsOf k (scope.entries sets')).map Field.bare := by
  have chosen (entries : List (Option Text × Field)) :
      (fieldsOf k entries).map Field.bare = fieldsOf k (entries.map (Prod.map id Field.bare)) := by
    unfold fieldsOf
    rw [List.filter_map, List.map_map, List.map_map]
    congr 2
    funext entry
    rw [Function.comp_apply, groupKey_bare]
  rw [chosen, chosen, entries_relocated alike]

end

theorem group_relocated {provider : MetadataProvider} {scope : Scope} {sets sets' : List SelectionSet}
    {g g' : FieldGroup} (alike : relocated scope sets sets') (member : g ∈ scope.groups sets)
    (member' : g' ∈ scope.groups sets') (same : g.key = g'.key) :
    g.Alike provider RelocatedNodes relocated scope g' := by
  have fields : g.fieldNodes.map Field.bare = g'.fieldNodes.map Field.bare := by
    rw [Scope.fieldNodes_eq member, Scope.fieldNodes_eq member', same, fieldsOf_relocated alike]
  have first : g.first.bare = g'.first.bare := (List.cons.inj fields).1
  have directives (fields : List Field) : (fields.flatMap (·.directives)).map Directive.bare =
      (fields.map Field.bare).flatMap (·.directives) := by
    rw [List.map_flatMap, List.flatMap_map]
    simp only [Field.directives_bare]
  have sets_eq (g : FieldGroup) :
      g.sets.map SelectionSet.bare = (g.fieldNodes.map Field.bare).filterMap (·.selectionSet) := by
    rw [FieldGroup.sets, List.map_filterMap, List.filterMap_map]
    congr 1
    funext f
    exact f.selectionSet_bare.symm
  have sets : g.sets.map SelectionSet.bare = g'.sets.map SelectionSet.bare := by rw [sets_eq, sets_eq, fields]
  refine Scope.group_alike member member' same ?_ fields ?_ ?_ ?_ ?_ fun _ _ => sets
  · rw [← g.first.name_bare, first, Field.name_bare]
  · rw [← Field.arguments_bare, first, Field.arguments_bare]
  · rw [← Field.modifier_bare, first, Field.modifier_bare]
  · rw [directives, directives, fields]
  · rw [← List.map_eq_nil_iff (f := SelectionSet.bare), sets, List.map_eq_nil_iff]

theorem relocation_simulates (provider : MetadataProvider) : IsSimulation provider RelocatedNodes relocated where
  spread := fun {scope sets sets'} alike => by
    have spread (found : List Flattened) :
        found.findSome? (·.spread?) = (found.map Flattened.bare).findSome? (·.spread?) := by
      rw [List.findSome?_map]
      congr 1
      funext x
      cases x <;> rfl
    rw [spread, found_of_relocated alike, ← spread]
  aside := fun {scope sets sets'} alike => by
    have aside := setAside_relocated alike
    rw [← List.forall₂_eq_eq_eq, List.forall₂_map_left_iff, List.forall₂_map_right_iff] at aside
    refine aside.imp fun f f' same => ?_
    obtain ⟨set, parentType, path, label, condition⟩ := f
    obtain ⟨set', _, _, _, _⟩ := f'
    injection same with sets parentTypes paths labels conditions
    exact ⟨parentTypes, paths, labels, conditions, congrArg (fun set => [set]) sets⟩
  groups := fun {scope sets sets'} alike => by
    refine Scope.groups_alike ?_ fun g member g' member' same => group_relocated alike member member' same
    have keys (entries : List (Option Text × Field)) :
        entries.map groupKey = (entries.map (Prod.map id Field.bare)).map groupKey := by
      rw [List.map_map]
      exact List.map_congr_left fun entry _ => (groupKey_bare entry).symm
    rw [keys, entries_relocated alike, ← keys]

theorem plan_of_relocated {operation operation' : PreparedOperation} {provider : MetadataProvider}
    (type : operation.type = operation'.type) (name : operation.name = operation'.name)
    (moved : operation.selectionSet.bare = operation'.selectionSet.bare) :
    OutcomesAlike (PlanField.Alike RelocatedNodes) (operation.plan provider).1 (operation'.plan provider).1 :=
  (relocation_simulates provider).plan type name fun _ _ => congrArg (fun set => [set]) moved

end QueryPlanner
