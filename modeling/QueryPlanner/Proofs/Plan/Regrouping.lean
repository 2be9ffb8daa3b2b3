import QueryPlanner.Proofs.Plan.EncounterOrder
import QueryPlanner.Proofs.Plan.Simulation

namespace QueryPlanner

theorem forall₂_of_keys {α β κ : Type} {key : α → κ} {key' : β → κ} {rel : α → β → Prop} {as : List α}
    {bs : List β} (same : as.map key = bs.map key') (related : ∀ a ∈ as, ∀ b ∈ bs, key a = key' b → rel a b) :
    List.Forall₂ rel as bs := by
  induction as generalizing bs with
  | nil =>
      rw [List.map_eq_nil_iff.1 same.symm]
      exact .nil
  | cons a as ih =>
      cases bs with
      | nil => contradiction
      | cons b bs =>
          obtain ⟨here, others⟩ := List.cons.inj same
          refine .cons (related a List.mem_cons_self b List.mem_cons_self here) (ih others ?_)
          exact fun a member b member' => related a (List.mem_cons_of_mem _ member) b (List.mem_cons_of_mem _ member')

def Scope.entries (scope : Scope) (sets : List SelectionSet) : List (Option Text × Field) :=
  (scope.found sets).filterMap (·.field?)

def fieldsOf (k : GroupKey) (entries : List (Option Text × Field)) : List Field :=
  (entries.filter (groupKey · = k)).map (·.2)

section
variable {k : GroupKey} {entries : List (Option Text × Field)}

theorem fieldsOf_append (k : GroupKey) (entries entries' : List (Option Text × Field)) :
    fieldsOf k (entries ++ entries') = fieldsOf k entries ++ fieldsOf k entries' := by
  rw [fieldsOf, List.filter_append, List.map_append]
  rfl

theorem fieldsOf_cons_of_key {entry : Option Text × Field} (own : groupKey entry = k) :
    fieldsOf k (entry :: entries) = entry.2 :: fieldsOf k entries := by
  rw [fieldsOf, List.filter_cons_of_pos (by simpa using own), List.map_cons]
  rfl

theorem fieldsOf_cons_of_ne {entry : Option Text × Field} (other : groupKey entry ≠ k) :
    fieldsOf k (entry :: entries) = fieldsOf k entries := by
  rw [fieldsOf, List.filter_cons_of_neg (by simpa using other)]
  rfl

theorem fieldsOf_of_key {condition : Option Text} (fields : List Field)
    (own : ∀ f ∈ fields, groupKey (condition, f) = k) : fieldsOf k (fields.map (condition, ·)) = fields := by
  induction fields with
  | nil => rfl
  | cons f fields ih =>
      obtain ⟨first, others⟩ := List.forall_mem_cons.1 own
      rw [List.map_cons, fieldsOf_cons_of_key first, ih others]

theorem fieldsOf_of_ne (other : ∀ entry ∈ entries, groupKey entry ≠ k) : fieldsOf k entries = [] := by
  rw [fieldsOf, List.filter_eq_nil_iff.2 (by simpa using other), List.map_nil]

end

section
variable {provider : MetadataProvider} {nodes : NodesRelation} {related : SetsRelation} {scope : Scope}
  {sets sets' : List SelectionSet} {g g' : FieldGroup}

theorem Scope.fieldNodes_eq (member : g ∈ scope.groups sets) : g.fieldNodes = fieldsOf g.key (scope.entries sets) :=
  FieldGroup.ofFields_fieldNodes member

theorem Scope.group_alike (member : g ∈ scope.groups sets) (member' : g' ∈ scope.groups sets')
    (same : g.key = g'.key) (named : g.first.name.text = g'.first.name.text)
    (fieldNodes : nodes g.fieldNodes g'.fieldNodes)
    (arguments : g.first.arguments.map Argument.bare = g'.first.arguments.map Argument.bare)
    (modifier : g.first.modifier.map Modifier.bare = g'.first.modifier.map Modifier.bare)
    (directives : (g.fieldNodes.flatMap (·.directives)).map Directive.bare =
      (g'.fieldNodes.flatMap (·.directives)).map Directive.bare)
    (leaf : g.sets = [] ↔ g'.sets = [])
    (selects : ∀ metadata, g.metadata? provider = some metadata →
      related (scope.entered g metadata) g.sets g'.sets) : g.Alike provider nodes related scope g' where
  responseKey := congrArg Prod.snd same
  typeCondition := congrArg Prod.fst same
  parentType := by
    have condition : g.typeCondition = g'.typeCondition := congrArg Prod.fst same
    rw [FieldGroup.ofFields_parentType member, FieldGroup.ofFields_parentType member', condition]
  fieldName := by rw [FieldGroup.ofFields_named member, FieldGroup.ofFields_named member', named]
  fieldNodes := fieldNodes
  arguments := arguments
  modifier := modifier
  directives := directives
  leaf := leaf
  selects := selects

theorem Scope.groups_alike
    (keys : ((scope.entries sets).map groupKey).eraseDups = ((scope.entries sets').map groupKey).eraseDups)
    (alike : ∀ g ∈ scope.groups sets, ∀ g' ∈ scope.groups sets', g.key = g'.key →
      g.Alike provider nodes related scope g') :
    List.Forall₂ (FieldGroup.Alike provider nodes related scope) (scope.groups sets) (scope.groups sets') := by
  refine forall₂_of_keys ?_ alike
  rw [groups, groups, FieldGroup.keys_ofFields, FieldGroup.keys_ofFields]
  exact keys

end

end QueryPlanner
