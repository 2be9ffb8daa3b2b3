import QueryPlanner.Plan.Flattening
import Mathlib.Data.List.Nodup

namespace QueryPlanner

abbrev GroupKey := Option Text × Text

def groupKey (entry : Option Text × Field) : GroupKey := (entry.1, entry.2.responseKey)

namespace FieldGroup

def key (g : FieldGroup) : GroupKey := (g.typeCondition, g.responseKey)

@[simp] theorem fieldNodes_single (parentType : Text) (condition : Option Text) (f : Field) :
    (single parentType condition f).fieldNodes = [f] := rfl

@[simp] theorem key_single (parentType : Text) (condition : Option Text) (f : Field) :
    (single parentType condition f).key = groupKey (condition, f) := rfl

def joined (g : FieldGroup) (f : Field) : FieldGroup := { g with others := g.others ++ [f] }

@[simp] theorem fieldNodes_joined (g : FieldGroup) (f : Field) : (g.joined f).fieldNodes = g.fieldNodes ++ [f] := rfl

@[simp] theorem key_joined (g : FieldGroup) (f : Field) : (g.joined f).key = g.key := rfl

theorem add_cases (parentType : Text) (condition : Option Text) (f : Field) (groups : List FieldGroup) :
    (groupKey (condition, f) ∉ groups.map key ∧
      add parentType condition f groups = groups ++ [single parentType condition f]) ∨
    (∃ before g after, groups = before ++ g :: after ∧ g.key = groupKey (condition, f) ∧
      add parentType condition f groups = before ++ g.joined f :: after) := by
  induction groups with
  | nil => exact .inl ⟨by simp, rfl⟩
  | cons g rest ih =>
      by_cases same : g.key = groupKey (condition, f)
      · refine .inr ⟨[], g, rest, rfl, same, ?_⟩
        simp only [key, groupKey, Prod.mk.injEq] at same
        simp [add, same, joined]
      · have next : add parentType condition f (g :: rest) = g :: add parentType condition f rest := by
          simp only [key, groupKey, Prod.mk.injEq] at same
          simp [add, same]
        obtain ⟨new, added⟩ | ⟨before, h, after, rfl, found, added⟩ := ih
        · exact .inl ⟨by simp [Ne.symm same, new], by rw [next, added]; rfl⟩
        · exact .inr ⟨g :: before, h, after, rfl, found, by rw [next, added]; rfl⟩

theorem add_select (parentType : Text) (wanted : GroupKey → Bool) (condition : Option Text) (f : Field)
    (groups : List FieldGroup) :
    (((add parentType condition f groups).filter (wanted ·.key)).flatMap (·.fieldNodes)).Perm
      ((groups.filter (wanted ·.key)).flatMap (·.fieldNodes) ++
        ([(condition, f)].filter (wanted <| groupKey ·)).map (·.2)) := by
  obtain ⟨-, added⟩ | ⟨before, g, after, rfl, same, added⟩ := add_cases parentType condition f groups
  · rw [added]
    by_cases h : wanted (groupKey (condition, f)) = true <;> simp [h]
  · rw [added]
    by_cases h : wanted (groupKey (condition, f)) = true
    · simp only [List.filter_append, List.filter_cons, key_joined, same, h, if_true, List.flatMap_append,
        List.flatMap_cons, fieldNodes_joined, List.append_assoc, List.filter_nil, List.map_cons, List.map_nil]
      exact .append_left _ (.append_left _ List.perm_append_comm)
    · simp [same, h]

theorem ofFields_select (parentType : Text) (wanted : GroupKey → Bool) (fields : List (Option Text × Field)) :
    (((ofFields parentType fields).filter (wanted ·.key)).flatMap (·.fieldNodes)).Perm
      ((fields.filter (wanted <| groupKey ·)).map (·.2)) := by
  have fold (groups : List FieldGroup) :
      (((fields.foldl (fun groups field => add parentType field.1 field.2 groups) groups).filter
          (wanted ·.key)).flatMap (·.fieldNodes)).Perm
        ((groups.filter (wanted ·.key)).flatMap (·.fieldNodes) ++ (fields.filter (wanted <| groupKey ·)).map (·.2)) := by
    induction fields generalizing groups with
    | nil => simp
    | cons field rest ih =>
        rw [List.foldl_cons]
        refine (ih _).trans ?_
        refine ((add_select parentType wanted field.1 field.2 groups).append_right _).trans ?_
        rw [List.append_assoc, ← List.map_append, ← List.filter_append, List.singleton_append]
  exact fold []

/-- What grouping keeps while it goes on: groups of distinct keys that hold the fields seen so far. -/
structure Collects (seen : List (Option Text × Field)) (groups : List FieldGroup) : Prop where
  nodes : ∀ g ∈ groups, g.fieldNodes = (seen.filter (groupKey · = g.key)).map (·.2)
  distinct : (groups.map key).Nodup
  covered : ∀ x ∈ seen, groupKey x ∈ groups.map key

theorem Collects.add {seen : List (Option Text × Field)} {groups : List FieldGroup} (h : Collects seen groups)
    (parentType : Text) (condition : Option Text) (f : Field) :
    Collects (seen ++ [(condition, f)]) (add parentType condition f groups) := by
  have elsewhere (g : FieldGroup) (member : g ∈ groups) (other : g.key ≠ groupKey (condition, f)) :
      g.fieldNodes = ((seen ++ [(condition, f)]).filter (groupKey · = g.key)).map (·.2) := by
    simp [h.nodes g member, Ne.symm other]
  obtain ⟨new, added⟩ | ⟨before, g, after, rfl, same, added⟩ := add_cases parentType condition f groups
  · -- The first field of its key gets a group behind the others.
    have absent (x : Option Text × Field) (member : x ∈ seen) : ¬ groupKey x = groupKey (condition, f) :=
      fun e => new (e ▸ h.covered x member)
    rw [added]
    refine ⟨fun g member => ?_, ?_, fun x member => ?_⟩
    · obtain member | rfl := (List.mem_append.1 member).imp id List.mem_singleton.1
      · exact elsewhere g member fun e => new (e ▸ List.mem_map_of_mem member)
      · rw [key_single, List.filter_append, List.filter_eq_nil_iff.2 (by simpa using absent)]
        simp
    · rw [List.map_append, List.map_singleton, key_single, List.nodup_append]
      refine ⟨h.distinct, List.nodup_singleton _, fun k member other ho e => ?_⟩
      rw [List.mem_singleton] at ho
      exact new (ho ▸ e ▸ member)
    · obtain member | rfl := (List.mem_append.1 member).imp id List.mem_singleton.1
      · simp [h.covered x member]
      · simp
  · have keys : (before ++ g.joined f :: after).map key = (before ++ g :: after).map key := by simp
    have distinct := h.distinct
    rw [List.map_append, List.map_cons, List.nodup_middle, List.nodup_cons, ← List.map_append] at distinct
    have apart (k : FieldGroup) (member : k ∈ before ++ after) : k.key ≠ groupKey (condition, f) :=
      fun e => distinct.1 (same ▸ e ▸ List.mem_map_of_mem member)
    rw [added]
    refine ⟨fun k member => ?_, keys ▸ h.distinct, fun x member => ?_⟩
    · rcases List.mem_append.1 member with member | member
      · exact elsewhere k (by simp [member]) (apart k (by simp [member]))
      · rcases List.mem_cons.1 member with rfl | member
        · rw [fieldNodes_joined, key_joined, h.nodes g (by simp), List.filter_append]
          simp [same]
        · exact elsewhere k (by simp [member]) (apart k (by simp [member]))
    · rw [keys]
      obtain member | rfl := (List.mem_append.1 member).imp id List.mem_singleton.1
      · exact h.covered x member
      · simp [same]

theorem collects_ofFields (parentType : Text) (fields : List (Option Text × Field)) :
    Collects fields (ofFields parentType fields) := by
  have fold (rest seen : List (Option Text × Field)) (groups : List FieldGroup) (h : Collects seen groups) :
      Collects (seen ++ rest) (rest.foldl (fun groups field => FieldGroup.add parentType field.1 field.2 groups) groups) := by
    induction rest generalizing seen groups with
    | nil => simpa using h
    | cons field rest ih =>
        rw [List.append_cons]
        exact ih _ _ (h.add parentType field.1 field.2)
  exact fold fields [] [] ⟨by simp, by simp, by simp⟩

theorem ofFields_fieldNodes {parentType : Text} {fields : List (Option Text × Field)} {g : FieldGroup}
    (member : g ∈ ofFields parentType fields) :
    g.fieldNodes = (fields.filter (groupKey · = g.key)).map (·.2) :=
  (collects_ofFields parentType fields).nodes g member

theorem mem_keys_ofFields {parentType : Text} {fields : List (Option Text × Field)} {k : GroupKey} :
    k ∈ (ofFields parentType fields).map key ↔ k ∈ fields.map groupKey := by
  constructor
  · intro member
    obtain ⟨g, chosen, rfl⟩ := List.mem_map.1 member
    have first : g.first ∈ g.fieldNodes := List.mem_cons_self
    rw [ofFields_fieldNodes chosen] at first
    obtain ⟨x, kept, -⟩ := List.mem_map.1 first
    obtain ⟨seen, same⟩ := List.mem_filter.1 kept
    exact List.mem_map.2 ⟨x, seen, of_decide_eq_true same⟩
  · intro member
    obtain ⟨x, seen, rfl⟩ := List.mem_map.1 member
    exact (collects_ofFields parentType fields).covered x seen

theorem add_forall {P : FieldGroup → Prop} {parentType : Text} {condition : Option Text} {f : Field}
    {groups : List FieldGroup} (all : ∀ g ∈ groups, P g) (new : P (single parentType condition f))
    (joins : ∀ g, P g → P (g.joined f)) : ∀ g ∈ add parentType condition f groups, P g := by
  obtain ⟨-, added⟩ | ⟨before, k, after, rfl, -, added⟩ := add_cases parentType condition f groups
  · rw [added, List.forall_mem_append, List.forall_mem_singleton]
    exact ⟨all, new⟩
  · rw [List.forall_mem_append, List.forall_mem_cons] at all
    rw [added, List.forall_mem_append, List.forall_mem_cons]
    exact ⟨all.1, joins k all.2.1, all.2.2⟩

theorem ofFields_forall {P : FieldGroup → Prop} {parentType : Text} {fields : List (Option Text × Field)}
    (new : ∀ condition f, P (single parentType condition f)) (joins : ∀ g f, P g → P (g.joined f)) :
    ∀ g ∈ ofFields parentType fields, P g := by
  have fold (groups : List FieldGroup) (all : ∀ g ∈ groups, P g) :
      ∀ g ∈ fields.foldl (fun groups field => add parentType field.1 field.2 groups) groups, P g := by
    induction fields generalizing groups with
    | nil => exact all
    | cons field rest ih => exact ih _ (add_forall all (new field.1 field.2) fun g => joins g field.2)
  exact fold [] (List.forall_mem_nil _)

theorem ofFields_parentType {parentType : Text} {fields : List (Option Text × Field)} {g : FieldGroup}
    (member : g ∈ ofFields parentType fields) : g.parentType = g.typeCondition.getD parentType :=
  ofFields_forall (P := fun g => g.parentType = g.typeCondition.getD parentType) (fun _ _ => rfl)
    (fun _ _ typed => typed) g member

theorem ofFields_named {parentType : Text} {fields : List (Option Text × Field)} {g : FieldGroup}
    (member : g ∈ ofFields parentType fields) : g.fieldName = g.first.name.text :=
  ofFields_forall (P := fun g => g.fieldName = g.first.name.text) (fun _ _ => rfl) (fun _ _ named => named) g member

end FieldGroup

end QueryPlanner
