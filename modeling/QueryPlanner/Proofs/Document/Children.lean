import QueryPlanner.Document.Node
import Mathlib.Data.List.Forall2

namespace QueryPlanner

namespace Node

def children : Node → List Node
  | name _ => []
  | value (.var v) => [name v.name]
  | value (.list values _) => values.map value
  | value (.object fields _) => fields.map objectField
  | value _ => []
  | objectField f => [name f.name, value f.value]
  | argument a => [name a.name, value a.value]
  | directive d => name d.name :: d.arguments.map argument
  | type (.named t) => [name t.name]
  | type (.list item _) => [type item]
  | type (.nonNull t _) => [type t]
  | modifier (.list element _) | modifier (.required element _) | modifier (.optional element _) =>
    element.toList.map modifier
  | selection (.field f) =>
    f.responseName.toList.map name ++ name f.name :: (f.arguments.map argument ++ (f.modifier.toList.map modifier ++
      (f.directives.map directive ++ f.selectionSet.toList.map selectionSet)))
  | selection (.spread s) => name s.name :: s.directives.map directive
  | selection (.inline f) =>
    f.typeCondition.toList.map (type ∘ .named) ++ (f.directives.map directive ++ [selectionSet f.selectionSet])
  | selectionSet s => s.selections.map selection
  | variableDefinition d =>
    value (.var d.var) :: type d.type :: (d.defaultValue.toList.map value ++ d.directives.map directive)
  | definition (.operation o) =>
    o.name.toList.map name ++ (o.variableDefinitions.map variableDefinition ++
      (o.directives.map directive ++ [selectionSet o.selectionSet]))
  | definition (.fragment f) =>
    name f.name :: ((f.variableDefinitions.getD []).map variableDefinition ++ type (.named f.typeCondition) ::
      (f.directives.map directive ++ [selectionSet f.selectionSet]))
  | document d => d.definitions.map definition

inductive IsPart (whole : Node) : Node → Prop
  | self : IsPart whole whole
  | child {part inner : Node} : IsPart whole part → inner ∈ part.children → IsPart whole inner

def isDocument : Node → Bool
  | document _ => true
  | _ => false

end Node

namespace Tree

def isObject : Tree → Bool
  | object _ => true
  | _ => false

def objects : Tree → List Tree
  | object entries => [object entries]
  | array items => items.filter isObject
  | _ => []

def inner : Tree → List Tree
  | object entries => entries.flatMap fun entry => entry.2.objects
  | _ => []

theorem objects_of_isObject {t : Tree} (object : t.isObject = true) : t.objects = [t] := by
  cases t with
  | object _ => rfl
  | _ => contradiction

theorem inner_ofEntries (entries : List (Text × Option Tree)) :
    (ofEntries entries).inner = entries.flatMap fun entry => entry.2.elim [] objects := by
  rw [ofEntries, inner]
  induction entries with
  | nil => rfl
  | cons entry entries ih =>
      obtain ⟨key, tree⟩ := entry
      cases tree <;> simp_all

end Tree

theorem valueTrees_eq_map (values : List Value) : valueTrees values = values.map Value.toTree := by
  induction values with
  | nil => rfl
  | cons v rest ih => rw [valueTrees, ih, List.map_cons]

theorem objectFieldTrees_eq_map (fields : List ObjectField) :
    objectFieldTrees fields = fields.map ObjectField.toTree := by
  induction fields with
  | nil => rfl
  | cons f rest ih => rw [objectFieldTrees, ih, List.map_cons]

theorem selectionTrees_eq_map (selections : List Selection) :
    selectionTrees selections = selections.map Selection.toTree := by
  induction selections with
  | nil => rfl
  | cons s rest ih => rw [selectionTrees, ih, List.map_cons]

namespace Node

theorem isObject_toTree : ∀ node : Node, node.toTree.isObject = true
  | value v => by cases v <;> rfl
  | type t => by cases t <;> rfl
  | modifier m => by cases m <;> rfl
  | selection (.field ⟨_, _, _, _, _, _, _⟩) | selection (.spread _) | selection (.inline ⟨_, _, _, _⟩) => rfl
  | definition d => by cases d <;> rfl
  | objectField ⟨_, _, _⟩ | selectionSet ⟨_, _⟩ => rfl
  | name _ | argument _ | directive _ | variableDefinition _ | document _ => rfl

def Shows (entry : Text × Option Tree) (parts : List Node) : Prop :=
  entry.2.elim [] Tree.objects = parts.map toTree

section
variable {α : Type} {key : Text}

theorem shows_one (node : Node) : Shows (key, some node.toTree) [node] :=
  Tree.objects_of_isObject node.isObject_toTree

theorem shows_plain {t : Tree} (plain : t.objects = []) : Shows (key, some t) [] := plain

theorem shows_option (node : α → Node) (part : Option α) :
    Shows (key, part.map (toTree ∘ node)) (part.toList.map node) := by
  cases part with
  | none => rfl
  | some part => exact shows_one (node part)

theorem shows_list (node : α → Node) (parts : List α) :
    Shows (key, some (.array (parts.map (toTree ∘ node)))) (parts.map node) := by
  rw [Shows, List.map_map]
  refine List.filter_eq_self.2 fun tree member => ?_
  obtain ⟨part, -, rfl⟩ := List.mem_map.1 member
  exact isObject_toTree (node part)

theorem inner_of_shows {node : Node} {kind : Text} {loc : Option Location} {entries : List (Text × Option Tree)}
    {groups : List (List Node)} (tree : node.toTree = nodeTree kind loc entries)
    (shown : List.Forall₂ Shows entries groups) (parts : groups.flatten = node.children) :
    node.toTree.inner = node.children.map toTree := by
  have located : (loc.map Location.toTree).elim [] Tree.objects = [] := by cases loc <;> rfl
  have kept : (entries.flatMap fun entry => entry.2.elim [] Tree.objects) = groups.flatten.map toTree := by
    clear tree parts
    induction shown with
    | nil => rfl
    | cons here _ ih => rw [List.flatMap_cons, here, ih, List.flatten_cons, List.map_append]
  rw [tree, ← parts, nodeTree, Tree.inner_ofEntries, List.flatMap_cons, List.flatMap_append, List.flatMap_singleton,
    located, List.append_nil, kept]
  rfl

end

theorem inner_toTree_value (v : Value) : (value v).toTree.inner = (value v).children.map toTree := by
  cases v with
  | var v => exact inner_of_shows rfl (.cons (shows_one (name v.name)) .nil) rfl
  | int _ _ | float _ _ | boolean _ _ | enum _ _ => exact inner_of_shows rfl (.cons (shows_plain rfl) .nil) rfl
  | string _ _ _ => exact inner_of_shows rfl (.cons (shows_plain rfl) (.cons (shows_plain rfl) .nil)) rfl
  | null _ => exact inner_of_shows rfl .nil rfl
  | list values loc =>
      have tree : (value (.list values loc)).toTree = nodeTree "ListValue" loc
          [("values", some (.array (values.map (toTree ∘ value))))] := by
        rw [toTree, Value.toTree, valueTrees_eq_map]
        rfl
      exact inner_of_shows tree (.cons (shows_list value values) .nil) List.flatten_singleton
  | object fields loc =>
      have tree : (value (.object fields loc)).toTree = nodeTree "ObjectValue" loc
          [("fields", some (.array (fields.map (toTree ∘ objectField))))] := by
        rw [toTree, Value.toTree, objectFieldTrees_eq_map]
        rfl
      exact inner_of_shows tree (.cons (shows_list objectField fields) .nil) List.flatten_singleton

theorem inner_toTree_modifier (m : Modifier) : (modifier m).toTree.inner = (modifier m).children.map toTree := by
  have elements (element : Option Modifier) : elementTree element = element.map (toTree ∘ modifier) := by
    cases element <;> rfl
  have shown (element : Option Modifier) :
      List.Forall₂ Shows [("element", elementTree element)] [element.toList.map modifier] :=
    .cons (elements element ▸ shows_option modifier element) .nil
  cases m with
  | list element _ | required element _ | optional element _ =>
      exact inner_of_shows (by rw [toTree, Modifier.toTree]) (shown element) List.flatten_singleton

theorem inner_toTree_selection (s : Selection) :
    (selection s).toTree.inner = (selection s).children.map toTree := by
  cases s with
  | field f =>
      obtain ⟨response, name', arguments, modifier', directives, set, loc⟩ := f
      have tree : (selection (.field ⟨response, name', arguments, modifier', directives, set, loc⟩)).toTree =
          nodeTree "Field" loc
            [("alias", response.map (toTree ∘ name)), ("name", some (name name').toTree),
              ("arguments", some (.array (arguments.map (toTree ∘ argument)))),
              ("nullabilityAssertion", modifier'.map (toTree ∘ modifier)),
              ("directives", some (.array (directives.map (toTree ∘ directive)))),
              ("selectionSet", set.map (toTree ∘ selectionSet))] := by
        cases set <;> rfl
      exact inner_of_shows tree
        (.cons (shows_option name response) (.cons (shows_one (name name')) (.cons (shows_list argument arguments)
          (.cons (shows_option modifier modifier') (.cons (shows_list directive directives)
            (.cons (shows_option selectionSet set) .nil))))))
        (by simp [children])
  | spread s =>
      exact inner_of_shows rfl (.cons (shows_one (name s.name)) (.cons (shows_list directive s.directives) .nil))
        (by simp [children])
  | inline f =>
      obtain ⟨condition, directives, set, _⟩ := f
      exact inner_of_shows rfl
        (.cons (shows_option (type ∘ .named) condition) (.cons (shows_list directive directives)
          (.cons (shows_one (selectionSet set)) .nil)))
        (by simp [children])

theorem inner_toTree_definition (d : Definition) :
    (definition d).toTree.inner = (definition d).children.map toTree := by
  cases d with
  | operation o =>
      exact inner_of_shows rfl
        (.cons (shows_plain rfl) (.cons (shows_option name o.name)
          (.cons (shows_list variableDefinition o.variableDefinitions) (.cons (shows_list directive o.directives)
            (.cons (shows_one (selectionSet o.selectionSet)) .nil)))))
        (by simp [children])
  | fragment f =>
      have declared : Shows ("variableDefinitions", f.variableDefinitions.bind (listTree VariableDefinition.toTree))
          ((f.variableDefinitions.getD []).map variableDefinition) := by
        cases f.variableDefinitions with
        | none => rfl
        | some definitions => exact shows_list variableDefinition definitions
      exact inner_of_shows rfl
        (.cons (shows_one (name f.name)) (.cons declared (.cons (shows_one (type (.named f.typeCondition)))
          (.cons (shows_list directive f.directives) (.cons (shows_one (selectionSet f.selectionSet)) .nil)))))
        (by simp [children])

theorem inner_toTree : ∀ node : Node, node.toTree.inner = node.children.map toTree
  | name _ => inner_of_shows rfl (.cons (shows_plain rfl) .nil) rfl
  | value v => inner_toTree_value v
  | objectField ⟨label, content, _⟩ =>
    inner_of_shows rfl (.cons (shows_one (name label)) (.cons (shows_one (value content)) .nil)) rfl
  | argument a => inner_of_shows rfl (.cons (shows_one (name a.name)) (.cons (shows_one (value a.value)) .nil)) rfl
  | directive d =>
    inner_of_shows rfl (.cons (shows_one (name d.name)) (.cons (shows_list argument d.arguments) .nil))
      (by simp [children])
  | type (.named t) => inner_of_shows rfl (.cons (shows_one (name t.name)) .nil) rfl
  | type (.list t _) | type (.nonNull t _) => inner_of_shows rfl (.cons (shows_one (type t)) .nil) rfl
  | modifier m => inner_toTree_modifier m
  | selection s => inner_toTree_selection s
  | selectionSet ⟨selections, loc⟩ => by
    have tree : (selectionSet ⟨selections, loc⟩).toTree = nodeTree "SelectionSet" loc
        [("selections", some (.array (selections.map (toTree ∘ selection))))] := by
      rw [toTree, SelectionSet.toTree, selectionTrees_eq_map]
      rfl
    exact inner_of_shows tree (.cons (shows_list selection selections) .nil) List.flatten_singleton
  | variableDefinition d =>
    inner_of_shows rfl
      (.cons (shows_one (value (.var d.var))) (.cons (shows_one (type d.type))
        (.cons (shows_option value d.defaultValue) (.cons (shows_list directive d.directives) .nil))))
      (by simp [children])
  | definition d => inner_toTree_definition d
  | document d => inner_of_shows rfl (.cons (shows_list definition d.definitions) .nil) List.flatten_singleton

end Node

end QueryPlanner
