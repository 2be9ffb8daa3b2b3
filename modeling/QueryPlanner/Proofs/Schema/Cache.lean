import QueryPlanner.Proofs.Token.Reading
import QueryPlanner.Schema.Cache
import Mathlib.Data.List.Basic

namespace QueryPlanner

def dot : CodeUnit := 0x2e

theorem IsNameText.dot_not_mem {text : Text} (named : IsNameText text) : dot ∉ text := by
  obtain ⟨u, rest, rfl, start, continues⟩ := named
  rintro (_ | ⟨_, inside⟩)
  · contradiction
  · have continued := continues dot inside
    contradiction

namespace MetadataProvider

theorem key_eq (typeName field : Text) : key typeName field = typeName ++ dot :: field := by
  rw [key, List.append_assoc]
  rfl

theorem key_inj {typeName field typeName' field' : Text} (plain : dot ∉ typeName) (plain' : dot ∉ field)
    (same : key typeName field = key typeName' field') : typeName = typeName' ∧ field = field' := by
  rw [key_eq, key_eq] at same
  obtain ⟨types, -, fields⟩ := (List.append_cons_inj_of_notMem plain plain').1 same
  exact ⟨types, fields⟩

/-- The first of the questions that has the same text as the given one, which else stands for itself. -/
def firstAsked (asked : List (Text × Text)) (typeName field : Text) : Text × Text :=
  (asked.find? fun q => key q.1 q.2 = key typeName field).getD (typeName, field)

theorem key_firstAsked (asked : List (Text × Text)) (typeName field : Text) :
    key (firstAsked asked typeName field).1 (firstAsked asked typeName field).2 = key typeName field := by
  unfold firstAsked
  cases found : asked.find? fun q => key q.1 q.2 = key typeName field with
  | none => rfl
  | some q => simpa using List.find?_some found

theorem firstAsked_of_names {typeName field : Text} (asked : List (Text × Text)) (typeNamed : IsNameText typeName)
    (named : IsNameText field) : firstAsked asked typeName field = (typeName, field) := by
  have same := key_inj typeNamed.dot_not_mem named.dot_not_mem (key_firstAsked asked typeName field).symm
  exact Prod.ext same.1.symm same.2.symm

end MetadataProvider

namespace MetadataCache
open MetadataProvider (key firstAsked)

variable {provider : MetadataProvider} {asked : List (Text × Text)} {cache : MetadataCache} {typeName field : Text}

/-- The cache holds the answers to some questions, under each text that to the first one. -/
def Remembers (provider : MetadataProvider) (asked : List (Text × Text)) (cache : MetadataCache) : Prop :=
  ∀ text, cache.lookup text = (asked.find? fun q => key q.1 q.2 = text).map fun q => provider.field? q.1 q.2

theorem remembers_nil : Remembers provider [] [] := fun _ => rfl

theorem Remembers.answer (remembers : Remembers provider asked cache) :
    (ask provider typeName field cache).1 =
      provider.field? (firstAsked asked typeName field).1 (firstAsked asked typeName field).2 := by
  unfold ask firstAsked
  dsimp only
  rw [remembers (key typeName field)]
  cases asked.find? fun q => key q.1 q.2 = key typeName field <;> rfl

theorem Remembers.ask (remembers : Remembers provider asked cache) :
    Remembers provider (asked ++ [(typeName, field)]) (ask provider typeName field cache).2 := by
  intro text
  unfold MetadataCache.ask
  dsimp only
  rw [List.find?_append, remembers (key typeName field)]
  cases found : asked.find? fun q => key q.1 q.2 = key typeName field with
  | some q =>
      -- A text that was met before keeps its answer.
      dsimp only [Option.map_some]
      rw [remembers text]
      by_cases same : key typeName field = text
      · rw [← same, found]
        rfl
      · simp [same]
  | none =>
      dsimp only [Option.map_none]
      rw [List.lookup_cons]
      by_cases same : key typeName field = text
      · subst same
        simp [found]
      · have differ : (text == key typeName field) = false := beq_eq_false_iff_ne.2 (Ne.symm same)
        rw [differ, remembers text]
        simp [same]

theorem askAll_cons (provider : MetadataProvider) (cache : MetadataCache) (q : Text × Text) (rest : List (Text × Text)) :
    askAll provider cache (q :: rest) =
      ((MetadataCache.ask provider q.1 q.2 cache).1 :: (askAll provider (MetadataCache.ask provider q.1 q.2 cache).2 rest).1,
        (askAll provider (MetadataCache.ask provider q.1 q.2 cache).2 rest).2) := rfl

theorem Remembers.askAll (remembers : Remembers provider asked cache) (questions : List (Text × Text)) :
    Remembers provider (asked ++ questions) (askAll provider cache questions).2 := by
  induction questions generalizing asked cache with
  | nil =>
      rw [List.append_nil]
      exact remembers
  | cons q rest ih =>
      rw [askAll_cons, List.append_cons]
      exact ih remembers.ask

theorem Remembers.answers_of_names (remembers : Remembers provider asked cache) {questions : List (Text × Text)}
    (named : ∀ q ∈ questions, IsNameText q.1 ∧ IsNameText q.2) :
    (MetadataCache.askAll provider cache questions).1 = questions.map fun q => provider.field? q.1 q.2 := by
  induction questions generalizing asked cache with
  | nil => rfl
  | cons q rest ih =>
      rw [List.forall_mem_cons] at named
      rw [askAll_cons, List.map_cons, remembers.answer, MetadataProvider.firstAsked_of_names asked named.1.1 named.1.2]
      exact congrArg _ (ih remembers.ask named.2)

end MetadataCache

end QueryPlanner
