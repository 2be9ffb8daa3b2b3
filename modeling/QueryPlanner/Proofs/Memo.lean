import QueryPlanner.Compile
import QueryPlanner.Proofs.Run

namespace QueryPlanner

namespace Memo

section
variable {α β γ : Type} [DecidableEq α] {memo : Memo α β γ} {a : α} {b : β} {c : γ}

@[simp] theorem entries_opened : (memo.opened a).entries = memo.entries := by
  unfold opened
  cases memo.tables.lookup a <;> rfl

@[simp] theorem entries_stored : (memo.stored a b (some c)).entries = ((a, b), c) :: memo.entries := rfl

@[simp] theorem table_opened (a' : α) : (memo.opened a).table a' = memo.table a' := by
  unfold opened
  cases new : memo.tables.lookup a with
  | some _ => rfl
  | none =>
      rw [table, table, List.lookup_cons]
      by_cases same : a' = a
      · subst same
        rw [new, beq_self_eq_true]
        rfl
      · rw [beq_false_of_ne same]

end

variable {α β γ ε σ : Type} [DecidableEq α] [DecidableEq β]

section
variable {memo : Memo α β γ} {a a' : α} {b b' : β} {result : Option γ}

@[simp] theorem find?_empty : (⟨[]⟩ : Memo α β γ).find? a b = none := rfl

@[simp] theorem find?_opened : (memo.opened a).find? a' b' = memo.find? a' b' := by
  rw [find?, find?, table_opened]

theorem find?_stored_self : (memo.stored a b result).find? a b = result := by
  simp [find?, stored, table]

theorem find?_stored_of_ne (other : (a, b) ≠ (a', b')) : (memo.stored a b result).find? a' b' = memo.find? a' b' := by
  by_cases same : a' = a
  · subst same
    have apart : b' ≠ b := fun same => other (by rw [same])
    rw [find?, table, stored, List.lookup_cons_self, Option.getD_some, List.lookup_cons, beq_false_of_ne apart]
    rfl
  · rw [find?, table, stored, List.lookup_cons, beq_false_of_ne same]
    rfl

theorem find?_stored_eq_some {c : γ} (found : (memo.stored a b result).find? a' b' = some c) :
    ((a, b) = (a', b') ∧ result = some c) ∨ memo.find? a' b' = some c := by
  by_cases same : (a, b) = (a', b')
  · obtain ⟨rfl, rfl⟩ := Prod.mk.inj same
    exact .inl ⟨rfl, by rwa [find?_stored_self] at found⟩
  · exact .inr (by rwa [find?_stored_of_ne same] at found)

end

section
variable {f : α → β → EStateM ε σ (Option γ)} {memo : Memo α β γ} {a : α} {b : β} {c : γ} {s : σ}

theorem call_known (known : memo.find? a b = some c) : call f a b memo s = .ok (some c, memo.opened a) s := by
  rw [call, find?_opened, known]
  rfl

theorem call_new (new : memo.find? a b = none) :
    call f a b memo = (fun result => (result, (memo.opened a).stored a b result)) <$> f a b := by
  rw [call, find?_opened, new]
  rfl

theorem call_returned {result : Option γ} {s' : σ} (new : memo.find? a b = none) (run : f a b s = .ok result s') :
    call f a b memo s = .ok (result, (memo.opened a).stored a b result) s' := by
  rw [call_new new]
  exact Run.map_ok.2 ⟨result, run, rfl⟩

theorem call_failed {e : ε} {s' : σ} (new : memo.find? a b = none) (run : f a b s = .error e s') :
    call f a b memo s = .error e s' := by
  rw [call_new new]
  change EStateM.map _ _ _ = _
  rw [EStateM.map, run]

theorem fst_call_new (new : memo.find? a b = none) : Prod.fst <$> call f a b memo = f a b := by
  rw [call_new new, Functor.map_map]
  exact id_map _

theorem attempt_known (known : memo.find? a b = some c) : attempt f a b memo s = (.ok (some c), memo.opened a, s) := by
  rw [attempt, call_known known]

theorem attempt_returned {result : Option γ} {s' : σ} (new : memo.find? a b = none) (run : f a b s = .ok result s') :
    attempt f a b memo s = (.ok result, (memo.opened a).stored a b result, s') := by
  rw [attempt, call_returned new run]

theorem attempt_failed {e : ε} {s' : σ} (new : memo.find? a b = none) (run : f a b s = .error e s') :
    attempt f a b memo s = (.error e, memo.opened a, s') := by
  rw [attempt, call_failed new run]

end

namespace History

variable {history : History α β γ ε} {a a' : α} {b b' : β} {outcome : Except ε (Option γ)}

def outcomes (history : History α β γ ε) (a : α) (b : β) : List (Except ε (Option γ)) :=
  (history.filter (·.1 = (a, b))).map (·.2)

def value? (history : History α β γ ε) (a : α) (b : β) : Option γ :=
  (outcomes history a b).findSome? (·.toOption.join)

theorem value?_cons_self : value? (((a, b), outcome) :: history) a b = outcome.toOption.join.or (value? history a b) := by
  rw [value?, outcomes, List.filter_cons_of_pos (by simp), List.map_cons, List.findSome?_cons]
  cases outcome.toOption.join <;> rfl

theorem value?_cons_of_ne (other : (a, b) ≠ (a', b')) : value? (((a, b), outcome) :: history) a' b' = value? history a' b' := by
  rw [value?, outcomes, List.filter_cons_of_neg (by simpa using other)]
  rfl

end History

section
variable {f : α → β → EStateM ε σ (Option γ)} {memo : Memo α β γ} {a a' : α} {b b' : β} {s : σ}

theorem find?_attempt_self : (attempt f a b memo s).2.1.find? a b =
    (memo.find? a b).or (attempt f a b memo s).1.toOption.join := by
  cases known : memo.find? a b with
  | some c => rw [attempt_known known, find?_opened, known, Option.some_or]
  | none =>
      cases run : f a b s with
      | ok result s' =>
          rw [attempt_returned known run, find?_stored_self]
          rfl
      | error e s' =>
          rw [attempt_failed known run, find?_opened, known]
          rfl

theorem find?_attempt_of_ne (other : (a, b) ≠ (a', b')) :
    (attempt f a b memo s).2.1.find? a' b' = memo.find? a' b' := by
  cases known : memo.find? a b with
  | some c => rw [attempt_known known, find?_opened]
  | none =>
      cases run : f a b s with
      | ok result s' => rw [attempt_returned known run, find?_stored_of_ne other, find?_opened]
      | error e s' => rw [attempt_failed known run, find?_opened]

theorem find?_attemptAll (calls : List (α × β)) (memo : Memo α β γ) (s : σ) :
    (attemptAll f calls memo s).2.1.find? a b =
      (memo.find? a b).or (History.value? (attemptAll f calls memo s).1 a b) := by
  induction calls generalizing memo s with
  | nil => exact Option.or_none.symm
  | cons call calls ih =>
      obtain ⟨a', b'⟩ := call
      rw [attemptAll]
      dsimp only
      rw [ih]
      by_cases same : (a', b') = (a, b)
      · obtain ⟨rfl, rfl⟩ := Prod.mk.inj same
        rw [find?_attempt_self, History.value?_cons_self, Option.or_assoc]
      · rw [find?_attempt_of_ne same, History.value?_cons_of_ne same]

/-- Each next call is answered with the first value that was returned for its pair, and else by the function. -/
structure Recalls (f : α → β → EStateM ε σ (Option γ)) (history : History α β γ ε) (memo : Memo α β γ) (s : σ) : Prop where
  known : ∀ a b c, history.value? a b = some c → call f a b memo s = .ok (some c, memo.opened a) s
  new : ∀ a b, history.value? a b = none → (Prod.fst <$> call f a b memo) s = f a b s

theorem find?_eq_value? (calls : List (α × β)) (s : σ) (a : α) (b : β) :
    (attemptAll f calls ⟨[]⟩ s).2.1.find? a b = History.value? (attemptAll f calls ⟨[]⟩ s).1 a b := by
  rw [find?_attemptAll, find?_empty, Option.none_or]

theorem attemptAll_recalls (calls : List (α × β)) (s : σ) : Recalls f (attemptAll f calls ⟨[]⟩ s).1
    (attemptAll f calls ⟨[]⟩ s).2.1 (attemptAll f calls ⟨[]⟩ s).2.2 where
  known a b c known := call_known (by rw [find?_eq_value?, known])
  new a b new := by rw [fst_call_new (by rw [find?_eq_value?, new])]

end

end Memo

namespace PlanMemo

variable {α β : Type} [DecidableEq α] [DecidableEq β] {operations : α → PreparedOperation}
  {providers : β → MetadataProvider} {memo : PlanMemo α β} {a : α} {b : β}

theorem attempt_cases (operations : α → PreparedOperation) (providers : β → MetadataProvider) (a : α) (b : β)
    (memo : PlanMemo α β) :
    (∃ p, memo.find? a b = some p ∧ attempt operations providers a b memo = (.ok (some p), memo.opened a)) ∨
    (∃ p : MadePlan, memo.find? a b = none ∧ ((operations a).plan (providers b)).1 = .ok p.toQueryPlan ∧
      p.number = memo.entries.length ∧
      attempt operations providers a b memo = (.ok (some p), (memo.opened a).stored a b (some p))) ∨
    (∃ failure, memo.find? a b = none ∧ ((operations a).plan (providers b)).1 = .error failure ∧
      attempt operations providers a b memo = (.error failure, memo.opened a)) := by
  cases known : memo.find? a b with
  | some p => exact .inl ⟨p, rfl, by rw [attempt, plan, Memo.call_known known]⟩
  | none =>
      refine .inr ?_
      cases planned : ((operations a).plan (providers b)).1 with
      | ok made =>
          have run : make operations providers a b memo.entries.length =
              .ok (some ⟨made, memo.entries.length⟩) (memo.entries.length + 1) := by rw [make, planned]
          exact .inl ⟨⟨made, _⟩, rfl, rfl, rfl, by rw [attempt, plan, Memo.call_returned known run]⟩
      | error failure =>
          have run : make operations providers a b memo.entries.length = .error failure memo.entries.length := by
            rw [make, planned]
          exact .inr ⟨failure, rfl, rfl, by rw [attempt, plan, Memo.call_failed known run]⟩

/-- The plans that are known are those that would be made anew, each with a number of its own. -/
structure Sound (operations : α → PreparedOperation) (providers : β → MetadataProvider) (memo : PlanMemo α β) : Prop where
  fresh : ∀ a b p, memo.find? a b = some p → ((operations a).plan (providers b)).1 = .ok p.toQueryPlan
  counted : ∀ a b p, memo.find? a b = some p → p.number < memo.entries.length
  apart : ∀ a b p a' b' p', memo.find? a b = some p → memo.find? a' b' = some p' → p.number = p'.number → (a, b) = (a', b')

theorem sound_empty : Sound operations providers ⟨[]⟩ := by
  have nothing (a : α) (b : β) (p : MadePlan) : (⟨[]⟩ : PlanMemo α β).find? a b ≠ some p := by
    rw [Memo.find?_empty]
    exact (Option.some_ne_none p).symm
  exact ⟨fun a b p found => absurd found (nothing a b p), fun a b p found => absurd found (nothing a b p),
    fun a b p _ _ _ found => absurd found (nothing a b p)⟩

theorem Sound.opened (sound : Sound operations providers memo) (a : α) : Sound operations providers (memo.opened a) where
  fresh a' b' p found := sound.fresh a' b' p (by rwa [Memo.find?_opened] at found)
  counted a' b' p found := by
    rw [Memo.entries_opened]
    exact sound.counted a' b' p (by rwa [Memo.find?_opened] at found)
  apart a₁ b₁ p₁ a₂ b₂ p₂ first second := by
    rw [Memo.find?_opened] at first second
    exact sound.apart a₁ b₁ p₁ a₂ b₂ p₂ first second

theorem Sound.stored (sound : Sound operations providers memo) {p : MadePlan}
    (fresh : ((operations a).plan (providers b)).1 = .ok p.toQueryPlan) (number : p.number = memo.entries.length) :
    Sound operations providers (memo.stored a b (some p)) := by
  refine ⟨fun a' b' q found => ?_, fun a' b' q found => ?_, fun a₁ b₁ p₁ a₂ b₂ p₂ first second same => ?_⟩
  · obtain ⟨⟨⟩, ⟨⟩⟩ | found := Memo.find?_stored_eq_some found
    · exact fresh
    · exact sound.fresh a' b' q found
  · rw [Memo.entries_stored, List.length_cons]
    obtain ⟨-, ⟨⟩⟩ | found := Memo.find?_stored_eq_some found
    · omega
    · exact Nat.lt_succ_of_lt (sound.counted a' b' q found)
  · obtain ⟨here, ⟨⟩⟩ | first := Memo.find?_stored_eq_some first <;>
      obtain ⟨here', ⟨⟩⟩ | second := Memo.find?_stored_eq_some second
    · exact here.symm.trans here'
    · exact absurd (sound.counted a₂ b₂ p₂ second) (by omega)
    · exact absurd (sound.counted a₁ b₁ p₁ first) (by omega)
    · exact sound.apart a₁ b₁ p₁ a₂ b₂ p₂ first second same

theorem Sound.attempt (sound : Sound operations providers memo) (a : α) (b : β) :
    Sound operations providers (attempt operations providers a b memo).2 := by
  obtain ⟨p, -, made⟩ | ⟨p, -, fresh, number, made⟩ | ⟨failure, -, -, made⟩ := attempt_cases operations providers a b memo
  · rw [made]
    exact sound.opened a
  · rw [made]
    exact (sound.opened a).stored fresh (by rw [number, Memo.entries_opened])
  · rw [made]
    exact sound.opened a

def Answers (operations : α → PreparedOperation) (providers : β → MetadataProvider) (memo : PlanMemo α β) (a : α) (b : β) :
    Except PlanFailure (Option MadePlan) → Prop
  | .ok made => ∃ p, made = some p ∧ memo.find? a b = some p
  | .error failure => ((operations a).plan (providers b)).1 = .error failure

theorem Answers.imp {memo' : PlanMemo α β} {outcome : Except PlanFailure (Option MadePlan)}
    (grows : ∀ p, memo.find? a b = some p → memo'.find? a b = some p)
    (answers : Answers operations providers memo a b outcome) : Answers operations providers memo' a b outcome := by
  cases outcome with
  | ok made =>
      obtain ⟨p, rfl, found⟩ := answers
      exact ⟨p, rfl, grows p found⟩
  | error failure => exact answers

theorem attempt_answers (operations : α → PreparedOperation) (providers : β → MetadataProvider) (a : α) (b : β)
    (memo : PlanMemo α β) : Answers operations providers (attempt operations providers a b memo).2 a b
      (attempt operations providers a b memo).1 := by
  obtain ⟨p, found, made⟩ | ⟨p, -, -, -, made⟩ | ⟨failure, -, failed, made⟩ := attempt_cases operations providers a b memo
  · rw [made]
    exact ⟨p, rfl, by rw [Memo.find?_opened, found]⟩
  · rw [made]
    exact ⟨p, rfl, Memo.find?_stored_self⟩
  · rw [made]
    exact failed

theorem attempt_grows {a' : α} {b' : β} {p : MadePlan} (found : memo.find? a' b' = some p) :
    (attempt operations providers a b memo).2.find? a' b' = some p := by
  obtain ⟨_, -, made⟩ | ⟨_, new, -, -, made⟩ | ⟨_, -, -, made⟩ := attempt_cases operations providers a b memo
  · rw [made, Memo.find?_opened, found]
  · have other : (a, b) ≠ (a', b') := by
      rintro ⟨⟩
      rw [new] at found
      contradiction
    rw [made, Memo.find?_stored_of_ne other, Memo.find?_opened, found]
  · rw [made, Memo.find?_opened, found]

theorem planAll_answers (calls : List (α × β)) (memo : PlanMemo α β) :
    (∀ a b p, memo.find? a b = some p → (planAll operations providers calls memo).2.find? a b = some p) ∧
    ∀ a b outcome, ((a, b), outcome) ∈ (planAll operations providers calls memo).1 →
      Answers operations providers (planAll operations providers calls memo).2 a b outcome := by
  induction calls generalizing memo with
  | nil => exact ⟨fun _ _ _ found => found, fun _ _ _ member => absurd member List.not_mem_nil⟩
  | cons call calls ih =>
      obtain ⟨a', b'⟩ := call
      obtain ⟨grows, answers⟩ := ih (attempt operations providers a' b' memo).2
      refine ⟨fun a b p found => grows a b p (attempt_grows found), fun a b outcome member => ?_⟩
      obtain here | later := List.mem_cons.1 member
      · obtain ⟨pair, rfl⟩ := Prod.mk.inj here
        obtain ⟨rfl, rfl⟩ := Prod.mk.inj pair
        exact (attempt_answers operations providers a b memo).imp (grows a b)
      · exact answers a b outcome later

theorem Sound.planAll (sound : Sound operations providers memo) (calls : List (α × β)) :
    Sound operations providers (planAll operations providers calls memo).2 := by
  induction calls generalizing memo with
  | nil => exact sound
  | cons call calls ih => exact ih (sound.attempt call.1 call.2)

theorem planAll_calls (calls : List (α × β)) (memo : PlanMemo α β) :
    (planAll operations providers calls memo).1.map (·.1) = calls := by
  induction calls generalizing memo with
  | nil => rfl
  | cons call calls ih => exact congrArg (call :: ·) (ih _)

/-- The calls were answered as if each plan were made anew, but with one plan for one pair and with no plan for two. -/
structure IsHistory (operations : α → PreparedOperation) (providers : β → MetadataProvider) (calls : List (α × β))
    (history : Memo.History α β MadePlan PlanFailure) : Prop where
  calls : history.map (·.1) = calls
  planned : ∀ a b made, ((a, b), .ok made) ∈ history →
    ∃ p, made = some p ∧ ((operations a).plan (providers b)).1 = .ok p.toQueryPlan
  failed : ∀ a b failure, ((a, b), .error failure) ∈ history → ((operations a).plan (providers b)).1 = .error failure
  once : ∀ a b p a' b' p', ((a, b), .ok (some p)) ∈ history → ((a', b'), .ok (some p')) ∈ history →
    (p.number = p'.number ↔ (a, b) = (a', b')) ∧ ((a, b) = (a', b') → p = p')

theorem planAll_isHistory (operations : α → PreparedOperation) (providers : β → MetadataProvider) (calls : List (α × β)) :
    IsHistory operations providers calls (planAll operations providers calls ⟨[]⟩).1 := by
  obtain ⟨-, answers⟩ := planAll_answers calls (⟨[]⟩ : PlanMemo α β)
  have sound : Sound operations providers (planAll operations providers calls ⟨[]⟩).2 := sound_empty.planAll calls
  have known (a : α) (b : β) (p : MadePlan) (member : ((a, b), .ok (some p)) ∈ (planAll operations providers calls ⟨[]⟩).1) :
      (planAll operations providers calls ⟨[]⟩).2.find? a b = some p := by
    obtain ⟨_, ⟨⟩, found⟩ := answers a b _ member
    exact found
  refine ⟨planAll_calls calls _, fun a b made member => ?_, fun a b failure member => answers a b _ member,
    fun a b p a' b' p' member member' => ?_⟩
  · obtain ⟨p, rfl, found⟩ := answers a b _ member
    exact ⟨p, rfl, sound.fresh a b p found⟩
  · have same (pairs : (a, b) = (a', b')) : p = p' := by
      obtain ⟨rfl, rfl⟩ := Prod.mk.inj pairs
      exact Option.some.inj ((known a b p member).symm.trans (known a b p' member'))
    exact ⟨⟨sound.apart a b p a' b' p' (known a b p member) (known a' b' p' member'), fun pairs => by rw [same pairs]⟩, same⟩

end PlanMemo

/-- Calls of a function that may fail, return nothing or keep a state; and of planning, for operations and providers. -/
theorem remembered_results_agree {α β γ ε σ : Type} [DecidableEq α] [DecidableEq β] (f : α → β → EStateM ε σ (Option γ))
    (start : σ) (operations : α → PreparedOperation) (providers : β → MetadataProvider) (calls : List (α × β)) :
    (∀ history memo s, Memo.attemptAll f calls ⟨[]⟩ start = (history, memo, s) → Memo.Recalls f history memo s ∧
      ∀ calls' start' history' memo' s' a b, Memo.attemptAll f calls' ⟨[]⟩ start' = (history', memo', s') →
        history'.outcomes a b = history.outcomes a b → memo'.find? a b = memo.find? a b) ∧
    PlanMemo.IsHistory operations providers calls (PlanMemo.planAll operations providers calls ⟨[]⟩).1 := by
  refine ⟨fun history memo s run => ⟨?_, fun calls' start' history' memo' s' a b run' same => ?_⟩,
    PlanMemo.planAll_isHistory operations providers calls⟩
  · have recalls := Memo.attemptAll_recalls (f := f) calls start
    rwa [run] at recalls
  · have value := Memo.find?_eq_value? (f := f) calls start a b
    have value' := Memo.find?_eq_value? (f := f) calls' start' a b
    rw [run] at value
    rw [run'] at value'
    rw [value, value', Memo.History.value?, Memo.History.value?, same]

example :
    let count (a b : Nat) : EStateM Unit Nat (Option (Nat × Nat × Nat)) := fun n =>
      .ok (if n = 0 then none else some (a, b, n)) (n + 1)
    (Memo.attemptAll count [(1, 2), (1, 2), (2, 1), (1, 2)] ⟨[]⟩ 0).1.map (·.2.toOption.join) =
      [none, some (1, 2, 1), some (2, 1, 2), some (1, 2, 1)] := by decide

end QueryPlanner
