/-!
Remembering the results of a function of two arguments. The first argument has a table of its own, made when it is first
met, in which the results stand by the second argument. An absent result counts as none, and a call that fails leaves
its table as it is.
-/

namespace QueryPlanner

/-- The tables by the first argument. Of the entries of a key, in a table and among the tables, the first one counts. -/
structure Memo (α β γ : Type) where
  tables : List (α × List (β × Option γ)) := []

namespace Memo

variable {α β γ ε σ : Type} [DecidableEq α] [DecidableEq β]

def opened (memo : Memo α β γ) (a : α) : Memo α β γ :=
  match memo.tables.lookup a with
  | some _ => memo
  | none => ⟨(a, []) :: memo.tables⟩

def table (memo : Memo α β γ) (a : α) : List (β × Option γ) := (memo.tables.lookup a).getD []

def find? (memo : Memo α β γ) (a : α) (b : β) : Option γ := ((memo.table a).lookup b).join

def stored (memo : Memo α β γ) (a : α) (b : β) (result : Option γ) : Memo α β γ :=
  ⟨(a, (b, result) :: memo.table a) :: memo.tables⟩

def entries (memo : Memo α β γ) : List ((α × β) × γ) :=
  memo.tables.filterMap fun (a, table) =>
    table.head?.bind fun (b, result) => result.map fun c => ((a, b), c)

def call {m : Type → Type} [Monad m] (f : α → β → m (Option γ)) (a : α) (b : β) (memo : Memo α β γ) :
    m (Option γ × Memo α β γ) :=
  let memo := memo.opened a
  match memo.find? a b with
  | some c => pure (some c, memo)
  | none => do
    let result ← f a b
    return (result, memo.stored a b result)

def attempt (f : α → β → EStateM ε σ (Option γ)) (a : α) (b : β) (memo : Memo α β γ) (s : σ) :
    Except ε (Option γ) × Memo α β γ × σ :=
  match call f a b memo s with
  | .ok (result, memo) s => (.ok result, memo, s)
  | .error e s => (.error e, memo.opened a, s)

abbrev History (α β γ ε : Type) := List ((α × β) × Except ε (Option γ))

def attemptAll (f : α → β → EStateM ε σ (Option γ)) :
    List (α × β) → Memo α β γ → σ → History α β γ ε × Memo α β γ × σ
  | [], memo, s => ([], memo, s)
  | (a, b) :: calls, memo, s =>
    let (outcome, memo, s) := attempt f a b memo s
    let (history, left) := attemptAll f calls memo s
    (((a, b), outcome) :: history, left)

end Memo

end QueryPlanner
