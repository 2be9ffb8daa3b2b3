namespace QueryPlanner.Run

variable {ε σ α β : Type} {s s' : σ}

@[simp] theorem bind_ok {p : EStateM ε σ α} {f : α → EStateM ε σ β} {b : β} :
    (p >>= f) s = .ok b s' ↔ ∃ a s₁, p s = .ok a s₁ ∧ f a s₁ = .ok b s' := by
  change EStateM.bind p f s = _ ↔ _
  unfold EStateM.bind
  cases p s with
  | ok a s₁ => exact ⟨fun h => ⟨a, s₁, rfl, h⟩, by rintro ⟨_, _, ⟨⟩, h⟩; exact h⟩
  | error e s₁ => simp

theorem bind_of_ok {p : EStateM ε σ α} {f : α → EStateM ε σ β} {a : α} {s₁ : σ} (first : p s = .ok a s₁) :
    (p >>= f) s = f a s₁ := by
  change EStateM.bind p f s = _
  rw [EStateM.bind, first]

theorem bind_of_error {p : EStateM ε σ α} {f : α → EStateM ε σ β} {e : ε} {s₁ : σ} (failed : p s = .error e s₁) :
    (p >>= f) s = .error e s₁ := by
  change EStateM.bind p f s = _
  rw [EStateM.bind, failed]

theorem bind_error {p : EStateM ε σ α} {f : α → EStateM ε σ β} {e : ε} :
    (p >>= f) s = .error e s' ↔ p s = .error e s' ∨ ∃ a s₁, p s = .ok a s₁ ∧ f a s₁ = .error e s' := by
  cases run : p s with
  | ok a s₁ =>
      rw [bind_of_ok run]
      refine ⟨fun h => .inr ⟨a, s₁, rfl, h⟩, ?_⟩
      rintro (failed | ⟨_, _, ⟨⟩, h⟩)
      · contradiction
      · exact h
  | error e₁ s₁ => simp [bind_of_error run]

@[simp] theorem pure_ok {a b : α} : (pure a : EStateM ε σ α) s = .ok b s' ↔ a = b ∧ s = s' := by
  change EStateM.Result.ok a s = _ ↔ _
  simp

@[simp] theorem map_ok {p : EStateM ε σ α} {f : α → β} {b : β} :
    (f <$> p) s = .ok b s' ↔ ∃ a, p s = .ok a s' ∧ f a = b := by
  change EStateM.map f p s = _ ↔ _
  unfold EStateM.map
  cases p s with
  | ok a s₁ => simp only [EStateM.Result.ok.injEq]; exact ⟨fun h => ⟨a, ⟨rfl, h.2⟩, h.1⟩, by rintro ⟨_, ⟨rfl, e⟩, h⟩; exact ⟨h, e⟩⟩
  | error e s₁ => simp

@[simp] theorem get_bind {f : σ → EStateM ε σ β} : ((get : EStateM ε σ σ) >>= f) s = f s s := rfl

@[simp] theorem get_ok {a : σ} : (get : EStateM ε σ σ) s = .ok a s' ↔ s = a ∧ s = s' := by
  change EStateM.Result.ok s s = _ ↔ _
  simp

@[simp] theorem set_ok {t : σ} {u : PUnit} : (set t : EStateM ε σ PUnit) s = .ok u s' ↔ t = s' := by
  change EStateM.Result.ok _ t = _ ↔ _
  simp

@[simp] theorem modify_ok {f : σ → σ} {u : PUnit} : (modify f : EStateM ε σ PUnit) s = .ok u s' ↔ f s = s' := by
  change EStateM.Result.ok _ (f s) = _ ↔ _
  simp

@[simp] theorem throw_ok {e : ε} {a : α} : ¬ (throw e : EStateM ε σ α) s = .ok a s' := by
  change ¬ EStateM.Result.error e s = _
  simp

theorem except_bind_ok {x : Except ε α} {f : α → Except ε β} {b : β} :
    (x >>= f) = .ok b ↔ ∃ a, x = .ok a ∧ f a = .ok b := by
  cases x with
  | ok a => exact ⟨fun h => ⟨a, rfl, h⟩, by rintro ⟨_, ⟨⟩, h⟩; exact h⟩
  | error e => exact ⟨nofun, by rintro ⟨_, ⟨⟩, _⟩⟩

theorem except_bind_error {x : Except ε α} {f : α → Except ε β} {e : ε} :
    (x >>= f) = .error e ↔ x = .error e ∨ ∃ a, x = .ok a ∧ f a = .error e := by
  cases x with
  | ok a => exact ⟨fun h => .inr ⟨a, rfl, h⟩, by rintro (⟨⟨⟩⟩ | ⟨_, ⟨⟩, h⟩); exact h⟩
  | error d =>
      change Except.error d = .error e ↔ _
      simp

theorem foldlM_ok {step : β → α → Except ε β} {items : List α} {b b' : β} (holds : List α → β → Prop)
    (next : ∀ done a c c', holds done c → step c a = .ok c' → holds (done ++ [a]) c')
    {done : List α} (start : holds done b) (run : items.foldlM step b = .ok b') : holds (done ++ items) b' := by
  induction items generalizing done b with
  | nil =>
      obtain rfl := Except.ok.inj run
      rwa [List.append_nil]
  | cons a items ih =>
      obtain ⟨c, first, others⟩ := except_bind_ok.1 run
      rw [List.append_cons]
      exact ih (next done a b c start first) others

theorem exists_foldlM_ok {step : β → α → Except ε β} {items : List α} {b : β} (holds : List α → β → Prop)
    (next : ∀ done a c c', holds done c → step c a = .ok c' → holds (done ++ [a]) c') {done : List α}
    (returns : ∀ front a back c, done ++ items = front ++ a :: back → holds front c → ∃ c', step c a = .ok c')
    (start : holds done b) : ∃ b', items.foldlM step b = .ok b' := by
  induction items generalizing done b with
  | nil => exact ⟨b, rfl⟩
  | cons a items ih =>
      obtain ⟨c, first⟩ := returns done a items b rfl start
      rw [List.append_cons] at returns
      obtain ⟨b', others⟩ := ih returns (next done a b c start first)
      exact ⟨b', except_bind_ok.2 ⟨c, first, others⟩⟩

theorem exists_of_isOk {x : Except ε α} (ok : x.isOk = true) : ∃ a, x = .ok a := by
  cases x with
  | error => contradiction
  | ok a => exact ⟨a, rfl⟩

def Ends (returns : α → σ → Prop) (fails : ε → Prop) : Except ε (α × σ) → Prop
  | .ok (a, s) => returns a s
  | .error e => fails e

theorem Ends.imp {returns returns' : α → σ → Prop} {fails fails' : ε → Prop} {run : Except ε (α × σ)}
    (ends : Ends returns fails run) (returned : ∀ a s, returns a s → returns' a s) (failed : ∀ e, fails e → fails' e) :
    Ends returns' fails' run := by
  cases run with
  | ok result => exact returned _ _ ends
  | error e => exact failed e ends

theorem Ends.bind {p : StateT σ (Except ε) α} {f : α → StateT σ (Except ε) β} {returns : α → σ → Prop}
    {returns' : β → σ → Prop} {fails fails' : ε → Prop} (first : Ends returns fails (p.run s))
    (failed : ∀ e, fails e → fails' e) (next : ∀ a t, returns a t → Ends returns' fails' ((f a).run t)) :
    Ends returns' fails' ((p >>= f).run s) := by
  rw [StateT.run_bind]
  cases ended : p.run s with
  | ok result => exact next result.1 result.2 (by rwa [ended] at first)
  | error e => exact failed e (by rwa [ended] at first)

def Alike (same : σ → σ → Prop) : Except ε (α × σ) → Except ε (α × σ) → Prop
  | .ok (a, s), .ok (b, t) => a = b ∧ same s t
  | .error d, .error e => d = e
  | _, _ => False

theorem Alike.eq {same : σ → σ → Prop} {x y : Except ε (α × σ)} (alike : Alike same x y)
    (equal : ∀ s t, same s t → s = t) : x = y := by
  cases x <;> cases y
  case error.error => exact congrArg Except.error alike
  case ok.ok a b => exact congrArg Except.ok (Prod.ext alike.1 (equal _ _ alike.2))
  all_goals contradiction

theorem Alike.error_iff {same : σ → σ → Prop} {x y : Except ε (α × σ)} (alike : Alike same x y) {e : ε} :
    x = .error e ↔ y = .error e := by
  cases x <;> cases y
  case error.error d e' => rw [show d = e' from alike]
  case ok.ok => exact iff_of_false nofun nofun
  all_goals contradiction

theorem Alike.bind {same : σ → σ → Prop} {p q : StateT σ (Except ε) α} {f g : α → StateT σ (Except ε) β} {t : σ}
    (first : Alike same (p.run s) (q.run t))
    (next : ∀ a s' t', same s' t' → Alike same ((f a).run s') ((g a).run t')) :
    Alike same ((p >>= f).run s) ((q >>= g).run t) := by
  rw [StateT.run_bind, StateT.run_bind]
  cases left : p.run s <;> cases right : q.run t <;> rw [left, right] at first
  case error.error d e => exact first
  case ok.ok a b =>
    obtain ⟨same, states⟩ := first
    change Alike _ ((f a.1).run a.2) ((g b.1).run b.2)
    rw [same]
    exact next b.1 a.2 b.2 states
  all_goals contradiction

end QueryPlanner.Run
