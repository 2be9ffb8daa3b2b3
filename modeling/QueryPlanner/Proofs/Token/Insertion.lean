import QueryPlanner.Proofs.Token.Fillers

namespace QueryPlanner
open CodeUnit

/-- The text, whose first unit has the offset, with what is added in front of its units and behind the last one. -/
def Text.insert (added : Nat → Text) : Nat → Text → Text
  | offset, [] => added offset
  | offset, u :: rest => added offset ++ u :: insert added (offset + 1) rest

def Source.insert (source : Source) (added : Nat → Text) : Source := { source with body := source.body.insert added 0 }

/-- Filler is added, and only in front of the source or where a token starts or ends. -/
structure Token.SetApart (added : Nat → Text) (tokens : List Token) : Prop where
  filler : ∀ offset, (added offset).IsFiller
  between : ∀ offset, 0 < offset → added offset ≠ [] → ∃ t ∈ tokens, offset = t.start ∨ offset = t.stop

namespace Text

variable {added : Nat → Text} {offset : Nat} {a b gap units rest : Text}

theorem insert_append (nonempty : a ≠ []) (inside : ∀ k, offset < k → k < offset + a.length → added k = []) :
    insert added offset (a ++ b) = added offset ++ (a ++ insert added (offset + a.length) b) := by
  induction a generalizing offset with
  | nil => contradiction
  | cons u a ih =>
      rw [List.cons_append, insert]
      cases a with
      | nil => rfl
      | cons v a =>
          have here : added (offset + 1) = [] :=
            inside (offset + 1) (Nat.lt_succ_self _) (by simp only [List.length_cons]; omega)
          have others : ∀ k, offset + 1 < k → k < offset + 1 + (v :: a).length → added k = [] := by
            intro k low high
            exact inside k (Nat.lt_of_succ_lt low) (by simp only [List.length_cons] at high ⊢; omega)
          rw [ih (List.cons_ne_nil v a) others, here, List.nil_append, List.length_cons (a := u), Nat.add_assoc,
            Nat.add_comm 1]
          rfl

theorem insert_gap (filler : ∀ k, (added k).IsFiller) (empty : gap.IsFiller) (nonempty : units ≠ [])
    (inside : ∀ k, offset < k → k < offset + (gap ++ units).length → k ≠ offset + gap.length → added k = []) :
    ∃ front : Text, front.IsFiller ∧ insert added offset (gap ++ (units ++ rest)) =
      front ++ (units ++ insert added (offset + (gap ++ units).length) rest) := by
  have behind : insert added (offset + gap.length) (units ++ rest) = added (offset + gap.length) ++
      (units ++ insert added (offset + gap.length + units.length) rest) :=
    insert_append nonempty fun k low high => inside k (by omega) (by rw [List.length_append]; omega) (Nat.ne_of_gt low)
  rw [Nat.add_assoc, ← List.length_append] at behind
  by_cases none : gap = []
  · subst none
    exact ⟨added offset, filler offset, behind⟩
  · have front : insert added offset (gap ++ (units ++ rest)) =
        added offset ++ (gap ++ insert added (offset + gap.length) (units ++ rest)) :=
      insert_append none fun k low high => inside k low (by rw [List.length_append]; omega) (Nat.ne_of_lt high)
    refine ⟨added offset ++ (gap ++ added (offset + gap.length)), (filler _).append (empty.append (filler _)), ?_⟩
    rw [front, behind]
    simp only [List.append_assoc]

theorem insert_ending (filler : ∀ k, (added k).IsFiller) (ending : gap.IsEnding)
    (inside : ∀ k, offset < k → k < offset + gap.length → added k = []) : (insert added offset gap).IsEnding := by
  by_cases none : gap = []
  · subst none
    exact .filler (filler offset)
  · have whole : insert added offset (gap ++ []) = added offset ++ (gap ++ added (offset + gap.length)) :=
      insert_append none inside
    rw [List.append_nil] at whole
    rw [whole]
    exact .prepend (filler _) (ending.append (filler _))

theorem insert_replaces (filler : ∀ k, (added k).IsFiller) (rest : Text) : (insert added offset rest).Replaces rest := by
  by_cases none : added offset = []
  · refine .inl ?_
    cases rest with
    | nil => exact congrArg List.head? none
    | cons u rest => rw [insert, none, List.nil_append, List.head?_cons, List.head?_cons]
  · refine .inr ?_
    cases rest with
    | nil =>
        have stops := (filler offset).stops none []
        rwa [List.append_nil] at stops
    | cons u rest => exact (filler offset).stops none _

end Text

namespace Laid

variable {offset : Nat} {text : Text} {tokens : List Token} {added : Nat → Text}

theorem holds_insert (laid : Laid offset text tokens) (filler : ∀ k, (added k).IsFiller)
    (between : ∀ k, offset < k → added k ≠ [] → ∃ t ∈ tokens, k = t.start ∨ k = t.stop) :
    (text.insert added offset).Holds ((tokens.filter (·.kind ≠ .endOfFile)).map Token.lexeme) := by
  induction laid with
  | @last offset gap t ending kind start stop =>
      rw [List.filter_cons_of_neg (by simpa using kind.1)]
      refine .ending (Text.insert_ending filler ending fun k low high => ?_)
      by_contra some
      obtain ⟨t', member, place⟩ := between k low some
      obtain rfl := List.mem_singleton.1 member
      omega
  | @cons offset gap units rest t tokens empty reads start stop laid ih =>
      -- The gap and the token stay whole: no token starts or ends inside, but for the place between the two.
      have length : t.stop = offset + (gap ++ units).length := by rw [stop, start, List.length_append, Nat.add_assoc]
      have inside : ∀ k, offset < k → k < offset + (gap ++ units).length → k ≠ offset + gap.length → added k = [] := by
        intro k low high other
        by_contra some
        obtain ⟨t', member, place⟩ := between k low some
        obtain rfl | member := List.mem_cons.1 member
        · omega
        · have := laid.bounds t' member
          omega
      have behind : ∀ k, t.stop < k → added k ≠ [] → ∃ t' ∈ tokens, k = t'.start ∨ k = t'.stop := by
        intro k low some
        obtain ⟨t', member, place⟩ := between k (by omega) some
        obtain rfl | member := List.mem_cons.1 member
        · omega
        · exact ⟨t', member, place⟩
      obtain ⟨front, filled, whole⟩ := Text.insert_gap filler empty reads.units_ne_nil inside
      rw [whole, List.filter_cons_of_pos (by simpa using reads.more), List.map_cons, ← length]
      exact .cons filled (reads.again _ (Text.insert_replaces filler rest)) (ih behind)

theorem map_kind_value (laid : Laid offset text tokens) : tokens.map (fun t => (t.kind, t.value)) =
    ((tokens.filter (·.kind ≠ .endOfFile)).map fun t => (t.lexeme.kind, t.lexeme.value)) ++ [(.endOfFile, [])] := by
  induction laid with
  | last _ kind _ _ =>
      rw [List.filter_cons_of_neg (by simpa using kind.1), List.map_singleton, kind.1, kind.2]
      rfl
  | cons _ reads _ _ _ ih =>
      rw [List.filter_cons_of_pos (by simpa using reads.more), List.map_cons, List.map_cons, ih, reads.lexeme]
      rfl

end Laid

namespace Source

variable {source : Source} {tokens : List Token} {added : Nat → Text}

theorem lexemes_of_tokens (read : source.tokens = .ok tokens) :
    source.lexemes = .ok ((tokens.filter (·.kind ≠ .endOfFile)).map Token.lexeme) := by
  rw [Source.lexemes, read]
  rfl

theorem lexemes_insert (read : source.tokens = .ok tokens) (apart : Token.SetApart added tokens) :
    (source.insert added).lexemes = source.lexemes := by
  have holds := (Source.laid read).holds_insert apart.filler apart.between
  rw [lexemes_of_tokens read]
  exact Text.Holds.source_lexemes holds

theorem tokens_insert (read : source.tokens = .ok tokens) (apart : Token.SetApart added tokens) : ∃ tokens',
    (source.insert added).tokens = .ok tokens' ∧
      tokens'.map (fun t => (t.kind, t.value)) = tokens.map fun t => (t.kind, t.value) := by
  have lexemes := lexemes_insert read apart
  rw [lexemes_of_tokens read] at lexemes
  obtain ⟨tokens', read'⟩ := Source.tokens_of_lexemes lexemes
  rw [lexemes_of_tokens read', Except.ok.injEq] at lexemes
  refine ⟨tokens', read', ?_⟩
  have values := congrArg (List.map fun l : Lexeme => (l.kind, l.value)) lexemes
  rw [List.map_map, List.map_map] at values
  rw [(Source.laid read').map_kind_value, (Source.laid read).map_kind_value]
  exact congrArg (· ++ _) values

end Source

end QueryPlanner
