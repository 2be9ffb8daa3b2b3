import QueryPlanner.Proofs.Token.Insertion

namespace QueryPlanner

theorem Text.Replaces.ofCut {after rest : Text} (front : after <+: rest) : after.Replaces rest := by
  obtain ⟨behind, rfl⟩ := front
  cases after with
  | nil => exact .inr .nil
  | cons u after => exact .inl rfl

namespace Laid

variable {offset : Nat} {body text : Text} {t first last : Token} {tokens ts front back : List Token}

theorem from_token (laid : Laid offset text (front ++ t :: back)) :
    ∃ passed rest, text = passed ++ rest ∧ t.start = offset + passed.length ∧ Laid t.start rest (t :: back) := by
  generalize split : front ++ t :: back = tokens at laid
  induction laid generalizing front with
  | @last offset gap eof _ kind start stop =>
      obtain ⟨rfl, same⟩ | ⟨_, nothing⟩ := List.append_eq_cons_iff.1 split
      · obtain ⟨rfl, rfl⟩ := List.cons.inj same
        exact ⟨gap, [], (List.append_nil _).symm, start, .last (.filler .nil) kind rfl stop⟩
      · simp at nothing
  | @cons offset gap units rest first tokens _ reads start stop behind ih =>
      obtain ⟨rfl, same⟩ | ⟨front, rfl, same⟩ := List.append_eq_cons_iff.1 split
      · obtain ⟨rfl, rfl⟩ := List.cons.inj same
        exact ⟨gap, units ++ rest, rfl, start, .cons .nil reads rfl stop behind⟩
      · obtain ⟨passed, rest, rfl, start', here⟩ := ih same.symm
        refine ⟨gap ++ (units ++ passed), rest, by simp only [List.append_assoc], ?_, here⟩
        simp only [List.length_append]
        omega

theorem holds_front (laid : Laid offset text (ts ++ back)) (ends : ts.getLast? = some last) :
    ∃ taken rest : Text, text = taken ++ rest ∧ last.stop = offset + taken.length ∧
      taken.Holds ((ts.filter (·.kind ≠ .endOfFile)).map Token.lexeme) := by
  generalize split : ts ++ back = tokens at laid
  induction laid generalizing ts with
  | @last offset gap eof ending kind start stop =>
      obtain ⟨rfl, -⟩ | ⟨others, rfl, nothing⟩ := List.append_eq_cons_iff.1 split
      · contradiction
      · obtain ⟨rfl, -⟩ := List.append_eq_nil_iff.1 nothing.symm
        obtain rfl := Option.some.inj ends
        refine ⟨gap, [], (List.append_nil _).symm, stop.trans start, ?_⟩
        rw [List.filter_cons_of_neg (by simpa using kind.1)]
        exact .ending ending
  | @cons offset gap units rest first tokens filler reads start stop _ ih =>
      obtain ⟨rfl, -⟩ | ⟨others, rfl, same⟩ := List.append_eq_cons_iff.1 split
      · contradiction
      rw [List.filter_cons_of_pos (by simpa using reads.more), List.map_cons]
      cases others with
      | nil =>
          -- The text is cut off behind this token.
          rw [List.getLast?_singleton] at ends
          obtain rfl := Option.some.inj ends
          refine ⟨gap ++ (units ++ []), rest, by simp only [List.append_assoc, List.nil_append], ?_, ?_⟩
          · simp only [List.length_append, List.length_nil]
            omega
          · exact .cons filler (reads.again [] (.ofCut List.nil_prefix)) (.ending (.filler .nil))
      | cons second others =>
          rw [List.getLast?_cons_cons] at ends
          obtain ⟨taken, behind, rfl, stop', holds⟩ := ih ends same.symm
          refine ⟨gap ++ (units ++ taken), behind, by simp only [List.append_assoc], ?_, ?_⟩
          · simp only [List.length_append]
            omega
          · exact .cons filler (reads.again taken (.ofCut (List.prefix_append taken behind))) holds

theorem slice_holds (laid : Laid 0 body tokens) (among : ts <:+: tokens) (begins : ts.head? = some first)
    (ends : ts.getLast? = some last) :
    (body.slice first.start last.stop).Holds ((ts.filter (·.kind ≠ .endOfFile)).map Token.lexeme) := by
  obtain ⟨front, back, rfl⟩ := among
  obtain ⟨others, rfl⟩ := List.head?_eq_some_iff.1 begins
  rw [List.append_assoc] at laid
  obtain ⟨passed, text, rfl, start, here⟩ := laid.from_token
  have here : Laid first.start text (first :: others ++ back) := here
  obtain ⟨taken, rest, rfl, stop, holds⟩ := here.holds_front ends
  have behind : (passed ++ (taken ++ rest)).drop first.start = taken ++ rest := by
    rw [start, Nat.zero_add]
    exact List.drop_left
  rwa [stop, Text.slice_of_drop behind]

end Laid

def Source.excerpt (source : Source) (start stop : Nat) : Source := { body := source.body.slice start stop }

theorem Source.lexemes_excerpt {source : Source} {tokens ts : List Token} {first last : Token}
    (read : source.tokens = .ok tokens) (among : ts <:+: tokens) (begins : ts.head? = some first)
    (ends : ts.getLast? = some last) :
    (source.excerpt first.start last.stop).lexemes = .ok ((ts.filter (·.kind ≠ .endOfFile)).map Token.lexeme) := by
  have holds := (Source.laid read).slice_holds among begins ends
  exact Text.Holds.source_lexemes holds

end QueryPlanner
