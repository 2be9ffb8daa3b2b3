import QueryPlanner.Proofs.Syntax.Grammar

namespace QueryPlanner.Grammar
open Lexeme (mark word)

variable {α β : Type} {G : List Lexeme → α → Prop} {H : List Lexeme → β → Prop} {ls ls' whole : List Lexeme}

/-- The token sequence begins a derivation. -/
def Viable (G : List Lexeme → α → Prop) (ls : List Lexeme) : Prop := ∃ rest part, G (ls ++ rest) part

namespace Viable

theorem of_append {part : α} (rest : List Lexeme) (derives : G whole part) (whole_eq : ls ++ rest = whole) : Viable G ls :=
  ⟨rest, part, whole_eq ▸ derives⟩

theorem of_derives {part : α} (derives : G ls part) : Viable G ls := .of_append [] derives (List.append_nil ls)

theorem left (viable : Viable G (ls ++ ls')) : Viable G ls := by
  obtain ⟨rest, part, derives⟩ := viable
  exact .of_append (ls' ++ rest) derives (List.append_assoc ..).symm

theorem nil (viable : Viable G ls) : Viable G [] := (show Viable G ([] ++ ls) from viable).left

theorem cut (start : List Lexeme) (viable : Viable G (start ++ ls)) : Viable G (start ++ []) :=
  (List.append_nil start).symm ▸ viable.left

theorem lift (start : List Lexeme) (complete : ∀ ls part, H ls part → Viable G (start ++ ls)) (viable : Viable H ls) :
    Viable G (start ++ ls) := by
  obtain ⟨rest, part, derives⟩ := viable
  have whole := complete _ part derives
  rw [← List.append_assoc] at whole
  exact whole.left

theorem mono (weaker : ∀ ls part, H ls part → Viable G ls) (viable : Viable H ls) : Viable G ls :=
  lift [] weaker viable

end Viable

def OneOrMore (G : List Lexeme → α → Prop) (ls : List Lexeme) (parts : List α) : Prop := Sequence G ls parts ∧ parts ≠ []

theorem OneOrMore.viable_cons {part : α} (derives : G ls part) (viable : Viable (OneOrMore G) ls') :
    Viable (OneOrMore G) (ls ++ ls') := by
  obtain ⟨rest, parts, others, -⟩ := viable
  exact .of_append rest ⟨.cons derives others, List.cons_ne_nil _ _⟩ (List.append_assoc ..)

theorem Viable.oneOrMore (viable : Viable G ls) : Viable (OneOrMore G) ls :=
  viable.mono fun ls part derives => .of_derives ⟨List.append_nil ls ▸ .cons derives .nil, List.cons_ne_nil part []⟩

theorem isSelectionSet_a : IsSelectionSet [mark .braceOpen, word "a", mark .braceClose]
    ⟨[.field ⟨none, { text := "a" }, [], none, [], none, none⟩], none⟩ :=
  .intro (.cons (.field (.intro (.plain "a") .absent (.unmarked .absent) .nil .absent)) .nil) (List.cons_ne_nil _ _)

end QueryPlanner.Grammar
