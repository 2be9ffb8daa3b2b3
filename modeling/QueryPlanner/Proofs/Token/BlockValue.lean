import QueryPlanner.Proofs.Token.BlockLiteral
import Mathlib.Tactic.SplitIfs

namespace QueryPlanner

namespace Text
open CodeUnit

variable {text a b : Text} {lines : List Text}

theorem not_mem_splitOn (u : CodeUnit) (text : Text) : ∀ line ∈ text.splitOn u, u ∉ line := by
  induction text with
  | nil =>
      rw [List.splitOn_nil]
      exact List.forall_mem_singleton.2 List.not_mem_nil
  | cons v rest ih =>
      rw [List.splitOn_cons_eq_if_modifyHead]
      split_ifs with same
      · exact List.forall_mem_cons.2 ⟨List.not_mem_nil, ih⟩
      · obtain ⟨first, others, split⟩ := List.exists_cons_of_ne_nil (List.splitOn_ne_nil u rest)
        rw [split, List.forall_mem_cons] at ih
        rw [split, List.modifyHead_cons, List.forall_mem_cons]
        exact ⟨fun member => (List.mem_cons.1 member).elim (fun here => same (by rw [here, beq_self_eq_true])) ih.1, ih.2⟩

theorem unlines_splitOn (text : Text) : unlines (text.splitOn lineFeed) = text := List.intercalate_splitOn lineFeed

theorem splitOn_unlines (inside : ∀ line ∈ lines, lineFeed ∉ line) (some : lines ≠ []) :
    (unlines lines).splitOn lineFeed = lines :=
  List.splitOn_intercalate lineFeed inside some

theorem mem_unlines {u : CodeUnit} (member : u ∈ unlines lines) : u = lineFeed ∨ ∃ line ∈ lines, u ∈ line := by
  induction lines with
  | nil => contradiction
  | cons line rest ih =>
      cases rest with
      | nil => exact .inr ⟨line, List.mem_cons_self, by simpa using member⟩
      | cons next rest =>
          rw [unlines_cons_cons, List.mem_append, List.mem_cons] at member
          obtain here | feed | below := member
          · exact .inr ⟨line, List.mem_cons_self, here⟩
          · exact .inl feed
          · exact (ih below).imp_right fun ⟨line, member, inside⟩ => ⟨line, List.mem_cons_of_mem _ member, inside⟩

theorem mem_unlines_of_mem {u : CodeUnit} {line : Text} (member : line ∈ lines) (inside : u ∈ line) : u ∈ unlines lines := by
  induction lines with
  | nil => contradiction
  | cons first rest ih =>
      cases rest with
      | nil =>
          obtain rfl := List.mem_singleton.1 member
          simpa using inside
      | cons next rest =>
          rw [unlines_cons_cons, List.mem_append, List.mem_cons]
          obtain rfl | below := List.mem_cons.1 member
          · exact .inl inside
          · exact .inr (.inr (ih below))

end Text

namespace BlockString
open CodeUnit Text

variable {text : Text}

structure IsTidy (text : Text) : Prop where
  noReturn : carriageReturn ∉ text
  trimmed : Trimmed (text.splitOn lineFeed)

theorem normal_iff : Normal text ↔ text.WellFormed ∧ (text = [] ∨ IsTidy text) := by
  constructor
  · rintro ⟨lines, rfl, trimmed, plain⟩
    refine ⟨wellFormed_unlines.2 fun line member => (plain line member).1, ?_⟩
    cases lines with
    | nil => exact .inl rfl
    | cons first others =>
        have noEnd (line : Text) (member : line ∈ first :: others) (u : CodeUnit) (inside : u ∈ line) : u.isLineEnd = false :=
          (plain line member).2 u inside
        refine .inr ⟨fun member => ?_, ?_⟩
        · obtain feed | ⟨line, member, inside⟩ := mem_unlines member
          · contradiction
          · exact absurd (noEnd line member _ inside) (by decide)
        · rwa [splitOn_unlines (fun line member inside => absurd (noEnd line member _ inside) (by decide)) (List.cons_ne_nil _ _)]
  · rintro ⟨wellFormed, rfl | ⟨noReturn, trimmed⟩⟩
    · exact ⟨[], rfl, ⟨nofun, nofun, nofun⟩, nofun⟩
    · have split := unlines_splitOn text
      refine ⟨_, split.symm, trimmed, fun line member => ⟨?_, fun u inside => ?_⟩⟩
      · rw [← split] at wellFormed
        exact wellFormed_unlines.1 wellFormed line member
      · have feed : u ≠ lineFeed := fun same => not_mem_splitOn lineFeed text line member (same ▸ inside)
        have back : u ≠ carriageReturn := by
          rintro rfl
          exact noReturn (split ▸ mem_unlines_of_mem member inside)
        simp [isLineEnd, feed, back]

end BlockString

end QueryPlanner
