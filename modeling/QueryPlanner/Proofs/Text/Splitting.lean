import QueryPlanner.Proofs.Schema.Cache
import QueryPlanner.Proofs.Text.Lines
import QueryPlanner.Proofs.Text.WellFormed

namespace QueryPlanner
open CodeUnit

namespace Text

variable {p : CodeUnit → Bool} {run run' after after' : Text} {n m : Nat}

theorem run_inj (all : ∀ u ∈ run, p u = true) (all' : ∀ u ∈ run', p u = true) (stops : after.Stops p)
    (stops' : after'.Stops p) (same : run ++ after = run' ++ after') : run = run' ∧ after = after' :=
  ⟨by rw [← takeWhile_append_of_stops all stops, same, takeWhile_append_of_stops all' stops'],
    by rw [← dropWhile_append_of_stops all stops, same, dropWhile_append_of_stops all' stops']⟩

theorem Stops.append (first : run.head?.any (!p ·) = true) (after : Text) : (run ++ after).Stops p := by
  cases run with
  | nil => simp at first
  | cons u rest => exact .cons (by simpa using first)

theorem isLine_append : IsLine (run ++ after) ↔ IsLine run ∧ IsLine after := List.forall_mem_append

theorem digit_bounds {c : Char} (digit : c.isDigit = true) : 48 ≤ c.toNat ∧ c.toNat ≤ 57 := by
  simpa [Char.isDigit, UInt32.le_iff_toNat_le] using digit

theorem ofCodePoint_digit {c : Char} (digit : c.isDigit = true) : ofCodePoint c.toNat = [c.toNat.toUInt16] := by
  have := digit_bounds digit
  rw [ofCodePoint, if_pos (by omega)]

theorem toNat_digit {c : Char} (digit : c.isDigit = true) : c.toNat.toUInt16.toNat = c.toNat := by
  have := digit_bounds digit
  exact Nat.mod_eq_of_lt (by omega)

theorem ofNat_eq (n : Nat) : ofNat n = (Nat.toDigits 10 n).map fun c => c.toNat.toUInt16 := by
  have digits := fun c => Nat.isDigit_of_mem_toDigits (b := 10) (n := n) (c := c) (by decide) (by decide)
  rw [ofNat, ofString, String.toList_ofList]
  generalize Nat.toDigits 10 n = written at digits
  induction written with
  | nil => rfl
  | cons c rest ih =>
      rw [List.flatMap_cons, ofCodePoint_digit (digits c List.mem_cons_self), ih fun c member =>
        digits c (List.mem_cons_of_mem _ member)]
      rfl

theorem isDigit_of_mem_ofNat {u : CodeUnit} (member : u ∈ ofNat n) : u.isDigit = true := by
  rw [ofNat_eq] at member
  obtain ⟨c, digit, rfl⟩ := List.mem_map.1 member
  have digit := Nat.isDigit_of_mem_toDigits (by decide) (by decide) digit
  have bounds := digit_bounds digit
  simpa [isDigit, UInt16.le_iff_toNat_le, toNat_digit digit] using bounds

theorem ofNat_ne_nil (n : Nat) : ofNat n ≠ [] := by
  rw [ofNat_eq, Ne, List.map_eq_nil_iff]
  exact Nat.toDigits_ne_nil

theorem map_char_ofNat (n : Nat) : (ofNat n).map (fun u => Char.ofNat u.toNat) = Nat.toDigits 10 n := by
  rw [ofNat_eq, List.map_map, List.map_congr_left (g := id), List.map_id]
  intro c member
  have digit := Nat.isDigit_of_mem_toDigits (by decide) (by decide) member
  rw [Function.comp_apply, toNat_digit digit, Char.ofNat_toNat, id]

theorem ofNat_inj (same : ofNat n = ofNat m) : n = m :=
  calc
    n = Nat.ofDigitChars 10 (Nat.toDigits 10 n) 0 := Nat.ofDigitChars_ten_toDigits.symm
    _ = Nat.ofDigitChars 10 (Nat.toDigits 10 m) 0 := by rw [← map_char_ofNat n, same, map_char_ofNat m]
    _ = m := Nat.ofDigitChars_ten_toDigits

end Text

variable {name name' after after' : Text} {path path' : List Text}

theorem IsNameText.all_continue (named : IsNameText name) : ∀ u ∈ name, isNameContinue u = true := by
  obtain ⟨u, rest, rfl, start, continues⟩ := named
  exact List.forall_mem_cons.2 ⟨by rw [CodeUnit.isNameContinue, start, Bool.true_or], continues⟩

theorem isLineEnd_of_isNameContinue {u : CodeUnit} (continues : u.isNameContinue = true) : u.isLineEnd = false := by
  apply Text.isLineEnd_of_ne <;> rintro rfl <;> contradiction

theorem IsNameText.isLine (named : IsNameText name) : Text.IsLine name := fun u member =>
  isLineEnd_of_isNameContinue (named.all_continue u member)

theorem IsNameText.ne_nil (named : IsNameText name) : name ≠ [] := by
  obtain ⟨u, rest, rfl, -⟩ := named
  exact List.cons_ne_nil u rest

theorem IsNameText.inj (named : IsNameText name) (named' : IsNameText name') (stops : after.Stops isNameContinue)
    (stops' : after'.Stops isNameContinue) (same : name ++ after = name' ++ after') : name = name' ∧ after = after' :=
  Text.run_inj named.all_continue named'.all_continue stops stops' same

theorem dot_text : (("." : String) : Text) = [dot] := by decide

theorem mem_join_names {u : CodeUnit} (named : ∀ name ∈ path, IsNameText name) (member : u ∈ Text.join "." path) :
    u = dot ∨ isNameContinue u = true := by
  rw [Text.join, dot_text] at member
  induction path with
  | nil => cases member
  | cons name rest ih =>
      rw [List.forall_mem_cons] at named
      cases rest with
      | nil => exact .inr (named.1.all_continue u (by simpa using member))
      | cons next rest =>
          rw [List.intercalate_cons_cons, List.mem_append, List.mem_append, List.mem_singleton] at member
          obtain (here | dot) | behind := member
          · exact .inr (named.1.all_continue u here)
          · exact .inl dot
          · exact ih named.2 behind

theorem join_eq_nil_iff (named : ∀ name ∈ path, IsNameText name) : Text.join "." path = [] ↔ path = [] := by
  refine ⟨fun empty => ?_, fun empty => empty ▸ rfl⟩
  cases path with
  | nil => rfl
  | cons name rest =>
      have filled := (named name List.mem_cons_self).ne_nil
      cases rest with
      | nil => exact absurd (by simpa [Text.join] using empty) filled
      | cons next rest => simp [Text.join, List.intercalate_cons_cons, filled] at empty

theorem join_names_inj (named : ∀ name ∈ path, IsNameText name) (named' : ∀ name ∈ path', IsNameText name)
    (same : Text.join "." path = Text.join "." path') : path = path' := by
  by_cases empty : path = []
  · rw [(join_eq_nil_iff named).2 empty] at same
    rw [empty, (join_eq_nil_iff named').1 same.symm]
  have filled' : path' ≠ [] := fun empty' => empty ((join_eq_nil_iff named).1 (same.trans (empty' ▸ rfl)))
  have split {path : List Text} (named : ∀ name ∈ path, IsNameText name) (filled : path ≠ []) :
      (Text.join "." path).splitOn dot = path := by
    rw [Text.join, dot_text]
    exact List.splitOn_intercalate dot (fun name member => (named name member).dot_not_mem) filled
  rw [← split named empty, same, split named' filled']

end QueryPlanner
