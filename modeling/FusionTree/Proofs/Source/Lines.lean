import FusionTree.Proofs.Source.Positions
import FusionTree.Proofs.Text.Splitting
import FusionTree.Report.Excerpt

/-!
# Lines of a source

The line of a position is one more than the newlines before it.
-/

namespace FusionTree

namespace Text

variable {text before after line : List Char} {lines : List (List Char)}

theorem lines_eq_splitOn (text : List Char) : Text.lines text = text.splitOn '\n' :=
  eq_splitOn rfl (fun _ _ => rfl) text

theorem intercalate_lines (text : List Char) : ['\n'].intercalate (Text.lines text) = text := by
  rw [lines_eq_splitOn, List.intercalate_splitOn]

theorem lines_ne_nil (text : List Char) : Text.lines text ≠ [] := by
  rw [lines_eq_splitOn]
  exact List.splitOn_ne_nil _ _

theorem not_mem_of_mem_lines (h : line ∈ Text.lines text) : '\n' ∉ line := by
  rw [lines_eq_splitOn] at h
  exact not_mem_of_mem_splitOn h

theorem count_newline (text : List Char) : text.count '\n' + 1 = (Text.lines text).length := by
  have count := count_intercalate (fun _ => not_mem_of_mem_lines) (lines_ne_nil text)
  rwa [intercalate_lines] at count

theorem startingBefore_append (before after : List Char) :
    startingBefore (byteLength before) (before ++ after) = before := by
  induction before with
  | nil => cases after <;> rfl
  | cons c before ih =>
    have pos := c.utf8Size_pos
    obtain ⟨n, size⟩ : ∃ n, c.utf8Size + byteLength before = n + 1 :=
      ⟨_, (Nat.succ_pred (by omega)).symm⟩
    rw [byteLength_cons, List.cons_append, size, startingBefore, ← size,
      Nat.add_sub_cancel_left, ih]

end Text

namespace LineCol

theorem line_foldl_advance (text : List Char) (p : LineCol) :
    (text.foldl advance p).line = p.line + text.count '\n' := by
  induction text generalizing p with
  | nil => rfl
  | cons c rest ih =>
    rw [List.foldl_cons, ih, advance]
    by_cases newline : c = '\n'
    · rw [if_pos newline, newline, List.count_cons_self]
      simp only
      omega
    · rw [if_neg newline, List.count_cons_of_ne newline]

theorem ofOffset_append (before after : List Char) :
    ofOffset (before ++ after) (Text.byteLength before) = before.foldl advance first := by
  rw [ofOffset, Text.startingBefore_append]

/-- The line of a position is one more than the newlines before it. -/
theorem line_ofOffset (before after : List Char) :
    (ofOffset (before ++ after) (Text.byteLength before)).line = before.count '\n' + 1 := by
  rw [ofOffset_append, line_foldl_advance, Nat.add_comm]
  rfl

/-- Behind whole lines, a line starts. -/
theorem foldl_advance_leading {lines : List (List Char)} (h : ∀ line ∈ lines, '\n' ∉ line)
    (number : Nat) : (Text.leading '\n' lines).foldl advance ⟨number, 1⟩ =
      ⟨number + lines.length, 1⟩ := by
  induction lines generalizing number with
  | nil => rfl
  | cons line lines ih =>
    have behind : advance (line.foldl advance ⟨number, 1⟩) '\n' = ⟨number + 1, 1⟩ := by
      rw [advance, if_pos rfl, line_foldl_advance,
        List.count_eq_zero_of_not_mem (h line List.mem_cons_self), Nat.add_zero]
    rw [Text.leading_cons, List.foldl_append, List.foldl_cons, behind,
      ih fun other mem => h other (List.mem_cons_of_mem _ mem), List.length_cons, Nat.add_assoc,
      Nat.add_comm 1]

end LineCol

end FusionTree
