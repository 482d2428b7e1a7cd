/-!
# Pieces between separators

A text is its pieces with a separator between each two of them. Some pieces in the middle stand
behind those before them, each with a separator at its end, and in front of those after them, each
with a separator at its start. -/

namespace FusionTree.Text

variable {sep x : Char} {text piece : List Char} {pieces before after : List (List Char)}

/-- The recursion that both lines and segments are cut by. -/
theorem eq_splitOn {f : List Char → List (List Char)} (nil : f [] = [[]])
    (cons : ∀ c rest, f (c :: rest) = if c = sep then [] :: f rest
      else match f rest with
        | [] => [[c]]
        | first :: more => (c :: first) :: more)
    (text : List Char) : f text = text.splitOn sep := by
  induction text with
  | nil => exact nil
  | cons c rest ih =>
    rw [cons, List.splitOn_cons_eq_if_modifyHead, ih]
    obtain ⟨first, more, split⟩ := List.exists_cons_of_ne_nil (List.splitOn_ne_nil sep rest)
    by_cases same : c = sep <;> simp [same, split]

theorem not_mem_of_mem_splitOn (h : piece ∈ text.splitOn sep) : sep ∉ piece := by
  induction text generalizing piece with
  | nil => simp_all
  | cons d rest ih =>
    rw [List.splitOn_cons_eq_if_modifyHead] at h
    obtain ⟨first, more, split⟩ := List.exists_cons_of_ne_nil (List.splitOn_ne_nil sep rest)
    rw [split] at h ih
    by_cases same : d = sep
    · simp only [same, BEq.rfl, if_true, List.mem_cons] at h
      rcases h with rfl | h
      · exact List.not_mem_nil
      · exact ih (List.mem_cons.mpr h)
    · simp only [beq_iff_eq, same, if_false, List.modifyHead_cons, List.mem_cons] at h
      rcases h with rfl | h
      · exact List.not_mem_cons_of_ne_of_not_mem (Ne.symm same) (ih List.mem_cons_self)
      · exact ih (List.mem_cons_of_mem _ h)

theorem mem_intercalate (ne : x ≠ sep) (pieces : List (List Char)) :
    x ∈ [sep].intercalate pieces ↔ ∃ piece ∈ pieces, x ∈ piece := by
  match pieces with
  | [] => simp
  | [piece] => simp
  | piece :: second :: more =>
    rw [List.intercalate_cons_cons, List.mem_append, List.mem_append, List.mem_singleton,
      or_iff_left ne, mem_intercalate ne (second :: more)]
    simp only [List.mem_cons, exists_eq_or_imp]

/-- Pieces in front of others, each with a separator at its end. -/
def leading (sep : Char) (pieces : List (List Char)) : List Char :=
  pieces.flatMap (· ++ [sep])

/-- Pieces behind others, each with a separator at its start. -/
def trailing (sep : Char) (pieces : List (List Char)) : List Char :=
  pieces.flatMap (sep :: ·)

@[simp] theorem leading_nil (sep : Char) : leading sep [] = [] := rfl

@[simp] theorem leading_cons (sep : Char) (piece : List Char) (pieces : List (List Char)) :
    leading sep (piece :: pieces) = piece ++ sep :: leading sep pieces := by
  simp [leading]

@[simp] theorem trailing_nil (sep : Char) : trailing sep [] = [] := rfl

@[simp] theorem trailing_cons (sep : Char) (piece : List Char) (pieces : List (List Char)) :
    trailing sep (piece :: pieces) = sep :: (piece ++ trailing sep pieces) := rfl

theorem trailing_append (sep : Char) (pieces after : List (List Char)) :
    trailing sep (pieces ++ after) = trailing sep pieces ++ trailing sep after :=
  List.flatMap_append

theorem intercalate_cons (sep : Char) (piece : List Char) (pieces : List (List Char)) :
    [sep].intercalate (piece :: pieces) = piece ++ trailing sep pieces := by
  induction pieces generalizing piece with
  | nil => simp
  | cons second more ih =>
    rw [List.intercalate_cons_cons, ih, trailing_cons, List.append_assoc, List.singleton_append]

theorem intercalate_append_right (ne : pieces ≠ []) (after : List (List Char)) :
    [sep].intercalate (pieces ++ after) = [sep].intercalate pieces ++ trailing sep after := by
  obtain ⟨piece, more, rfl⟩ := List.exists_cons_of_ne_nil ne
  rw [List.cons_append, intercalate_cons, intercalate_cons, trailing_append, List.append_assoc]

theorem intercalate_append_left (before : List (List Char)) (ne : pieces ≠ []) :
    [sep].intercalate (before ++ pieces) = leading sep before ++ [sep].intercalate pieces := by
  induction before with
  | nil => rfl
  | cons piece before ih =>
    rw [List.cons_append, List.intercalate_cons_of_ne_nil (List.append_ne_nil_of_right_ne_nil _ ne),
      ih, leading_cons, List.append_assoc, List.append_assoc, List.singleton_append,
      List.cons_append]

/-- Each piece in front counts for one separator. -/
theorem count_leading (h : ∀ piece ∈ before, sep ∉ piece) :
    (leading sep before).count sep = before.length := by
  induction before with
  | nil => rfl
  | cons piece before ih =>
    rw [leading_cons, List.count_append, List.count_cons_self,
      List.count_eq_zero_of_not_mem (h piece List.mem_cons_self),
      ih fun other mem => h other (List.mem_cons_of_mem _ mem), List.length_cons, Nat.zero_add]

theorem count_trailing (h : ∀ piece ∈ after, sep ∉ piece) :
    (trailing sep after).count sep = after.length := by
  induction after with
  | nil => rfl
  | cons piece after ih =>
    rw [trailing_cons, List.count_cons_self, List.count_append,
      List.count_eq_zero_of_not_mem (h piece List.mem_cons_self),
      ih fun other mem => h other (List.mem_cons_of_mem _ mem), List.length_cons, Nat.zero_add]

/-- Each piece but one counts for one separator. -/
theorem count_intercalate (h : ∀ piece ∈ pieces, sep ∉ piece) (ne : pieces ≠ []) :
    ([sep].intercalate pieces).count sep + 1 = pieces.length := by
  obtain ⟨piece, more, rfl⟩ := List.exists_cons_of_ne_nil ne
  rw [intercalate_cons, List.count_append,
    List.count_eq_zero_of_not_mem (h piece List.mem_cons_self),
    count_trailing fun other mem => h other (List.mem_cons_of_mem _ mem), Nat.zero_add,
    List.length_cons]

end FusionTree.Text
