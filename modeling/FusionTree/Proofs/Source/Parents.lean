import FusionTree.Proofs.Source.Components
import Mathlib.Data.List.DropRight

/-!
# Parent paths

The parent of a path has its steps without the last one, from the same start.
-/

namespace FusionTree.Path

variable {p : Path} {pieces kept : List (List Char)} {piece : List Char}

/-! ### Pieces that are written again -/

theorem toList_pieces (kept : List (List Char)) :
    ("/".intercalate (kept.map String.ofList)).toList = ['/'].intercalate kept := by
  rw [String.toList_intercalate, List.map_map]
  congr 1
  exact (List.map_congr_left fun _ _ => String.toList_ofList).trans (List.map_id _)

theorem stepsOf_pieces (noSlash : ∀ piece ∈ kept, '/' ∉ piece) :
    stepsOf (['/'].intercalate kept) = kept.filterMap component? := by
  by_cases nothing : kept = []
  · subst nothing
    rfl
  · rw [stepsOf, List.splitOn_intercalate _ noSlash nothing]

theorem head?_pieces (noSlash : ∀ piece ∈ kept, '/' ∉ piece) :
    (['/'].intercalate kept).head? = some '/' ↔ kept.head? = some [] ∧ kept ≠ [[]] := by
  match kept with
  | [] => simp
  | [piece] =>
    have other : piece.head? ≠ some '/' := fun slash =>
      noSlash piece List.mem_cons_self (List.mem_of_mem_head? slash)
    simpa using other
  | piece :: second :: more =>
    rw [List.intercalate_cons_cons]
    cases piece with
    | nil => simp
    | cons c piece =>
      have other : c ≠ '/' := fun slash =>
        noSlash _ List.mem_cons_self (slash ▸ List.mem_cons_self)
      simpa using other

theorem isAbsolute_iff : p.isAbsolute = true ↔
    (p.text.toList.splitOn '/').head? = some [] ∧ p.text.toList.splitOn '/' ≠ [[]] := by
  rw [← head?_pieces fun _ => Text.not_mem_of_mem_splitOn, List.intercalate_splitOn, isAbsolute,
    beq_iff_eq]

/-! ### The last component -/

theorem throughLast_eq (pieces : List (List Char)) :
    throughLast pieces = pieces.rdropWhile fun piece => (component? piece).isNone := rfl

theorem throughLast_isPrefix (pieces : List (List Char)) : throughLast pieces <+: pieces :=
  List.rdropWhile_prefix _ _

theorem filterMap_throughLast (pieces : List (List Char)) :
    (throughLast pieces).filterMap component? = pieces.filterMap component? := by
  induction pieces using List.reverseRecOn with
  | nil => rfl
  | append_singleton pieces piece ih =>
    rw [throughLast_eq, List.rdropWhile_concat]
    split
    · rename_i blank
      rw [← throughLast_eq, ih, List.filterMap_append,
        List.filterMap_cons_none (Option.isNone_iff_eq_none.mp blank), List.filterMap_nil,
        List.append_nil]
    · rfl

def withoutLast (pieces : List (List Char)) : List (List Char) :=
  throughLast (throughLast pieces).dropLast

theorem withoutLast_isPrefix (pieces : List (List Char)) : withoutLast pieces <+: pieces :=
  (throughLast_isPrefix _).trans ((List.dropLast_prefix _).trans (throughLast_isPrefix _))

theorem filterMap_withoutLast (pieces : List (List Char)) :
    (withoutLast pieces).filterMap component? = (pieces.filterMap component?).dropLast := by
  rw [withoutLast, filterMap_throughLast, ← filterMap_throughLast pieces]
  rcases (throughLast pieces).eq_nil_or_concat' with nothing | ⟨front, last, eq⟩
  · rw [nothing]
    rfl
  · have blank : ¬(component? last).isNone = true := by
      have notBlank := List.rdropWhile_last_not (fun piece => (component? piece).isNone) pieces
        (by rw [← throughLast_eq, eq]; simp)
      simpa [← throughLast_eq, eq] using notBlank
    cases read : component? last with
    | none =>
      rw [read] at blank
      exact absurd rfl blank
    | some c =>
      rw [eq, List.dropLast_concat, List.filterMap_append, List.filterMap_cons_some read,
        List.filterMap_nil, List.dropLast_concat]

/-! ### The parent -/

/-- How many pieces stand for the start of a path: the one before the first slash of an absolute
path, or a leading `.`. -/
def anchored (p : Path) : Nat :=
  if p.isAbsolute || (p.text.toList.splitOn '/').head? = some ['.'] then 1 else 0

/-- The pieces of the path that are written in its parent. -/
def outerPieces (p : Path) : List (List Char) :=
  (p.text.toList.splitOn '/').take p.anchored ++
    withoutLast ((p.text.toList.splitOn '/').drop p.anchored)

theorem outerPieces_isPrefix (p : Path) : p.outerPieces <+: p.text.toList.splitOn '/' := by
  have rest := withoutLast_isPrefix ((p.text.toList.splitOn '/').drop p.anchored)
  have := (List.prefix_append_right_inj ((p.text.toList.splitOn '/').take p.anchored)).mpr rest
  rwa [List.take_append_drop] at this

theorem filterMap_outerPieces (p : Path) :
    p.outerPieces.filterMap component? = p.steps.dropLast := by
  have start : ((p.text.toList.splitOn '/').take p.anchored).filterMap component? = [] := by
    obtain ⟨first, more, split⟩ := List.exists_cons_of_ne_nil
      (List.splitOn_ne_nil '/' p.text.toList)
    rw [anchored]
    split
    · rename_i anchor
      rw [split, List.head?_cons, Bool.or_eq_true, isAbsolute_iff, split, decide_eq_true_eq,
        List.head?_cons, Option.some_inj, Option.some_inj] at anchor
      have blank : component? first = none :=
        component?_eq_none_iff.mpr (anchor.imp_left And.left)
      rw [split, List.take_succ_cons, List.take_zero, List.filterMap_cons_none blank,
        List.filterMap_nil]
    · rw [List.take_zero, List.filterMap_nil]
  have body : ((p.text.toList.splitOn '/').drop p.anchored).filterMap component? = p.steps := by
    rw [steps, stepsOf]
    conv_rhs => rw [← List.take_append_drop p.anchored (p.text.toList.splitOn '/')]
    rw [List.filterMap_append, start, List.nil_append]
  rw [outerPieces, List.filterMap_append, start, filterMap_withoutLast, body, List.nil_append]

theorem parent?_eq (h : p.steps ≠ []) : p.parent? =
    match p.outerPieces with
    | [[]] => some ⟨"/"⟩
    | kept => some ⟨"/".intercalate (kept.map String.ofList)⟩ := by
  have last : p.components.getLast? = some (p.steps.getLast h) := by
    rw [components_eq, List.getLast?_append_of_ne_nil _ h, List.getLast?_eq_some_getLast h]
  have step := isStep_of_mem_steps (List.getLast_mem h)
  rw [parent?, last]
  rcases step.eq_parent_or_name with eq | ⟨name, eq⟩
  all_goals
    rw [eq, segments_eq_splitOn]
    simp only [List.splitAt_eq]
    rfl

theorem isAbsolute_iff_head?_outerPieces (h : p.steps ≠ []) :
    p.isAbsolute = true ↔ p.outerPieces.head? = some [] := by
  constructor
  · intro absolute
    have first := (isAbsolute_iff.mp absolute).1
    rw [outerPieces, anchored, absolute, Bool.true_or, if_pos rfl, List.head?_append,
      List.head?_take, if_neg Nat.one_ne_zero, first, Option.some_or]
  · intro first
    obtain ⟨rest, eq⟩ := p.outerPieces_isPrefix
    have first : (p.text.toList.splitOn '/').head? = some [] := by
      rw [← eq, List.head?_append, first, Option.some_or]
    refine isAbsolute_iff.mpr ⟨first, fun nothing => h ?_⟩
    rw [steps, stepsOf, nothing]
    rfl

/-- The parent has the same start and all steps but the last. -/
theorem exists_parent? (h : p.steps ≠ []) : ∃ parent, p.parent? = some parent ∧
    parent.steps = p.steps.dropLast ∧ parent.isAbsolute = p.isAbsolute := by
  have noSlash : ∀ piece ∈ p.outerPieces, '/' ∉ piece :=
    fun piece mem => Text.not_mem_of_mem_splitOn (p.outerPieces_isPrefix.subset mem)
  have start := isAbsolute_iff_head?_outerPieces h
  rw [parent?_eq h]
  split
  · rename_i root
    refine ⟨⟨"/"⟩, rfl, ?_, (start.mpr ?_).symm⟩
    · rw [← filterMap_outerPieces, root]
      rfl
    · rw [root, List.head?_cons]
  · rename_i other
    refine ⟨_, rfl, ?_, ?_⟩
    · rw [steps, toList_pieces, stepsOf_pieces noSlash, filterMap_outerPieces]
    · rw [Bool.eq_iff_iff, start, isAbsolute, beq_iff_eq, toList_pieces, head?_pieces noSlash,
        and_iff_left other]

/-- The directory of a file; that of a bare name is the empty path. -/
def directory (file : Path) : Path :=
  file.parent?.getD ⟨""⟩

theorem steps_directory (h : p.steps ≠ []) : p.directory.steps = p.steps.dropLast := by
  obtain ⟨parent, eq, steps, -⟩ := exists_parent? h
  rw [directory, eq, Option.getD_some, steps]

theorem isAbsolute_directory (h : p.steps ≠ []) : p.directory.isAbsolute = p.isAbsolute := by
  obtain ⟨parent, eq, -, start⟩ := exists_parent? h
  rw [directory, eq, Option.getD_some, start]

end FusionTree.Path
