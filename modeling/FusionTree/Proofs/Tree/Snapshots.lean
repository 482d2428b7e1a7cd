import FusionTree.Proofs.Tree.Materializing

/-!
# Copies as snapshots

A copy of something writes it to the target, and neither looking nor writing changes the source.
From then on the two have nothing in common: an edit whose paths neither lead to the target nor go
on from it leaves what is there, whatever becomes of the source.
-/

namespace FusionTree

/-- A change of a tree at a path. -/
inductive Edit
  | set (path : List String) (node : Node)
  | unset (path : List String)
  | copy (target source : List String)

namespace Edit

def apply (edit : Edit) (es : Entries) : Entries :=
  match edit with
  | set path node => es.set path node
  | unset path => es.unset path
  | copy target source => es.copy target source

/-- The paths that the edit may make entries at. A copy makes its source where there is none. -/
def paths : Edit → List (List String)
  | set path _ => [path]
  | unset path => [path]
  | copy target source => [target, source]

def applyAll (edits : List Edit) (es : Entries) : Entries :=
  edits.foldl (fun es edit => edit.apply es) es

/-- None of the edit's paths leads to the other path or goes on from it. -/
def Aside (edit : Edit) (other : List String) : Prop :=
  ∀ path ∈ edit.paths, ¬path <+: other ∧ ¬other <+: path

variable {es : Entries} {other : List String} {n : Node}

/-- An edit leaves what stands aside. -/
theorem Aside.at?_apply {edit : Edit} (aside : edit.Aside other)
    (h : (Node.map es).at? other = some n) : (Node.map (edit.apply es)).at? other = some n := by
  cases edit with
  | set path node =>
    obtain ⟨before, behind⟩ := aside path (by simp [paths])
    exact Entries.at?_set_of_incomparable before behind h
  | unset path =>
    obtain ⟨before, behind⟩ := aside path (by simp [paths])
    exact Entries.at?_unset_of_incomparable before behind h
  | copy target source =>
    obtain ⟨before, behind⟩ := aside target (by simp [paths])
    obtain ⟨look_before, look_behind⟩ := aside source (by simp [paths])
    refine Entries.at?_set_of_incomparable before behind ?_
    rw [Entries.at?_materialize_of_aside look_before look_behind, h]

theorem at?_applyAll_of_aside {edits : List Edit} (aside : ∀ edit ∈ edits, edit.Aside other)
    (h : (Node.map es).at? other = some n) : (Node.map (applyAll edits es)).at? other = some n := by
  induction edits generalizing es with
  | nil => exact h
  | cons edit rest ih =>
    obtain ⟨head, tail⟩ := List.forall_mem_cons.mp aside
    exact ih tail (head.at?_apply h)

end Edit

namespace Entries

variable {es : Entries} {target source : List String} {n : Node}

/-- A copy of something writes it. If neither path leads to the other one, the source stays as it
was, and the target stays as it is through all edits aside. -/
theorem copy_is_snapshot (hs : es.getPath? source = some n) (hn : n ≠ .null)
    (target : List String) :
    es.copy target source = es.set target n ∧
    (¬target <+: source → ¬source <+: target →
      (es.copy target source).getPath? source = some n ∧
      ∃ copied, (es.copy target source).getPath? target = some copied ∧
        ∀ edits : List Edit, (∀ edit ∈ edits, edit.Aside target) →
          (Edit.applyAll edits (es.copy target source)).getPath? target = some copied) := by
  have written := copy_of_getPath? hn hs target
  refine ⟨written, fun aside aside' => ?_⟩
  have ht : target ≠ [] := by rintro rfl; exact aside List.nil_prefix
  have hsource : source ≠ [] := by rintro rfl; exact aside' List.nil_prefix
  rw [getPath?_eq_at? es hsource] at hs
  obtain ⟨old, left⟩ := exists_at?_set_self es ht n
  obtain ⟨copied, something⟩ := Node.exists_placed (Node.isNull_eq_false_of_ne hn) old
  rw [something] at left
  rw [written]
  refine ⟨?_, copied, ?_, fun edits edits_aside => ?_⟩
  · rw [getPath?_eq_at? _ hsource]
    exact at?_set_of_incomparable aside aside' hs
  · rw [getPath?_eq_at? _ ht, left]
  · rw [getPath?_eq_at? _ ht]
    exact Edit.at?_applyAll_of_aside edits_aside left

/-- A copy to below a number, after which the source is written, unset and copied elsewhere. -/
theorem copy_is_snapshot_below_number :
    let tree : Entries := [("a", .int 1), ("b", .map [("c", .string "s")])]
    let edits : List Edit := [.set ["b", "c"] (.int 2), .unset ["b"], .copy ["e"] ["b"]]
    (tree.getPath? ["b"] = some (.map [("c", .string "s")]) ∧
      (¬["a", "d"] <+: ["b"] ∧ ¬["b"] <+: ["a", "d"]) ∧
      ∀ edit ∈ edits, edit.Aside ["a", "d"]) ∧
    (tree.copy ["a", "d"] ["b"] = tree.set ["a", "d"] (.map [("c", .string "s")]) ∧
      (tree.copy ["a", "d"] ["b"]).getPath? ["b"] = some (.map [("c", .string "s")]) ∧
      ∃ copied, (tree.copy ["a", "d"] ["b"]).getPath? ["a", "d"] = some copied ∧
        (Edit.applyAll edits (tree.copy ["a", "d"] ["b"])).getPath? ["a", "d"] = some copied) := by
  intro tree edits
  have source : tree.getPath? ["b"] = some (.map [("c", .string "s")]) := rfl
  have apart : ¬["a", "d"] <+: ["b"] ∧ ¬["b"] <+: ["a", "d"] := by decide
  have aside : ∀ edit ∈ edits, edit.Aside ["a", "d"] := by
    simp [edits, Edit.Aside, Edit.paths]
  obtain ⟨written, later⟩ := copy_is_snapshot source nofun ["a", "d"]
  obtain ⟨left, copied, there, stays⟩ := later apart.1 apart.2
  exact ⟨⟨source, apart, aside⟩, written, left, copied, there, stays edits aside⟩

end Entries

end FusionTree
