import FusionTree.Proofs.FileTree.Lookup
import FusionTree.Proofs.Source.Folding

/-!
# Places by relative and absolute paths

The way of a walk leads from the working directory to the place that the same way leads to behind
the names of the working directory. So a place can be spelled by a relative path or by an absolute
one, as long as both are short enough. -/

namespace FusionTree.FileTree

open FileEntry FusionTree.Path

variable {tree : FileTree} {here : Location} {outer : List String} {w : Walk}
  {cs : List Component} {p : Path}

theorem pieces_ofComponents (h : ∀ c ∈ cs, c.IsStep) (ne : cs ≠ []) :
    pieces (ofComponents cs).text = cs.map Component.text := by
  have notRoot : cs ≠ [.root] := by
    rintro rfl
    exact (h _ List.mem_cons_self).ne_root rfl
  rw [pieces, segments_eq_splitOn, ofComponents_eq cs notRoot,
    splitOn_intercalate_text (fun c mem => (h c mem).2) ne, List.map_map]
  exact List.map_congr_left fun c _ => String.ofList_toList

theorem pieces_ofComponents_root (h : ∀ c ∈ cs, c.IsStep) (ne : cs ≠ []) :
    pieces (ofComponents (.root :: cs)).text = "" :: cs.map Component.text := by
  rw [← pieces_ofComponents h ne, pieces, pieces, segments_eq_splitOn, segments_eq_splitOn,
    text_ofComponents_root h]
  exact congrArg (List.map String.ofList) (List.splitOn_append_cons_self [] _)

theorem isEmpty_of_steps (h : p.steps ≠ []) : p.text.isEmpty = false := by
  refine Bool.eq_false_iff.mpr fun empty => h ?_
  rw [steps, String.isEmpty_iff.mp empty]
  rfl

theorem contains_nul_iff : p.text.contains '\x00' = true ↔
    ∃ c ∈ p.steps, '\x00' ∈ c.text.toList := by
  rw [String.contains_char_eq, decide_eq_true_eq, mem_text_iff (by decide) (by decide)]

theorem proper_below (place : tree.Place outer here) (proper : w.Proper) :
    (w.below outer).Proper := by
  intro name mem
  rcases List.mem_append.mp mem with own | above
  · exact proper name own
  · exact (place.isName name (List.mem_of_mem_drop above)).isStep

theorem exists_nul_below_iff (place : tree.Place outer here) :
    (∃ c ∈ (w.below outer).components, '\x00' ∈ c.text.toList) ↔
      ∃ c ∈ w.components, '\x00' ∈ c.text.toList := by
  have dot : '\x00' ≠ '.' := by decide
  rw [Walk.exists_mem_components_iff dot, Walk.exists_mem_components_iff dot]
  constructor
  · rintro ⟨name, mem, nul⟩
    rcases List.mem_append.mp mem with own | above
    · exact ⟨name, own, nul⟩
    · exact absurd nul (place.isName name (List.mem_of_mem_drop above)).noNul
  · rintro ⟨name, mem, nul⟩
    exact ⟨name, List.mem_append_left _ mem, nul⟩

/-- A walk from a place comes to where the walk behind the names of the place comes to. -/
theorem follow_below (place : tree.Place outer here) (links : Nat) :
    tree.follow links here (w.components.map Component.text) =
      tree.follow links [] ((w.below outer).components.map Component.text) := by
  obtain ⟨there, above, climbed⟩ := place.climb w.climbs
  obtain ⟨top, same, stayed⟩ := Place.climb (.root : tree.Place [] []) (w.climbs - outer.length)
  rw [List.drop_nil] at same
  cases same
  rw [Walk.map_text_components, Walk.map_text_components, climbed, Walk.below, stayed,
    List.reverse_append, above.follow]

/-- What a walk leads to from the working directory is what it leads to from the root, behind the
names of the working directory. -/
theorem trace_below (place : tree.Place outer here)
    (working : tree.workingDirectory = outer.reverse) (proper : w.Proper)
    (near : w.components ≠ []) (far : (w.below outer).components ≠ []) :
    tree.trace (ofComponents w.components) =
      tree.trace (ofComponents (.root :: (w.below outer).components)) := by
  have steps := proper.isStep
  have steps' := (proper_below place proper).isStep
  have start : tree.startOf (ofComponents w.components) = .ok here := by
    have led := place.follow maxLinks []
    rw [List.append_nil, ← working, follow] at led
    rw [startOf, isAbsolute_ofComponents steps, if_neg Bool.false_ne_true, led]
  have start' : tree.startOf (ofComponents (.root :: (w.below outer).components)) = .ok [] := by
    rw [startOf, isAbsolute_ofComponents_root steps', if_pos rfl]
  have nul : (ofComponents w.components).text.contains '\x00' =
      (ofComponents (.root :: (w.below outer).components)).text.contains '\x00' := by
    rw [Bool.eq_iff_iff, contains_nul_iff, contains_nul_iff, steps_ofComponents steps,
      steps_ofComponents_root steps', exists_nul_below_iff place]
  rw [trace_eq, trace_eq, nul, start, start', pieces_ofComponents steps near,
    pieces_ofComponents_root steps' far, isEmpty_of_steps ((steps_ofComponents steps).symm ▸ near),
    isEmpty_of_steps ((steps_ofComponents_root steps').symm ▸ far), Except.bind, Except.bind,
    follow_root, follow_below place]

end FusionTree.FileTree
