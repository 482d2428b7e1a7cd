import FusionTree.Proofs.Tree.Placing

/-!
# An unset, place by place

An unset is a write of null and, behind it, a write of the mark. The first one leaves nothing or
null at the path, so the second one opens nothing there. On the way to the path both do what any
write does, and what is aside stays. A plain value that is written to the mark afterwards tags it,
so that the object is that value and still inherits nothing.
-/

namespace FusionTree

namespace Entries

/-- The tree `after` is the tree `es` with the mark in place of what was at the path. -/
structure UnsetAt (es : Entries) (path : List String) (after : Entries) : Prop where
  /-- The mark is alone at the path. -/
  marked : after.getPath? path = some (.map [(Key.stop, .bool true)])
  /-- Maps stand on the way. Besides the key that the path goes through they hold what stood there:
  nothing, the entries of a map, or the tags of a plain value, which is what the map stands for. -/
  on_the_way : ∀ (before : List String) (key : String) (rest : List String), before ≠ [] →
    path = before ++ key :: rest → ∃ inner : Entries, after.getPath? before = some (.map inner) ∧
      (es.getPath? before = none ∨ es.getPath? before = some .null → inner.erase key = []) ∧
      (∀ old : Entries, es.getPath? before = some (.map old) → inner.erase key = old.erase key) ∧
      ∀ v, es.getPath? before = some v → v ≠ .null → v.entries? = none →
        inner.erase key = [(Key.value, v), (Key.eel, .null), (Key.objectType, .null)] ∧
        (Node.map inner).resolved = v
  /-- What is aside is read as before. -/
  aside : ∀ other : List String, ¬path <+: other → ¬other <+: path →
    (∀ key ∈ other, key ∉ Key.tags) → after.getPath? other = es.getPath? other

variable {es : Entries} {key : String} {path rest other : List String}

/-! ### On the way -/

/-- An unset opens every place on the way to its path, and goes on in the entries there. -/
theorem at?_unset_on_the_way (hp : path ≠ []) (noTag : ∀ k ∈ path, k ∉ Key.tags) (hr : rest ≠ [])
    (es : Entries) : (Node.map (es.unset (path ++ rest))).at? path =
      some (.map ((opened ((Node.map es).at? path)).unset rest)) := by
  rw [unset, List.append_assoc, at?_set_on_the_way hp noTag (by simp),
    at?_set_on_the_way hp noTag hr, opened_map, unset]

theorem erase_unset (es : Entries) (key : String) (rest : List String) :
    (es.unset (key :: rest)).erase key = es.erase key := by
  rw [unset, List.cons_append, erase_set, erase_set]

/-- The tags of a plain value are all that is in the map beside another key. -/
theorem erase_taggedEntries (v : Node) (h : key ∉ Key.tags) :
    Entries.erase (Node.taggedEntries v) key = Node.taggedEntries v := by
  simp only [Key.tags, List.mem_cons, List.not_mem_nil, or_false, not_or] at h
  obtain ⟨hv, he, ho⟩ := h
  simp [Node.taggedEntries, erase, Ne.symm hv, Ne.symm he, Ne.symm ho]

theorem resolved_of_erase {inner : Entries} {v : Node} (h : inner.erase key = Node.taggedEntries v)
    (hk : key ∉ Key.tags) (hn : v ≠ .null) : (Node.map inner).resolved = v := by
  have ne : Key.value ≠ key := by
    rintro rfl
    exact hk (by decide)
  have value : inner.get? Key.value = some v := by
    rw [← get?_erase_of_ne ne, h]
    rfl
  exact Node.resolved_map value (Node.isNull_eq_false_of_ne hn)

/-! ### Aside -/

theorem at?_unset_of_aside (h : ¬path <+: other) (h' : ¬other <+: path)
    (untagged : ∀ k ∈ other, k ∉ Key.tags) (es : Entries) :
    (Node.map (es.unset path)).at? other = (Node.map es).at? other := by
  have last (k : String) (hk : other.getLast? = some k) : k ∉ Key.tags :=
    untagged k (List.mem_of_getLast? hk)
  obtain ⟨mark, mark'⟩ := aside_append h h' [Key.stop]
  rw [unset, at?_set_of_aside mark mark' (fun _ => last),
    at?_set_of_aside h h' (fun _ => last)]

/-! ### The whole of it -/

theorem unsetAt_unset (hp : path ≠ []) (noTag : ∀ k ∈ path, k ∉ Key.tags) (es : Entries) :
    es.UnsetAt path (es.unset path) where
  marked := by rw [getPath?_eq_at? _ hp, at?_unset_self es hp]
  on_the_way before key rest hb split := by
    subst split
    have before_untagged : ∀ k ∈ before, k ∉ Key.tags :=
      fun k hk => noTag k (List.mem_append_left _ hk)
    have key_untagged : key ∉ Key.tags := noTag key (by simp)
    rw [getPath?_eq_at? _ hb, getPath?_eq_at? _ hb]
    refine ⟨_, at?_unset_on_the_way hb before_untagged (List.cons_ne_nil key rest) es, ?_, ?_, ?_⟩
    · intro nothing
      rcases nothing with h | h <;> rw [h, erase_unset] <;> rfl
    · intro old h
      rw [h, opened_map, erase_unset]
    · intro v h hn plain
      have tags : Entries.erase ((opened ((Node.map es).at? before)).unset (key :: rest)) key =
          Node.taggedEntries v := by
        rw [erase_unset, h, opened_of_plain plain (Node.isNull_eq_false_of_ne hn),
          erase_taggedEntries v key_untagged]
      exact ⟨tags, resolved_of_erase tags key_untagged hn⟩
  aside other h h' untagged := by
    have ho : other ≠ [] := by rintro rfl; exact h' List.nil_prefix
    rw [getPath?_eq_at? _ ho, getPath?_eq_at? _ ho, at?_unset_of_aside h h' untagged]

/-- An unset leaves the mark where it is made, and a plain value that is written there afterwards
does not take it away. -/
theorem unset_replaces (hp : path ≠ []) (noTag : ∀ k ∈ path, k ∉ Key.tags) (es : Entries) :
    es.UnsetAt path (es.unset path) ∧
    ∀ s : Node, s ≠ .null → s.entries? = none →
      ∃ m, ((es.unset path).set path s).getPath? path = some m ∧
        m.resolved = s ∧ m.stopsInheritance = true := by
  refine ⟨unsetAt_unset hp noTag es, fun s hn plain => ?_⟩
  have notNull : s.isNull = false := Node.isNull_eq_false_of_ne hn
  refine ⟨.map (tag [(Key.stop, .bool true)] s), ?_, ?_, ?_⟩
  · rw [getPath?_eq_at? _ hp, at?_set_self hp (at?_unset_self es hp),
      Node.placed_map_of_plain plain notNull]
  · exact Node.resolved_map (get?_tag_value _ s) notNull
  · have mark : Entries.get? (tag [(Key.stop, .bool true)] s) Key.stop = some (.bool true) := by
      rw [get?_tag_of_not_mem _ s (by decide)]
      rfl
    simp [Node.stopsInheritance, mark]

/-- An unset below a number, where a string is written afterwards. -/
theorem unset_replaces_below_number :
    let tree : Entries := [("a", .int 1), ("b", .map [("c", .null)])]
    (["a", "d"] ≠ [] ∧ ∀ k ∈ ["a", "d"], k ∉ Key.tags) ∧
      tree.UnsetAt ["a", "d"] (tree.unset ["a", "d"]) ∧
      ∃ m, ((tree.unset ["a", "d"]).set ["a", "d"] (.string "s")).getPath? ["a", "d"] = some m ∧
        m.resolved = .string "s" ∧ m.stopsInheritance = true := by
  intro tree
  have noTag : ∀ k ∈ ["a", "d"], k ∉ Key.tags := by decide
  obtain ⟨unset, later⟩ := unset_replaces (by decide) noTag tree
  exact ⟨⟨by decide, noTag⟩, unset, later (.string "s") nofun rfl⟩

end Entries

end FusionTree
