import FusionTree.Proofs.Tree.Materializing
import FusionTree.Proofs.Tree.Tagging

/-!
# A write, place by place

What a write does is told by the places of the tree before it and after it: those on the way to its
path, the path itself, and those aside. Places below the path belong to the node that it leaves
there. The path must not run through tags, since a tag of a plain value on the way comes into being
only with the write.
-/

namespace FusionTree

namespace Entries

/-- The tree `after` is the tree `es` with the node written at the path. -/
structure WrittenAt (es : Entries) (path : List String) (n : Node) (after : Entries) : Prop where
  /-- Maps stand on the way. Those that stood there keep every entry that the path does not go
  through, and a plain value that stood there is what its map stands for. -/
  on_the_way : ∀ (before : List String) (key : String) (rest : List String), before ≠ [] →
    path = before ++ key :: rest → ∃ inner : Entries, after.getPath? before = some (.map inner) ∧
      (∀ old : Entries, es.getPath? before = some (.map old) → inner.erase key = old.erase key) ∧
      ∀ v, es.getPath? before = some v → v ≠ .null → v.entries? = none →
        inner.get? Key.value = some v ∧ (Node.map inner).resolved = v.resolved
  /-- Null removes what is not null. -/
  removed : n = .null → ∀ old, es.getPath? path = some old → old ≠ .null →
    after.getPath? path = none
  /-- Nothing and null make place for every node, and a plain value or a list for each but null. -/
  stored : (es.getPath? path = none ∨ es.getPath? path = some .null ∨
      n ≠ .null ∧ ∃ old, es.getPath? path = some old ∧ old.entries? = none) →
    after.getPath? path = some n
  /-- A map is merged into a map. -/
  merged : ∀ new old : Entries, n = .map new → es.getPath? path = some (.map old) →
    after.getPath? path = some (.map (Entries.overrule new old))
  /-- Any other node tags a map. -/
  tagged : n ≠ .null → n.entries? = none → ∀ old : Entries,
    es.getPath? path = some (.map old) → after.getPath? path =
      some (.map (((old.insert Key.value n).insert Key.eel .null).insert Key.objectType .null))
  /-- What is aside is read as before. -/
  aside : ∀ other : List String, ¬path <+: other → ¬other <+: path →
    (∀ key ∈ other, key ∉ Key.tags) → after.getPath? other = es.getPath? other

variable {es : Entries} {key : String} {path rest : List String} {n : Node}

/-! ### Places at the path and on the way -/

theorem at?_opened_of_untagged (hr : rest ≠ []) (noTag : ∀ k ∈ rest, k ∉ Key.tags) :
    (Node.map (opened (es.get? key))).at? rest = (Node.map es).at? (key :: rest) :=
  at?_opened hr fun _ _ _ _ last hl => noTag last (List.mem_of_getLast? hl)

/-- The node that is written meets what stands at its path, whatever the way to it is like. -/
theorem at?_set_of_untagged (hp : path ≠ []) (noTag : ∀ k ∈ path, k ∉ Key.tags) (n : Node) :
    (Node.map (es.set path n)).at? path = n.placed ((Node.map es).at? path) := by
  induction path generalizing es with
  | nil => exact absurd rfl hp
  | cons key rest ih =>
    by_cases hr : rest = []
    · subst hr
      rw [at?_set_singleton, Node.at?_singleton, Node.get?_map]
    · have noTag : ∀ k ∈ rest, k ∉ Key.tags := fun k hk => noTag k (List.mem_cons_of_mem key hk)
      rw [set_cons es key hr, at?_insert_self, ih hr noTag, at?_opened_of_untagged hr noTag]

/-- A write opens every place on the way to its path, and goes on in the entries there. -/
theorem at?_set_on_the_way (hp : path ≠ []) (noTag : ∀ k ∈ path, k ∉ Key.tags) (hr : rest ≠ [])
    (n : Node) :
    (Node.map (es.set (path ++ rest) n)).at? path =
      some (.map ((opened ((Node.map es).at? path)).set rest n)) := by
  induction path generalizing es with
  | nil => exact absurd rfl hp
  | cons key more ih =>
    rw [List.cons_append, set_cons es key (by simp [hr]), at?_insert_self]
    by_cases hm : more = []
    · subst hm
      rw [Node.at?_singleton]
      rfl
    · have noTag : ∀ k ∈ more, k ∉ Key.tags := fun k hk => noTag k (List.mem_cons_of_mem key hk)
      rw [ih hm noTag, at?_opened_of_untagged hm noTag]

/-! ### Entries besides the path -/

theorem erase_insert_self (es : Entries) (key : String) (n : Node) :
    (es.insert key n).erase key = es.erase key := by
  induction es with
  | nil => simp [insert, erase]
  | cons entry rest ih =>
    obtain ⟨k, m⟩ := entry
    by_cases hk : k = key
    · simp [insert, erase, hk]
    · simpa [insert, erase, hk] using ih

theorem erase_erase_self (es : Entries) (key : String) :
    (es.erase key).erase key = es.erase key := by
  simp [erase]

theorem erase_write (es : Entries) (key : String) (n : Node) :
    (es.write key n).erase key = es.erase key := by
  unfold write
  split
  · split
    · exact erase_erase_self es key
    · exact erase_insert_self es key _
    · exact erase_insert_self es key _
  · exact erase_insert_self es key n
  · exact erase_insert_self es key n
  · split
    · exact erase_erase_self es key
    · exact erase_insert_self es key n

/-- A write changes one entry of the tree, that under the first key of its path. -/
theorem erase_set (es : Entries) (key : String) (rest : List String) (n : Node) :
    (es.set (key :: rest) n).erase key = es.erase key := by
  by_cases hr : rest = []
  · subst hr
    exact erase_write es key n
  · rw [set_cons es key hr, erase_insert_self]

theorem resolved_of_get?_value {inner : Entries} {v : Node} (h : inner.get? Key.value = some v)
    (hn : v ≠ .null) (plain : v.entries? = none) :
    (Node.map inner).resolved = v.resolved := by
  have alone : v.resolved = v := by simp [Node.resolved, Node.get?, plain]
  rw [alone, Node.resolved_map h (Node.isNull_eq_false_of_ne hn)]

/-! ### The whole of it -/

theorem set_written (hp : path ≠ []) (noTag : ∀ k ∈ path, k ∉ Key.tags) (es : Entries) (n : Node) :
    es.WrittenAt path n (es.set path n) where
  on_the_way before key rest hb split := by
    subst split
    have before_untagged : ∀ k ∈ before, k ∉ Key.tags :=
      fun k hk => noTag k (List.mem_append_left _ hk)
    have key_untagged : key ∉ Key.tags := noTag key (by simp)
    rw [getPath?_eq_at? _ hb, getPath?_eq_at? _ hb]
    refine ⟨_, at?_set_on_the_way hb before_untagged (List.cons_ne_nil key rest) n,
      fun old h => ?_, fun v h hn plain => ?_⟩
    · rw [h, opened_map, erase_set]
    · have value_at : ((opened ((Node.map es).at? before)).set (key :: rest) n).get? Key.value =
          some v := by
        have : Key.value ≠ key := by rintro rfl; exact key_untagged (by simp [Key.tags])
        rw [get?_set_of_ne _ this, h, opened_of_plain plain (Node.isNull_eq_false_of_ne hn)]
        rfl
      exact ⟨value_at, resolved_of_get?_value value_at hn plain⟩
  removed null old h hn := by
    rw [getPath?_eq_at? _ hp] at h ⊢
    rw [at?_set_of_untagged hp noTag, h, null]
    cases old with
    | null => exact absurd rfl hn
    | _ => rfl
  stored makes_place := by
    rw [getPath?_eq_at? _ hp] at makes_place ⊢
    rw [at?_set_of_untagged hp noTag]
    obtain h | h | ⟨hn, old, h, plain⟩ := makes_place
    · rw [h]; rfl
    · rw [h]; rfl
    · exact Node.placed_of_no_map (Node.isNull_eq_false_of_ne hn) (by rw [h]; exact plain)
  merged new old hn h := by
    rw [getPath?_eq_at? _ hp] at h ⊢
    rw [at?_set_of_untagged hp noTag, h, hn]
    rfl
  tagged hn plain old h := by
    rw [getPath?_eq_at? _ hp] at h ⊢
    rw [at?_set_of_untagged hp noTag, h]
    exact Node.placed_map_of_plain plain (Node.isNull_eq_false_of_ne hn) old
  aside other h h' other_untagged := by
    have ho : other ≠ [] := by rintro rfl; exact h' List.nil_prefix
    rw [getPath?_eq_at? _ ho, getPath?_eq_at? _ ho]
    exact at?_set_of_aside h h' (fun _ last hl => other_untagged last (List.mem_of_getLast? hl)) n

/-- A write of a string that runs through a number. -/
theorem set_written_through_number :
    let tree : Entries := [("a", .int 1), ("b", .map [("c", .null)])]
    (["a", "b"] ≠ [] ∧ ∀ k ∈ ["a", "b"], k ∉ Key.tags) ∧
      tree.WrittenAt ["a", "b"] (.string "s") (tree.set ["a", "b"] (.string "s")) := by
  intro tree
  have noTag : ∀ k ∈ ["a", "b"], k ∉ Key.tags := by decide
  exact ⟨⟨by decide, noTag⟩, set_written (by decide) noTag tree (.string "s")⟩

end Entries

end FusionTree
