import FusionTree.Proofs.Tree.HeldMaps

/-!
# The form of keys

The keys of a map are pairwise different, and each of them is a text on one line that is not empty.
The keys of the tree's own are of this form, so a write keeps it wherever the keys of its path have
it: nothing else brings keys into a map but the maps that are written there.
-/

namespace FusionTree

/-- The key is not empty, and it stands on one line. -/
def Key.Proper (key : String) : Prop :=
  key ≠ "" ∧ '\n' ∉ key.toList

instance (key : String) : Decidable (Key.Proper key) :=
  inferInstanceAs (Decidable (_ ∧ _))

/-- The keys are proper and pairwise different. -/
structure Entries.WellKeyed (es : Entries) : Prop where
  proper : ∀ key ∈ es.keys, Key.Proper key
  nodup : es.keys.Nodup

namespace Entries

variable {es new old inner : Entries} {key other : String} {n : Node}

theorem mem_keys_of_mem_insert (h : other ∈ (es.insert key n).keys) :
    other = key ∨ other ∈ es.keys := by
  by_cases there : key ∈ es.keys
  · rw [keys_insert_of_mem n there] at h
    exact .inr h
  · rw [keys_insert_of_not_mem n there, List.mem_append, List.mem_singleton] at h
    exact h.symm

theorem mem_keys_of_get? (h : es.get? key = some n) : key ∈ es.keys :=
  List.mem_map_of_mem (mem_of_get? h)

theorem wellKeyed_nil : WellKeyed [] :=
  ⟨nofun, .nil⟩

theorem WellKeyed.insert (h : es.WellKeyed) (proper : Key.Proper key) (n : Node) :
    (es.insert key n).WellKeyed where
  proper k mem := by
    rcases mem_keys_of_mem_insert mem with rfl | mem
    · exact proper
    · exact h.proper k mem
  nodup := keys_insert_nodup h.nodup key n

theorem WellKeyed.erase (h : es.WellKeyed) (key : String) : (es.erase key).WellKeyed := by
  have sub : (es.erase key).keys.Sublist es.keys := by
    rw [keys_erase]
    exact List.filter_sublist
  exact ⟨fun k mem => h.proper k (sub.subset mem), h.nodup.sublist sub⟩

theorem WellKeyed.tag (h : es.WellKeyed) (n : Node) : (es.tag n).WellKeyed :=
  ((h.insert (by decide) n).insert (by decide) .null).insert (by decide) .null

/-- The keys of a map that is merged into another one are put among its keys one by one. -/
theorem WellKeyed.overrule (proper : ∀ k ∈ new.keys, Key.Proper k) (h : old.WellKeyed) :
    (overrule new old).WellKeyed := by
  induction new generalizing old with
  | nil => exact h
  | cons entry rest ih =>
    obtain ⟨k, m⟩ := entry
    obtain ⟨head, tail⟩ := List.forall_mem_cons.mp proper
    rw [overrule_cons]
    exact ih tail (h.insert head _)

theorem upheld_wellKeyed : Upheld Key.Proper WellKeyed where
  nil := wellKeyed_nil
  insert h proper n := h.insert proper n
  erase h _ := h.erase _
  tag h _ _ := h.tag _
  overrule hn _ ho := ho.overrule hn.proper
  map_key h hk := h.proper _ (mem_keys_of_get? hk)
  own := by decide

end Entries

end FusionTree
