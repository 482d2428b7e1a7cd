import FusionTree.Proofs.Tree.HeldMaps

/-!
# One tag at a time

A map in a tree says at most one thing about what its object is: it has no tag, or it has all of
them and one of them alone is not null. Every write keeps this, of every map in the tree, as long as
its path goes through no tag and the written node has it too.
-/

namespace FusionTree

/-- The entries have no tag; or they have all of them, and while one is a plain value the others are
null. -/
def Entries.OneTag (es : Entries) : Prop :=
  (∀ tag ∈ Key.tags, es.get? tag = none) ∨
    ∃ tag ∈ Key.tags,
      (∃ n, es.get? tag = some n ∧ n.entries? = none ∧ n.isNull = false) ∧
      ∀ other ∈ Key.tags, other ≠ tag → es.get? other = some .null

namespace Entries

variable {es new old inner : Entries} {key : String} {n : Node}

theorem OneTag.of_get? (h : es.OneTag) (same : ∀ tag ∈ Key.tags, new.get? tag = es.get? tag) :
    new.OneTag := by
  rcases h with none | ⟨tag, mem, ⟨n, hn⟩, others⟩
  · exact .inl fun tag mem => (same tag mem).trans (none tag mem)
  · refine .inr ⟨tag, mem, ⟨n, (same tag mem).trans hn.1, hn.2⟩, fun other ho ne => ?_⟩
    exact (same other ho).trans (others other ho ne)

theorem oneTag_nil : OneTag [] := .inl fun _ _ => rfl

theorem forall_mem_tags_iff {motive : String → Prop} :
    (∀ tag ∈ Key.tags, motive tag) ↔
      motive Key.value ∧ motive Key.eel ∧ motive Key.objectType := by
  simp only [Key.tags, List.forall_mem_cons, List.not_mem_nil, false_implies, implies_true,
    and_true]

theorem oneTag_of_tagged {t : Tags} (h : es.Tagged t) (plain : t.value.entries? = none)
    (notNull : t.value.isNull = false) (eel : t.eel = .null) (objectType : t.objectType = .null) :
    es.OneTag := by
  refine .inr ⟨Key.value, by decide, ⟨_, h.value, plain, notNull⟩, ?_⟩
  refine forall_mem_tags_iff.mpr ⟨fun ne => absurd rfl ne, fun _ => ?_, fun _ => ?_⟩
  · rw [h.eel, eel]
  · rw [h.objectType, objectType]

theorem OneTag.insert (h : es.OneTag) (hk : key ∉ Key.tags) (n : Node) :
    (es.insert key n).OneTag :=
  h.of_get? fun _ mem => get?_insert_of_ne fun same => hk (same ▸ mem)

theorem OneTag.erase (h : es.OneTag) (hk : key ∉ Key.tags) : (es.erase key).OneTag :=
  h.of_get? fun _ mem => get?_erase_of_ne fun same => hk (same ▸ mem)

theorem OneTag.overrule (hnew : new.OneTag) (nodup : new.keys.Nodup) (hold : old.OneTag) :
    (overrule new old).OneTag := by
  rcases hnew with none | ⟨tag, mem, ⟨n, hn, plain, notNull⟩, others⟩
  · refine hold.of_get? fun tag mem => get?_overrule_of_not_mem old ?_
    exact get?_eq_none_iff.mp (none tag mem)
  · refine .inr ⟨tag, mem, ⟨n, ?_, plain, notNull⟩, fun other ho ne => ?_⟩
    · rw [get?_overrule nodup old hn, Node.overrule_of_entries?_eq_none plain]
    · rw [get?_overrule nodup old (others other ho ne), Node.overrule_of_entries?_eq_none rfl]

/-- No tag is a map. -/
theorem OneTag.not_mem_tags (h : es.OneTag) (hk : es.get? key = some (.map inner)) :
    key ∉ Key.tags := by
  intro mem
  rcases h with none | ⟨tag, _, ⟨n, hn, plain, _⟩, others⟩
  · rw [none key mem] at hk
    cases hk
  · by_cases same : key = tag
    · subst same
      obtain rfl := Option.some.inj (hn.symm.trans hk)
      cases plain
    · rw [others key mem same] at hk
      cases hk

theorem upheld_oneTag : Upheld (· ∉ Key.tags) OneTag where
  nil := oneTag_nil
  insert h hk n := h.insert hk n
  erase h hk := h.erase hk
  tag _ plain notNull := oneTag_of_tagged (tagged_tag _ _) plain notNull rfl rfl
  overrule hn nodup ho := hn.overrule nodup ho
  map_key h hk := h.not_mem_tags hk
  own := by decide

end Entries

end FusionTree
