import FusionTree.Proofs.Tree.Materializing
import FusionTree.Proofs.Tree.Tagging

/-!
# Where the entries of a tree come from

Something stands at a path after a write if it stood there before, if the written path leads there,
if the written node holds it, or if it is the tag of a plain value: one that was in the way, or one
that has been written to a map. An unset and a look at a path are told apart in the same way.
-/

namespace FusionTree

def Node.Has (n : Node) (path : List String) : Prop := (n.at? path).isSome

namespace Node

theorem has_cons_iff {es : Entries} {key : String} {rest : List String} :
    (map es).Has (key :: rest) ↔ ∃ child, es.get? key = some child ∧ child.Has rest := by
  simp only [Has, at?_map_cons, Option.isSome_bind, Option.any_eq_true]

theorem Has.exists_map {n : Node} {key : String} {rest : List String}
    (h : n.Has (key :: rest)) : ∃ es : Entries, n = map es := by
  obtain ⟨m, hm⟩ := Option.isSome_iff_exists.mp h
  exact exists_map_of_at?_cons hm

/-- Nothing stands below a plain value. -/
theorem Has.eq_nil_of_plain {n : Node} {path : List String} (plain : n.entries? = none)
    (h : n.Has path) : path = [] := by
  cases path with
  | nil => rfl
  | cons key rest =>
    obtain ⟨_, rfl⟩ := h.exists_map
    cases plain

end Node

namespace Entries

open Node

variable {es : Entries} {key : String} {path p : List String} {n : Node}

theorem has_nil_iff : (Node.map []).Has p ↔ p = [] := by
  cases p with
  | nil => simp [Has]
  | cons key rest => simp [has_cons_iff]

/-- Overruling makes no entries but those of its two sides. -/
theorem has_of_overrule {new old : Entries} (distinct : new.Distinct)
    (h : (Node.map (overrule new old)).Has p) : (Node.map new).Has p ∨ (Node.map old).Has p := by
  induction p generalizing new old with
  | nil => exact .inl rfl
  | cons key rest ih =>
    obtain ⟨nodup, below⟩ := Node.distinct_map_iff.mp distinct
    obtain ⟨child, hc, hr⟩ := has_cons_iff.mp h
    rcases hk : new.get? key with _ | n
    · rw [get?_overrule_of_not_mem old (get?_eq_none_iff.mp hk)] at hc
      exact .inr (has_cons_iff.mpr ⟨child, hc, hr⟩)
    · rw [get?_overrule nodup old hk] at hc
      obtain rfl := Option.some.inj hc
      have inNew (hn : n.Has rest) : (Node.map new).Has (key :: rest) :=
        has_cons_iff.mpr ⟨n, hk, hn⟩
      cases n with
      | map entries =>
        rcases ho : old.get? key with _ | o
        · rw [ho] at hr
          exact .inl (inNew hr)
        · cases o with
          | map inner =>
            rw [ho, Node.overrule_map_map] at hr
            rcases ih (below key _ hk) hr with hn | hi
            · exact .inl (inNew hn)
            · exact .inr (has_cons_iff.mpr ⟨_, ho, hi⟩)
          | _ =>
            rw [ho] at hr
            exact .inl (inNew hr)
      | _ =>
        rw [Node.overrule_of_entries?_eq_none rfl] at hr
        exact .inl (inNew hr)

/-! ### Folding -/

/-- A path runs through a plain value, which a write to the path tags to go on. -/
structure Folds (es : Entries) (path q : List String) : Prop where
  ne_nil : q ≠ []
  le : q <+: path
  ne : q ≠ path
  value : ∃ m, (Node.map es).at? q = some m ∧ m.entries? = none ∧ m.isNull = false

theorem Folds.has {q : List String} (folds : es.Folds path q) : (Node.map es).Has q := by
  obtain ⟨m, hm, -⟩ := folds.value
  exact Option.isSome_of_eq_some hm

theorem Folds.cons {inner : Entries} {rest q : List String} (h : es.get? key = some (.map inner))
    (folds : inner.Folds rest q) : es.Folds (key :: rest) (key :: q) where
  ne_nil := List.cons_ne_nil _ _
  le := List.cons_prefix_cons.mpr ⟨rfl, folds.le⟩
  ne := by simpa using folds.ne
  value := by
    obtain ⟨m, hm, plain⟩ := folds.value
    exact ⟨m, Node.at?_cons_eq_some_iff.mpr ⟨es, _, rfl, h, hm⟩, plain⟩

/-- What stands in the entries that a write opens under a key stood there already, or is a tag of
the plain value there. -/
theorem has_of_opened {rest : List String} (hp : p ≠ []) (hr : rest ≠ [])
    (h : (Node.map (opened (es.get? key))).Has p) :
    (Node.map es).Has (key :: p) ∨ ∃ tag, tag ∈ Key.tags ∧ p = [tag] ∧
      es.Folds (key :: rest) [key] := by
  obtain ⟨k, more, rfl⟩ := List.exists_cons_of_ne_nil hp
  rcases opened_cases (es.get? key) with
    empty | ⟨inner, hk, opens⟩ | ⟨m, hk, plain, notNull, opens⟩
  · rw [empty, has_nil_iff] at h
    cases h
  · rw [opens] at h
    exact .inl (has_cons_iff.mpr ⟨_, hk, h⟩)
  · rw [opens] at h
    obtain ⟨child, hc, hb⟩ := has_cons_iff.mp h
    obtain ⟨mem, leaf⟩ := plain_of_get?_taggedEntries plain hc
    obtain rfl := hb.eq_nil_of_plain leaf
    exact .inr ⟨k, mem, rfl, by simp, by simp, by simpa using hr.symm, m, by simp [hk], plain,
      notNull⟩

/-- A plain value in the entries that a write opens was in the way already, unless the path goes on
through a tag. -/
theorem Folds.of_opened {rest q : List String} (noTag : ∀ k ∈ rest, k ∉ Key.tags)
    (h : (opened (es.get? key)).Folds rest q) : es.Folds (key :: rest) (key :: q) := by
  rcases opened_cases (es.get? key) with
    empty | ⟨inner, hk, opens⟩ | ⟨m, hk, plain, notNull, opens⟩
  · rw [empty] at h
    exact absurd (has_nil_iff.mp h.has) h.ne_nil
  · rw [opens] at h
    exact Folds.cons hk h
  · rw [opens] at h
    obtain ⟨k, more, rfl⟩ := List.exists_cons_of_ne_nil h.ne_nil
    have through : k ∈ rest := h.le.subset (by simp)
    obtain ⟨child, hc, _⟩ := has_cons_iff.mp h.has
    exact absurd (plain_of_get?_taggedEntries plain hc).1 (noTag k through)

/-! ### Writing -/

/-- How something comes to stand at a path when a node is written. -/
inductive Written (es : Entries) (path : List String) (n : Node) (p : List String) : Prop
  | old (h : (Node.map es).Has p)
  | way (h : p <+: path)
  | inside (r : List String) (hp : p = path ++ r) (hr : r ≠ []) (h : n.Has r)
  | folded (q : List String) (tag : String) (hp : p = q ++ [tag]) (mem : tag ∈ Key.tags)
      (h : es.Folds path q)
  | tagged (tag : String) (old : Entries) (hp : p = path ++ [tag]) (mem : tag ∈ Key.tags)
      (plain : n.entries? = none) (notNull : n.isNull = false)
      (h : (Node.map es).at? path = some (.map old))

theorem has_cons_of_insert {k : String} {m : Node}
    (h : (Node.map (es.insert key m)).Has (k :: p)) :
    (k = key ∧ m.Has p) ∨ (Node.map es).Has (k :: p) := by
  obtain ⟨child, hc, hb⟩ := has_cons_iff.mp h
  by_cases hk : k = key
  · subst hk
    rw [get?_insert_self] at hc
    obtain rfl := Option.some.inj hc
    exact .inl ⟨rfl, hb⟩
  · rw [get?_insert_of_ne hk] at hc
    exact .inr (has_cons_iff.mpr ⟨child, hc, hb⟩)

theorem mem_tags_of_has_tag {old : Entries} {value : Node} {k : String} {rest : List String}
    (plain : value.entries? = none) (h : (Node.map (old.tag value)).Has (k :: rest)) :
    (k ∈ Key.tags ∧ rest = []) ∨ (Node.map old).Has (k :: rest) := by
  rcases has_cons_of_insert h with ⟨rfl, hb⟩ | h
  · exact .inl ⟨by simp [Key.tags], hb.eq_nil_of_plain rfl⟩
  rcases has_cons_of_insert h with ⟨rfl, hb⟩ | h
  · exact .inl ⟨by simp [Key.tags], hb.eq_nil_of_plain rfl⟩
  rcases has_cons_of_insert h with ⟨rfl, hb⟩ | h
  · exact .inl ⟨by simp [Key.tags], hb.eq_nil_of_plain plain⟩
  exact .inr h

theorem written_of_has_write (distinct : n.Distinct) (hp : p ≠ [])
    (h : (Node.map (es.write key n)).Has p) : es.Written [key] n p := by
  obtain ⟨k, rest, rfl⟩ := List.exists_cons_of_ne_nil hp
  obtain ⟨child, hc, hb⟩ := has_cons_iff.mp h
  by_cases hk : k = key
  · subst hk
    by_cases hr : rest = []
    · subst hr
      exact .way (List.prefix_refl _)
    obtain ⟨t, more, rfl⟩ := List.exists_cons_of_ne_nil hr
    rw [get?_write_self] at hc
    cases isMap : (es.get? k).bind entries? with
    | none =>
      rcases n.placed_eq_some_or_none isMap with put | removed
      · obtain rfl := Option.some.inj (put.symm.trans hc)
        exact .inside _ rfl hr hb
      · cases removed.symm.trans hc
    | some old =>
      have ho := bind_entries?_eq_some_iff.mp isMap
      rw [ho] at hc
      have before (stood : (Node.map old).Has (t :: more)) : es.Written [k] n (k :: t :: more) :=
        .old (has_cons_iff.mpr ⟨_, ho, stood⟩)
      rcases placed_map_cases hc with ⟨new, rfl, rfl⟩ | ⟨plain, notNull, rfl⟩
      · rcases has_of_overrule distinct hb with hn | stood
        · exact .inside _ rfl hr hn
        · exact before stood
      · rcases mem_tags_of_has_tag plain hb with ⟨mem, rfl⟩ | stood
        · exact .tagged t old rfl mem plain notNull (by simp [ho])
        · exact before stood
  · rw [get?_write_of_ne es hk] at hc
    exact .old (has_cons_iff.mpr ⟨child, hc, hb⟩)

/-- A write that goes on under a key puts there what it puts into the entries it opens. -/
theorem Written.cons {rest : List String} (hr : rest ≠ []) (noTag : ∀ k ∈ rest, k ∉ Key.tags)
    (hp : p ≠ []) (h : (opened (es.get? key)).Written rest n p) :
    es.Written (key :: rest) n (key :: p) := by
  cases h with
  | old stood =>
    rcases has_of_opened hp hr stood with stood | ⟨tag, mem, rfl, folds⟩
    · exact .old stood
    · exact .folded [key] tag rfl mem folds
  | way le => exact .way (List.cons_prefix_cons.mpr ⟨rfl, le⟩)
  | inside r eq ne stands => exact .inside r (by rw [eq, List.cons_append]) ne stands
  | folded q tag eq mem folds =>
    exact .folded (key :: q) tag (by rw [eq, List.cons_append]) mem (folds.of_opened noTag)
  | tagged tag old eq mem plain notNull at_rest =>
    refine .tagged tag old (by rw [eq, List.cons_append]) mem plain notNull ?_
    have stands : (Node.map (opened (es.get? key))).Has rest := Option.isSome_of_eq_some at_rest
    rcases has_of_opened hr hr stands with stood | ⟨t, mem', rfl, _⟩
    · obtain ⟨k, more, rfl⟩ := List.exists_cons_of_ne_nil hr
      obtain ⟨child, hc, hb⟩ := has_cons_iff.mp stood
      obtain ⟨inner, rfl⟩ := hb.exists_map
      rw [hc, opened_map] at at_rest
      exact Node.at?_cons_eq_some_iff.mpr ⟨_, _, rfl, hc, at_rest⟩
    · exact absurd mem' (noTag t (by simp))

theorem written_of_has_set (noTag : ∀ k ∈ path, k ∉ Key.tags) (distinct : n.Distinct) (hp : p ≠ [])
    (h : (Node.map (es.set path n)).Has p) : es.Written path n p := by
  induction path generalizing es p with
  | nil => exact .old h
  | cons key rest ih =>
    have noTagRest : ∀ k ∈ rest, k ∉ Key.tags := fun k hk => noTag k (List.mem_cons_of_mem _ hk)
    by_cases hr : rest = []
    · subst hr
      exact written_of_has_write distinct hp h
    rw [set_cons es key hr] at h
    obtain ⟨k, more, rfl⟩ := List.exists_cons_of_ne_nil hp
    rcases has_cons_of_insert h with ⟨rfl, hb⟩ | stood
    · by_cases hm : more = []
      · subst hm
        exact .way (by simp)
      · exact (ih noTagRest hm hb).cons hr noTagRest hm
    · exact .old stood

/-! ### Unsetting -/

theorem has_of_has_unset_singleton {k : String} {more : List String}
    (h : (Node.map (es.unset [key])).Has (k :: more)) :
    (Node.map es).Has (k :: more) ∨ k :: more <+: [key, Key.stop] := by
  obtain ⟨child, hc, hb⟩ := has_cons_iff.mp h
  by_cases hk : k = key
  · subst hk
    have left := at?_unset_self es (List.cons_ne_nil k [])
    rw [Node.at?_singleton, Node.get?_map, hc] at left
    obtain rfl := Option.some.inj left
    refine .inr (List.cons_prefix_cons.mpr ⟨rfl, ?_⟩)
    cases more with
    | nil => exact List.nil_prefix
    | cons t more =>
      obtain ⟨mark, hm, hb⟩ := has_cons_iff.mp hb
      rw [get?_cons] at hm
      split at hm
      · rename_i same
        obtain rfl := Option.some.inj hm
        simp [same, hb.eq_nil_of_plain rfl]
      · cases hm
  · rw [unset, List.singleton_append, get?_set_of_ne _ hk, get?_set_of_ne _ hk] at hc
    exact .inl (has_cons_iff.mpr ⟨child, hc, hb⟩)

/-- An unset makes the way to its mark, and tags the plain values in the way of its path. -/
theorem has_of_has_unset (noTag : ∀ k ∈ path, k ∉ Key.tags) (hne : path ≠ []) (hp : p ≠ [])
    (h : (Node.map (es.unset path)).Has p) :
    (Node.map es).Has p ∨ p <+: path ++ [Key.stop] ∨
      ∃ q tag, tag ∈ Key.tags ∧ p = q ++ [tag] ∧ es.Folds path q := by
  induction path generalizing es p with
  | nil => exact absurd rfl hne
  | cons key rest ih =>
    have noTagRest : ∀ k ∈ rest, k ∉ Key.tags := fun k hk => noTag k (List.mem_cons_of_mem _ hk)
    obtain ⟨k, more, rfl⟩ := List.exists_cons_of_ne_nil hp
    by_cases hr : rest = []
    · subst hr
      rcases has_of_has_unset_singleton h with stood | le
      · exact .inl stood
      · exact .inr (.inl le)
    · rw [unset_cons es key hr] at h
      rcases has_cons_of_insert h with ⟨rfl, hb⟩ | stood
      · by_cases hm : more = []
        · subst hm
          exact .inr (.inl (by simp))
        · rcases ih noTagRest hr hm hb with stood | le | ⟨q, tag, mem, rfl, folds⟩
          · rcases has_of_opened hm hr stood with stood | ⟨tag, mem, rfl, folds⟩
            · exact .inl stood
            · exact .inr (.inr ⟨[k], tag, mem, rfl, folds⟩)
          · exact .inr (.inl (by simpa using le))
          · exact .inr (.inr ⟨k :: q, tag, mem, rfl, folds.of_opened noTagRest⟩)
      · exact .inl stood

/-! ### Looking -/

theorem has_of_found (hp : p ≠ []) (h : (es.found key).Has p) : (Node.map es).Has (key :: p) := by
  obtain ⟨k, more, rfl⟩ := List.exists_cons_of_ne_nil hp
  have nothing : ¬(Node.map []).Has (k :: more) := fun h => by simpa using has_nil_iff.mp h
  unfold found at h
  split at h
  · exact absurd h nothing
  · exact absurd h nothing
  · rename_i n _ hn
    exact has_cons_iff.mpr ⟨n, hn, h⟩

/-- A look makes nothing but the way to its path. -/
theorem has_of_has_materialize (hp : p ≠ []) (h : (Node.map (es.materialize path).2).Has p) :
    (Node.map es).Has p ∨ p <+: path := by
  induction path generalizing es p with
  | nil => exact .inl h
  | cons key rest ih =>
    obtain ⟨k, more, rfl⟩ := List.exists_cons_of_ne_nil hp
    by_cases hm : k = key ∧ more = []
    · obtain ⟨rfl, rfl⟩ := hm
      exact .inr (by simp)
    have found (h : (Node.map (es.insert key (es.found key))).Has (k :: more)) :
        (Node.map es).Has (k :: more) := by
      rcases has_cons_of_insert h with ⟨rfl, hb⟩ | stood
      · exact has_of_found (fun h => hm ⟨rfl, h⟩) hb
      · exact stood
    by_cases hr : rest = []
    · subst hr
      rw [materialize_singleton] at h
      exact .inl (found h)
    cases he : (es.found key).entries? with
    | none =>
      rw [materialize_cons_of_leaf hr he] at h
      exact .inl (found h)
    | some inner =>
      have isMap := entries?_eq_some_iff.mp he
      rw [materialize_cons_of_map hr isMap] at h
      rcases has_cons_of_insert h with ⟨rfl, hb⟩ | stood
      · have hm : more ≠ [] := fun h => hm ⟨rfl, h⟩
        rcases ih hm hb with stood | le
        · rw [← isMap] at stood
          exact .inl (has_of_found hm stood)
        · exact .inr (List.cons_prefix_cons.mpr ⟨rfl, le⟩)
      · exact .inl stood

/-- What a look finds below its path stood there before. -/
theorem has_of_materialized {r : List String} (hpath : path ≠ []) (hr : r ≠ [])
    (h : (es.materialize path).1.Has r) : (Node.map es).Has (path ++ r) := by
  induction path generalizing es with
  | nil => exact absurd rfl hpath
  | cons key rest ih =>
    by_cases hrest : rest = []
    · subst hrest
      rw [materialize_singleton] at h
      exact has_of_found hr h
    cases he : (es.found key).entries? with
    | none =>
      rw [materialize_cons_of_leaf hrest he] at h
      exact absurd (h.eq_nil_of_plain rfl) hr
    | some inner =>
      have isMap := entries?_eq_some_iff.mp he
      rw [materialize_cons_of_map hrest isMap] at h
      have stood := ih hrest h
      rw [← isMap] at stood
      exact has_of_found (by simp [hrest]) stood

/-- A plain value that is read where a look has put back what it found was read there before. -/
theorem at?_of_insert_found {q : List String} {m : Node} (plain : m.entries? = none) (hq : q ≠ [])
    (h : (Node.map (es.insert key (es.found key))).at? q = some m) :
    (Node.map es).at? q = some m := by
  obtain ⟨k, more, rfl⟩ := List.exists_cons_of_ne_nil hq
  rw [Node.at?_map_cons] at h
  by_cases hk : k = key
  · subst hk
    rw [get?_insert_self, Option.bind_some] at h
    by_cases hm : more = []
    · subst hm
      obtain rfl := Option.some.inj h
      rw [Node.at?_singleton, Node.get?_map, get?_of_found_plain plain]
    · rwa [at?_found hm] at h
  · rwa [get?_insert_of_ne hk, ← Node.at?_map_cons] at h

/-- A plain value that is read after a look was read there before. -/
theorem at?_of_at?_materialize {source q : List String} {m : Node} (plain : m.entries? = none)
    (hq : q ≠ []) (h : (Node.map (es.materialize source).2).at? q = some m) :
    (Node.map es).at? q = some m := by
  induction source generalizing es q with
  | nil => exact h
  | cons key rest ih =>
    by_cases hr : rest = []
    · subst hr
      rw [materialize_singleton] at h
      exact at?_of_insert_found plain hq h
    cases he : (es.found key).entries? with
    | none =>
      rw [materialize_cons_of_leaf hr he] at h
      exact at?_of_insert_found plain hq h
    | some inner =>
      have isMap := entries?_eq_some_iff.mp he
      rw [materialize_cons_of_map hr isMap] at h
      suffices found : (Node.map (es.insert key (es.found key))).at? q = some m from
        at?_of_insert_found plain hq found
      obtain ⟨k, more, rfl⟩ := List.exists_cons_of_ne_nil hq
      rw [Node.at?_map_cons] at h ⊢
      by_cases hk : k = key
      · subst hk
        rw [get?_insert_self, Option.bind_some] at h ⊢
        rw [isMap]
        by_cases hm : more = []
        · subst hm
          cases h
          cases plain
        · exact ih hm h
      · rwa [get?_insert_of_ne hk] at h ⊢

/-- A plain value that stands in the way after a look stood there before. -/
theorem Folds.of_materialize {source q : List String}
    (h : (es.materialize source).2.Folds path q) : es.Folds path q := by
  obtain ⟨ne_nil, le, ne, m, hm, plain, notNull⟩ := h
  exact ⟨ne_nil, le, ne, m, at?_of_at?_materialize plain ne_nil hm, plain, notNull⟩

end Entries

end FusionTree
