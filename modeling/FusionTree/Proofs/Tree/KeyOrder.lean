import FusionTree.Proofs.Tree.Commuting
import FusionTree.Proofs.Tree.KeyForm

/-!
# The order of keys

What is written keeps every key of every map in its place and puts new keys behind them, on the way
to its path as well as in the maps that it is merged into. Null and unsets may remove a key, but no
other than the last one of their path.
-/

namespace FusionTree

/-- If a map stands at the path in both nodes, then the keys of the first one come first in the
second one, in the same order. -/
def Node.KeepsKeys (n m : Node) (path : List String) : Prop :=
  ∀ old new : Entries, n.at? path = some (.map old) → m.at? path = some (.map new) →
    old.keys <+: new.keys

namespace Node

variable {n m : Node} {path : List String}

theorem keepsKeys_of_at?_eq (h : m.at? path = n.at? path) : n.KeepsKeys m path := by
  intro old new ho hn
  rw [h, ho] at hn
  cases hn
  exact List.prefix_refl _

theorem keepsKeys_of_no_map (h : m.entries? = none) : n.KeepsKeys m path := by
  intro old new _ hn
  obtain ⟨inner, rfl⟩ := exists_map_of_at?_map hn
  cases h

end Node

namespace Entries

open Node

variable {es : Entries} {key : String} {path q : List String} {n m : Node}

/-! ### One entry, and merged entries -/

theorem keys_prefix_insert (es : Entries) (key : String) (n : Node) :
    es.keys <+: (es.insert key n).keys := by
  by_cases mem : key ∈ es.keys
  · exact ⟨[], by rw [List.append_nil, keys_insert_of_mem n mem]⟩
  · rw [keys_insert_of_not_mem n mem]
    exact List.prefix_append _ _

theorem keys_prefix_overrule (new base : Entries) : base.keys <+: (overrule new base).keys := by
  induction new generalizing base with
  | nil => exact List.prefix_refl _
  | cons entry rest ih =>
    obtain ⟨key, n⟩ := entry
    rw [overrule_cons]
    exact (keys_prefix_insert base key _).trans (ih _)

/-- An entry that is put keeps the keys of all maps if it keeps those below it. -/
theorem keepsKeys_insert (h : ∀ (rest : List String) (inner : Entries), path = key :: rest →
      es.get? key = some (.map inner) → (Node.map inner).KeepsKeys m rest) :
    (Node.map es).KeepsKeys (.map (es.insert key m)) path := by
  cases path with
  | nil =>
    intro old new ho hn
    cases ho
    cases hn
    exact keys_prefix_insert es key m
  | cons k rest =>
    by_cases hk : k = key
    · subst hk
      intro old new ho hn
      obtain ⟨_, child, he, hc, hb⟩ := at?_cons_eq_some_iff.mp ho
      cases he
      obtain ⟨inner, rfl⟩ := exists_map_of_at?_map hb
      rw [at?_insert_self] at hn
      exact h rest inner rfl hc old new hb hn
    · exact keepsKeys_of_at?_eq (at?_insert_of_ne hk m rest)

/-- Where maps meet in a merge they keep their keys, and only a plain value replaces a map. -/
theorem keepsKeys_overrule {new : Entries} (distinct : new.Distinct) (old : Entries)
    (path : List String) : (Node.map old).KeepsKeys (.map (overrule new old)) path := by
  induction path generalizing new old with
  | nil =>
    intro before after hb ha
    cases hb
    cases ha
    exact keys_prefix_overrule new old
  | cons key rest ih =>
    obtain ⟨nodup, below⟩ := distinct_map_iff.mp distinct
    rcases hk : new.get? key with _ | n
    · refine keepsKeys_of_at?_eq ?_
      rw [at?_map_cons, at?_map_cons, get?_overrule_of_not_mem old (get?_eq_none_iff.mp hk)]
    · intro before after hb ha
      obtain ⟨_, child, he, hc, hb⟩ := at?_cons_eq_some_iff.mp hb
      cases he
      obtain ⟨inner, rfl⟩ := exists_map_of_at?_map hb
      rw [at?_map_cons, get?_overrule nodup old hk, hc] at ha
      cases isMap : n.entries? with
      | some entries =>
        obtain rfl := entries?_eq_some_iff.mp isMap
        exact ih (below key _ hk) inner before after hb ha
      | none =>
        -- a plain value takes the place of the map, and no map is read below it
        rw [overrule_of_entries?_eq_none isMap] at ha
        exact keepsKeys_of_no_map isMap before after hb ha

/-! ### Writing -/

theorem keepsKeys_write (hn : n.isNull = false) (distinct : n.Distinct) (es : Entries)
    (key : String) (q : List String) : (Node.map es).KeepsKeys (.map (es.write key n)) q := by
  obtain ⟨m, hm⟩ := exists_placed hn (es.get? key)
  rw [write_of_placed hm]
  refine keepsKeys_insert fun rest inner _ hi => ?_
  -- a map was there, so the node is merged into it, as a map or as the tags of a plain value
  rw [hi, placed_map_eq_overrule hn] at hm
  cases hm
  have opens : (opened (some n)).Distinct := Distinct.opened fun _ h => Option.some.inj h ▸ distinct
  exact keepsKeys_overrule opens inner rest

theorem keepsKeys_set (hn : n.isNull = false) (distinct : n.Distinct) (es : Entries)
    (path q : List String) : (Node.map es).KeepsKeys (.map (es.set path n)) q := by
  induction path generalizing es q with
  | nil => exact keepsKeys_of_at?_eq rfl
  | cons key rest ih =>
    by_cases hr : rest = []
    · subst hr
      exact keepsKeys_write hn distinct es key q
    · rw [set_cons es key hr]
      refine keepsKeys_insert fun more inner _ hi => ?_
      rw [hi, opened_map]
      exact ih inner more

/-- Any change keeps the keys of the maps that its path does not end in or lead to. -/
theorem keepsKeys_changeAt (h : ¬path <+: q) (h' : ∀ key, path ≠ q ++ [key]) (es : Entries)
    (f : Option Node → Change) : (Node.map es).KeepsKeys (.map (es.changeAt path f)) q := by
  induction path generalizing es q with
  | nil => exact absurd List.nil_prefix h
  | cons key rest ih =>
    by_cases hr : rest = []
    · subst hr
      obtain _ | ⟨k, more⟩ := q
      · exact absurd rfl (h' key)
      · have hk : k ≠ key := by rintro rfl; exact h (by simp)
        have same : (es.changeAt [key] f).get? k = es.get? k := get?_change_of_ne hk f
        refine keepsKeys_of_at?_eq ?_
        rw [at?_map_cons, at?_map_cons, same]
    · rw [changeAt_cons es key hr]
      refine keepsKeys_insert fun more inner hq hi => ?_
      subst hq
      rw [hi, opened_map]
      exact ih (by simpa using h) (fun k => by simpa using h' k) inner

/-- Nothing but null is left of what null is written to. -/
theorem keepsKeys_set_null (h : ∀ key, path ≠ q ++ [key]) (es : Entries) :
    (Node.map es).KeepsKeys (.map (es.set path .null)) q := by
  by_cases le : path <+: q
  · by_cases hp : path = []
    · subst hp
      exact keepsKeys_of_at?_eq rfl
    -- at the path nothing or null is left, and so no map is read there or below
    obtain ⟨rest, rfl⟩ := le
    obtain ⟨old, left⟩ := exists_at?_set_self es hp .null
    intro before after _ ha
    rw [at?_append, left] at ha
    obtain ⟨m, hm, ha⟩ := Option.bind_eq_some_iff.mp ha
    obtain ⟨inner, rfl⟩ := exists_map_of_at?_map ha
    rcases old with _ | o
    · cases hm
    · cases o <;> cases hm
  · rw [set_eq_changeAt]
    exact keepsKeys_changeAt le h es _

/-! ### The last key of a path -/

theorem keys_write_null_of_none (h : es.get? key = none) :
    (es.write key .null).keys = es.keys ++ [key] := by
  simp [write, h, keys_insert_of_not_mem .null (get?_eq_none_iff.mp h)]

theorem keys_write_null_of_null (h : es.get? key = some .null) :
    (es.write key .null).keys = es.keys := by
  simp [write, h, insert_of_get? h]

theorem keys_write_null_of_some (h : es.get? key = some n) (hn : n ≠ .null) :
    (es.write key .null).keys = es.keys.filter (· ≠ key) := by
  have erased : es.write key .null = es.erase key := by
    cases n with
    | null => exact absurd rfl hn
    | _ => simp [write, h, isNull]
  rw [erased, keys_erase]

/-- What becomes of the keys of the map that the last key of a path is in. -/
structure LastKey (old nulled unset : Entries) (key : String) : Prop where
  /-- Where nothing is, null is put, or the mark. -/
  absent : old.get? key = none → nulled.keys = old.keys ++ [key] ∧ unset.keys = old.keys ++ [key]
  /-- Null is left where it is, and the mark takes its place. -/
  null : old.get? key = some .null → nulled.keys = old.keys ∧ unset.keys = old.keys
  /-- What is not null is removed, and the mark goes to the end. -/
  present : ∀ n, old.get? key = some n → n ≠ .null →
    nulled.keys = old.keys.filter (· ≠ key) ∧ unset.keys = old.keys.filter (· ≠ key) ++ [key]

theorem lastKey_write_unset (es : Entries) (key : String) :
    es.LastKey (es.write key .null) (es.unset [key]) key where
  absent h := by
    have nulled := keys_write_null_of_none h
    refine ⟨nulled, ?_⟩
    rw [unset_singleton, keys_insert_of_mem _ (by simp [nulled]), nulled]
  null h := by
    have nulled := keys_write_null_of_null h
    refine ⟨nulled, ?_⟩
    rw [unset_singleton, keys_insert_of_mem _ (nulled ▸ mem_keys_of_get? h), nulled]
  present n h hn := by
    have nulled := keys_write_null_of_some h hn
    refine ⟨nulled, ?_⟩
    rw [unset_singleton, keys_insert_of_not_mem _ (by simp [nulled]), nulled]

/-! ### The whole of it -/

/-- What writes and unsets at the path leave of the order of keys. -/
structure KeepsOrder (es : Entries) (path : List String) : Prop where
  /-- A node that is not null keeps the keys of every map. -/
  set : ∀ n : Node, n ≠ .null → n.Distinct → ∀ q, (Node.map es).KeepsKeys (.map (es.set path n)) q
  /-- Null keeps the keys of every map but the one that the path ends in. -/
  set_null : ∀ q, (∀ key, path ≠ q ++ [key]) →
    (Node.map es).KeepsKeys (.map (es.set path .null)) q
  /-- So does an unset, apart from what it replaces by the mark. -/
  unset : ∀ q, path = [] ∨ ¬path <+: q → (∀ key, path ≠ q ++ [key]) →
    (Node.map es).KeepsKeys (.map (es.unset path)) q
  marked : path ≠ [] →
    (Node.map (es.unset path)).at? path = some (.map [(Key.stop, .bool true)])
  /-- In the map that the path ends in, both remove its last key at most. -/
  last_key : ∀ q key (old : Entries), path = q ++ [key] →
    (Node.map es).at? q = some (.map old) → ∃ nulled unset : Entries,
      (Node.map (es.set path .null)).at? q = some (.map nulled) ∧
      (Node.map (es.unset path)).at? q = some (.map unset) ∧ old.LastKey nulled unset key

theorem keeps_order (es : Entries) (path : List String) : es.KeepsOrder path where
  set n hn distinct q := keepsKeys_set (isNull_eq_false_of_ne hn) distinct es path q
  set_null q h := keepsKeys_set_null h es
  unset q below h := by
    by_cases hp : path = []
    · subst hp
      exact keepsKeys_set rfl (distinct_of_entries?_eq_none rfl) es [Key.stop] q
    · rw [unset_eq_changeAt es hp]
      exact keepsKeys_changeAt (below.resolve_left hp) h es _
  marked hp := at?_unset_self es hp
  last_key q key old split h := by
    subst split
    refine ⟨_, _, ?_, ?_, lastKey_write_unset old key⟩
    · rw [set_eq_changeAt, at?_changeAt_append (by simp) h, ← set_eq_changeAt, set_singleton]
    · rw [unset_eq_changeAt es (by simp), at?_changeAt_append (by simp) h,
        ← unset_eq_changeAt old (by simp)]

/-- A key that was there comes last after an unset. -/
example : (unset [("a", .int 1), ("b", .int 2)] ["a"]).keys = ["b", "a"] := by decide

end Entries

end FusionTree
