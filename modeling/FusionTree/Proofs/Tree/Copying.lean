import FusionTree.Proofs.Tree.Writing

/-!
# What copying does to what is read

Looking for the source of a copy may make empty maps, but moves no plain value. What a copy brings
replaces a plain value below its target only if the source holds something at the same place, or a
plain value on the way to it.
-/

namespace FusionTree

namespace Entries

/-- What a look finds under a key: nothing and null become an empty map. -/
def found (es : Entries) (key : String) : Node :=
  match es.get? key with
  | some .null | none => .map []
  | some n => n

theorem found_of_get? {es : Entries} {key : String} {n : Node} (h : es.get? key = some n)
    (hn : n.isNull = false) : es.found key = n := by
  cases n <;> simp_all [found, Node.isNull]

/-- A plain value that a look finds stands there. -/
theorem get?_of_found_plain {es : Entries} {key : String} (h : (es.found key).entries? = none) :
    es.get? key = some (es.found key) := by
  unfold Entries.found at h ⊢
  split at h
  · cases h
  · cases h
  · rename_i n _ hn
    simp [hn]

theorem Distinct.found {es : Entries} (h : es.Distinct) (key : String) :
    (es.found key).Distinct := by
  unfold Entries.found
  split
  · exact Distinct.nil
  · exact Distinct.nil
  · rename_i n _ hn
    exact h.get? hn

theorem materialize_singleton (es : Entries) (key : String) :
    es.materialize [key] = (es.found key, es.insert key (es.found key)) := by
  rcases h : es.get? key with _ | n
  · simp [materialize, found, h]
  · cases n <;> simp [materialize, found, h]

theorem materialize_cons_of_map {es inner : Entries} {key : String} {rest : List String}
    (hr : rest ≠ []) (h : es.found key = .map inner) :
    es.materialize (key :: rest) =
      ((inner.materialize rest).1, es.insert key (.map (inner.materialize rest).2)) := by
  obtain ⟨k, more, rfl⟩ := List.exists_cons_of_ne_nil hr
  rcases hk : es.get? key with _ | n
  · simp only [found, hk] at h
    simp [materialize, hk, ← Node.map.inj h]
  · cases n <;> simp_all [materialize, found]

theorem materialize_cons_of_leaf {es : Entries} {key : String} {rest : List String}
    (hr : rest ≠ []) (h : (es.found key).entries? = none) :
    es.materialize (key :: rest) = (.null, es.insert key (es.found key)) := by
  obtain ⟨k, more, rfl⟩ := List.exists_cons_of_ne_nil hr
  rcases hk : es.get? key with _ | n
  · simp [found, hk, Node.entries?] at h
  · cases n <;> simp_all [materialize, found, Node.entries?]

/-- Looking at something that is not null finds it, and makes nothing. -/
theorem materialize_of_at? {es : Entries} {path : List String} {n : Node} (hp : path ≠ [])
    (hn : n.isNull = false) (h : (Node.map es).at? path = some n) :
    es.materialize path = (n, es) := by
  induction path generalizing es with
  | nil => exact absurd rfl hp
  | cons key rest ih =>
    obtain ⟨_, child, he, hc, hb⟩ := Node.at?_cons_eq_some_iff.mp h
    cases he
    by_cases hr : rest = []
    · subst hr
      cases hb
      rw [materialize_singleton, found_of_get? hc hn, insert_of_get? hc]
    · obtain ⟨k, more, rfl⟩ := List.exists_cons_of_ne_nil hr
      obtain ⟨inner, rfl⟩ := Node.exists_map_of_at?_cons hb
      rw [materialize_cons_of_map hr (found_of_get? hc rfl), ih hr hb, insert_of_get? hc]

theorem Distinct.materialize {es : Entries} (h : es.Distinct) (path : List String) :
    (es.materialize path).1.Distinct ∧ (es.materialize path).2.Distinct := by
  induction path generalizing es with
  | nil => exact ⟨Node.distinct_of_entries?_eq_none rfl, h⟩
  | cons key rest ih =>
    have hf := Distinct.found h key
    by_cases hrest : rest = []
    · subst hrest
      rw [materialize_singleton]
      exact ⟨hf, h.insert key hf⟩
    · cases hk : (es.found key).entries? with
      | none =>
        rw [materialize_cons_of_leaf hrest hk]
        exact ⟨Node.distinct_of_entries?_eq_none rfl, h.insert key hf⟩
      | some inner =>
        have he : es.found key = .map inner := Node.entries?_eq_some_iff.mp hk
        rw [materialize_cons_of_map hrest he]
        obtain ⟨node, below⟩ := ih (he ▸ hf)
        exact ⟨node, h.insert key below⟩

/-- Looking at a path leaves every plain value where it is. -/
theorem at?_materialize {es : Entries} (path : List String) {other : List String} {leaf : Node}
    (hl : leaf.entries? = none) (hn : leaf.isNull = false)
    (h : (Node.map es).at? other = some leaf) :
    (Node.map (es.materialize path).2).at? other = some leaf := by
  induction path generalizing es other with
  | nil => exact h
  | cons key rest ih =>
    cases other with
    | nil => cases h; simp [Node.entries?] at hl
    | cons k more =>
      obtain ⟨_, child, he, hc, hb⟩ := Node.at?_cons_eq_some_iff.mp h
      cases he
      -- the child is not null, since the leaf is it or lies below it
      have child_ne : child.isNull = false := by
        cases more with
        | nil => cases hb; exact hn
        | cons _ _ => obtain ⟨_, rfl⟩ := Node.exists_map_of_at?_cons hb; rfl
      have untouched {n : Node} (hkey : k = key → n = child) :
          (Node.map (es.insert key n)).at? (k :: more) = some leaf := by
        rw [Node.at?_map_cons]
        by_cases hk : k = key
        · rw [hk, get?_insert_self, hkey hk]
          exact hb
        · rw [get?_insert_of_ne hk, hc]
          exact hb
      have found_eq (hk : k = key) : es.found key = child :=
        found_of_get? (hk ▸ hc) child_ne
      by_cases hrest : rest = []
      · subst hrest
        rw [materialize_singleton]
        exact untouched found_eq
      · cases hf : (es.found key).entries? with
        | none =>
          rw [materialize_cons_of_leaf hrest hf]
          exact untouched found_eq
        | some inner =>
          have he : es.found key = .map inner := Node.entries?_eq_some_iff.mp hf
          rw [materialize_cons_of_map hrest he]
          by_cases hk : k = key
          · have hchild : child = .map inner := (found_eq hk).symm.trans he
            rw [hk, at?_insert_self]
            exact ih (hchild ▸ hb)
          · exact untouched fun h => absurd h hk

theorem copy_eq (es : Entries) (target source : List String) :
    es.copy target source =
      (es.materialize source).2.set target (es.materialize source).1 := rfl

/-- A copy of something is a write of it. -/
theorem copy_of_getPath? {es : Entries} {source : List String} {n : Node} (hn : n ≠ .null)
    (h : es.getPath? source = some n) (target : List String) :
    es.copy target source = es.set target n := by
  have hs : source ≠ [] := by
    rintro rfl
    cases h
  rw [getPath?_eq_at? es hs] at h
  rw [copy_eq, materialize_of_at? hs (Node.isNull_eq_false_of_ne hn) h]

theorem Distinct.copy {es : Entries} (h : es.Distinct) (target source : List String) :
    (es.copy target source).Distinct := by
  obtain ⟨node, rest⟩ := h.materialize source
  exact rest.set target node

/-- Overruling leaves a plain value that the overruling entries neither cut off nor replace by
another. -/
theorem at?_overrule {new old : Entries} (distinct : new.Distinct) {path : List String}
    {leaf : Node} (hp : path ≠ []) (hl : leaf.entries? = none)
    (hold : (Node.map old).at? path = some leaf)
    (way : ∀ p, p ≠ [] → p <+: path → p ≠ path →
      ∀ n, (Node.map new).at? p = some n → n.entries?.isSome)
    (same : ∀ n, (Node.map new).at? path = some n → n = leaf) :
    (Node.map (overrule new old)).at? path = some leaf := by
  induction path generalizing new old with
  | nil => exact absurd rfl hp
  | cons key rest ih =>
    obtain ⟨nodup, below⟩ := Node.distinct_map_iff.mp distinct
    obtain ⟨_, child, he, hc, hb⟩ := Node.at?_cons_eq_some_iff.mp hold
    cases he
    rw [Node.at?_map_cons]
    rcases hk : new.get? key with _ | n
    · rw [get?_overrule_of_not_mem old (get?_eq_none_iff.mp hk), hc]
      exact hb
    · rw [get?_overrule nodup old hk, hc]
      have at_new (p : List String) : (Node.map new).at? (key :: p) = n.at? p := by
        rw [Node.at?_map_cons, hk]
        rfl
      by_cases hrest : rest = []
      · subst hrest
        have : n = leaf := same n (by rw [at_new]; rfl)
        rw [this, Node.overrule_of_entries?_eq_none hl]
        rfl
      · obtain ⟨k, more, rfl⟩ := List.exists_cons_of_ne_nil hrest
        obtain ⟨inner, rfl⟩ := Node.exists_map_of_at?_cons hb
        have hn : n.entries?.isSome :=
          way [key] (by simp) (by simp) (by simp) n (by rw [at_new]; rfl)
        obtain ⟨added, hadded⟩ := Option.isSome_iff_exists.mp hn
        obtain rfl : n = .map added := Node.entries?_eq_some_iff.mp hadded
        refine ih (below key _ hk) hrest hb (fun p hp hle hne m hm => ?_) fun m hm => ?_
        · exact way (key :: p) (by simp) (by simpa using hle) (by simpa using hne) m
            (by rw [at_new]; exact hm)
        · exact same m (by rw [at_new]; exact hm)

end Entries

/-- Whether writing the node to an object leaves a plain value at a path below it: the node must be
something, and hold nothing but maps on the way and nothing else at the end of it. -/
structure Node.Spares (n : Node) (path : List String) (leaf : Node) : Prop where
  something : n.isNull = false
  way : ∀ p, p ≠ [] → p <+: path → p ≠ path → ∀ m, n.at? p = some m → m.entries?.isSome
  same : ∀ m, n.at? path = some m → m = leaf

/-- A node without the first key on the way spares everything on it. -/
theorem Node.spares_of_get?_eq_none {n leaf : Node} {key : String} (something : n.isNull = false)
    (h : n.get? key = none) (rest : List String) : n.Spares (key :: rest) leaf where
  something := something
  way p hp hle _ m hm := by
    obtain ⟨k, more, rfl⟩ := List.exists_cons_of_ne_nil hp
    obtain ⟨rfl, _⟩ := List.cons_prefix_cons.mp hle
    simp [at?_cons, h] at hm
  same m hm := by simp [at?_cons, h] at hm

theorem Entries.at?_set_of_spares {es : Entries} {path rest : List String} {key : String}
    (hp : path ≠ []) (hk : key ∉ Key.tags) {n leaf : Node} (distinct : n.Distinct)
    (plain : leaf.entries? = none) (spares : n.Spares (key :: rest) leaf)
    (hl : (Node.map es).at? (path ++ key :: rest) = some leaf) :
    (Node.map (es.set path n)).at? (path ++ key :: rest) = some leaf := by
  rw [Node.at?_append] at hl ⊢
  obtain ⟨object, ho, hl⟩ := Option.bind_eq_some_iff.mp hl
  obtain ⟨inner, rfl⟩ := Node.exists_map_of_at?_cons hl
  rw [at?_set_self hp ho]
  cases he : n.entries? with
  | some new =>
    obtain rfl := Node.entries?_eq_some_iff.mp he
    exact at?_overrule distinct (List.cons_ne_nil _ _) plain hl spares.way spares.same
  | none =>
    rw [Node.placed_map_of_plain he spares.something, Option.bind_some, Node.at?_map_cons,
      get?_tag_of_not_mem inner n hk]
    exact hl

end FusionTree
