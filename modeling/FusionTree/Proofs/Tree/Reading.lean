import FusionTree.Tree.Update

/-!
# Reading along a path

`Node.at?` reads below a node, and reading a tree at a path is reading below the map of its entries.
A node is `Distinct` if no map in it has a key twice; only then does a reading tell everything about
the entries.
-/

namespace FusionTree

/-- The node at a path below a node; the node itself is at the empty path. -/
def Node.at? : Node → List String → Option Node
  | n, [] => some n
  | n, key :: rest => (n.get? key).bind (·.at? rest)

namespace Node

@[simp] theorem at?_nil (n : Node) : n.at? [] = some n := rfl

theorem at?_cons (n : Node) (key : String) (rest : List String) :
    n.at? (key :: rest) = (n.get? key).bind (·.at? rest) := rfl

@[simp] theorem at?_singleton (n : Node) (key : String) : n.at? [key] = n.get? key := by
  rw [at?_cons]
  cases n.get? key <;> rfl

@[simp] theorem get?_map (es : Entries) (key : String) : (map es).get? key = es.get? key := rfl

theorem entries?_eq_some_iff {n : Node} {es : Entries} : n.entries? = some es ↔ n = map es := by
  cases n <;> simp [entries?]

theorem at?_map_cons (es : Entries) (key : String) (rest : List String) :
    (map es).at? (key :: rest) = (es.get? key).bind (·.at? rest) := rfl

theorem bind_entries?_eq_some_iff {o : Option Node} {es : Entries} :
    o.bind entries? = some es ↔ o = some (map es) := by
  simp [Option.bind_eq_some_iff, entries?_eq_some_iff]

theorem get?_eq_some_iff {n m : Node} {key : String} :
    n.get? key = some m ↔ ∃ es : Entries, n = map es ∧ es.get? key = some m := by
  cases n <;> simp [get?, entries?]

theorem at?_cons_eq_some_iff {n m : Node} {key : String} {rest : List String} :
    n.at? (key :: rest) = some m ↔
      ∃ (es : Entries) (child : Node), n = map es ∧ es.get? key = some child ∧
        child.at? rest = some m := by
  rw [at?_cons, Option.bind_eq_some_iff]
  constructor
  · rintro ⟨child, h, hm⟩
    obtain ⟨es, rfl, hc⟩ := get?_eq_some_iff.mp h
    exact ⟨es, child, rfl, hc, hm⟩
  · rintro ⟨es, child, rfl, hc, hm⟩
    exact ⟨child, hc, hm⟩

theorem at?_append (n : Node) (p q : List String) :
    n.at? (p ++ q) = (n.at? p).bind (·.at? q) := by
  induction p generalizing n with
  | nil => rfl
  | cons key rest ih => simp [at?_cons, ih, Option.bind_assoc]

theorem isNull_eq_false_of_ne {n : Node} (h : n ≠ null) : n.isNull = false := by
  cases n with
  | null => exact absurd rfl h
  | _ => rfl

/-- Nothing is read below anything but a map. -/
theorem exists_map_of_at?_cons {n m : Node} {key : String} {rest : List String}
    (h : n.at? (key :: rest) = some m) : ∃ es : Entries, n = map es := by
  obtain ⟨es, _, he, _⟩ := at?_cons_eq_some_iff.mp h
  exact ⟨es, he⟩

/-- A map is read from nothing but a map. -/
theorem exists_map_of_at?_map {n : Node} {path : List String} {es : Entries}
    (h : n.at? path = some (map es)) : ∃ inner : Entries, n = map inner := by
  cases path with
  | nil => exact ⟨es, Option.some.inj h⟩
  | cons key rest => exact exists_map_of_at?_cons h

end Node

namespace Entries

theorem getPath?_cons (es : Entries) (key : String) (rest : List String) :
    es.getPath? (key :: rest) = (es.get? key).bind (·.at? rest) := by
  have foldl (o : Option Node) :
      rest.foldl (fun node k => node.bind (·.get? k)) o = o.bind (·.at? rest) := by
    induction rest generalizing o with
    | nil => cases o <;> rfl
    | cons k rest ih => rw [List.foldl_cons, ih, Option.bind_assoc]; rfl
  exact foldl _

theorem getPath?_eq_at? (es : Entries) {path : List String} (h : path ≠ []) :
    es.getPath? path = (Node.map es).at? path := by
  cases path with
  | nil => exact absurd rfl h
  | cons key rest => rw [getPath?_cons]; rfl

theorem at?_insert_self (es : Entries) (key : String) (n : Node) (rest : List String) :
    (Node.map (es.insert key n)).at? (key :: rest) = n.at? rest := by
  rw [Node.at?_map_cons, get?_insert_self, Option.bind_some]

theorem at?_insert_of_ne {es : Entries} {key other : String} (h : other ≠ key) (n : Node)
    (rest : List String) :
    (Node.map (es.insert key n)).at? (other :: rest) = (Node.map es).at? (other :: rest) := by
  rw [Node.at?_map_cons, Node.at?_map_cons, get?_insert_of_ne h]

theorem get?_eq_none_iff {es : Entries} {key : String} : es.get? key = none ↔ key ∉ es.keys := by
  induction es with
  | nil => simp [keys]
  | cons entry rest ih =>
    obtain ⟨k, n⟩ := entry
    by_cases h : k = key
    · simp [get?_cons, keys, h]
    · simp [get?_cons, keys, h, Ne.symm h, ih]

theorem keys_insert_nodup {es : Entries} (h : es.keys.Nodup) (key : String) (node : Node) :
    (es.insert key node).keys.Nodup := by
  by_cases hk : key ∈ es.keys
  · rwa [keys_insert_of_mem node hk]
  · rw [keys_insert_of_not_mem node hk]
    exact List.nodup_append.mpr ⟨h, by simp, by rintro a ha b hb rfl; simp_all⟩

end Entries

/-- No map in the node has a key twice. -/
def Node.Distinct (n : Node) : Prop :=
  ∀ (path : List String) (es : Entries), n.at? path = some (.map es) → es.keys.Nodup

abbrev Entries.Distinct (es : Entries) : Prop :=
  (Node.map es).Distinct

namespace Node

theorem Distinct.at? {n m : Node} (h : n.Distinct) {path : List String} (hm : n.at? path = some m) :
    m.Distinct := by
  intro rest es hr
  refine h (path ++ rest) es ?_
  rw [at?_append, hm]
  exact hr

theorem distinct_map_iff {es : Entries} :
    (map es).Distinct ↔ es.keys.Nodup ∧ ∀ key n, es.get? key = some n → n.Distinct := by
  constructor
  · intro h
    refine ⟨h [] es rfl, fun key n hn => ?_⟩
    have hk : (map es).at? [key] = some n := by simpa using hn
    exact h.at? hk
  · rintro ⟨nodup, below⟩ path inner hp
    cases path with
    | nil => cases hp; exact nodup
    | cons key rest =>
      obtain ⟨_, child, he, hc, hr⟩ := at?_cons_eq_some_iff.mp hp
      cases he
      exact below key child hc rest inner hr

/-- What is no map holds no key at all. -/
theorem distinct_of_entries?_eq_none {n : Node} (h : n.entries? = none) : n.Distinct := by
  intro path es hp
  cases path with
  | nil => cases hp; simp [entries?] at h
  | cons key rest =>
    obtain ⟨_, rfl⟩ := exists_map_of_at?_cons hp
    simp [entries?] at h

end Node

namespace Entries.Distinct

theorem nil : Entries.Distinct [] :=
  Node.distinct_map_iff.mpr ⟨by simp [keys], by simp⟩

theorem get? {es : Entries} (h : es.Distinct) {key : String} {n : Node}
    (hn : es.get? key = some n) : n.Distinct :=
  (Node.distinct_map_iff.mp h).2 key n hn

theorem insert {es : Entries} (h : es.Distinct) (key : String) {n : Node} (hn : n.Distinct) :
    (es.insert key n).Distinct := by
  obtain ⟨nodup, below⟩ := Node.distinct_map_iff.mp h
  refine Node.distinct_map_iff.mpr ⟨keys_insert_nodup nodup key n, fun k m hm => ?_⟩
  by_cases hk : k = key
  · subst hk
    rw [get?_insert_self] at hm
    cases hm
    exact hn
  · exact below k m (by rwa [get?_insert_of_ne hk] at hm)

theorem erase {es : Entries} (h : es.Distinct) (key : String) : (es.erase key).Distinct := by
  obtain ⟨nodup, below⟩ := Node.distinct_map_iff.mp h
  refine Node.distinct_map_iff.mpr ⟨?_, fun k m hm => ?_⟩
  · rw [keys_erase]
    exact nodup.filter _
  · by_cases hk : k = key
    · simp [hk] at hm
    · exact below k m (by rwa [get?_erase_of_ne hk] at hm)

end Entries.Distinct

end FusionTree
