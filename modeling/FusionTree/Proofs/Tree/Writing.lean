import FusionTree.Proofs.Tree.Reading

/-!
# What writing does to what is read

`set` is described by its view: what it leaves at its path, on the way to it and elsewhere. The
three tags are the only keys that a write makes without having been given them.
-/

namespace FusionTree

/-- The keys that say what an object is, apart from its properties. -/
def Key.tags : List String := [value, eel, objectType]

/-- What a node leaves where another one may stand already. -/
def Node.placed (n : Node) : Option Node → Option Node
  | some (.map old) =>
    match n with
    | .null => none
    | .map new => some (.map (Entries.overrule new old))
    | value => some (.map (Entries.tag old value))
  | some .null | none => some n
  | some _ => if n.isNull then none else some n

namespace Node

/-- A plain value tags a map. -/
theorem placed_map_of_plain {n : Node} (plain : n.entries? = none) (hn : n.isNull = false)
    (old : Entries) : n.placed (some (.map old)) = some (.map (old.tag n)) := by
  cases n with
  | null => cases hn
  | map => cases plain
  | _ => rfl

/-- What is not null replaces everything but a map. -/
theorem placed_of_no_map {n : Node} (hn : n.isNull = false) {old : Option Node}
    (h : old.bind entries? = none) : n.placed old = some n := by
  rcases old with _ | o
  · rfl
  · cases o with
    | map => cases h
    | null => rfl
    | _ => simp [Node.placed, hn]

/-- Where no map stands a node is put, or what is there is removed. -/
theorem placed_eq_some_or_none (n : Node) {old : Option Node} (h : old.bind entries? = none) :
    n.placed old = some n ∨ n.placed old = none := by
  rcases old with _ | o
  · exact .inl rfl
  · cases o with
    | map => cases h
    | null => exact .inl rfl
    | _ => cases hn : n.isNull <;> simp [Node.placed, hn]

/-- What a node makes of a map: the two merged, or the map tagged with a plain value. -/
theorem placed_map_cases {n m : Node} {old : Entries} (h : n.placed (some (.map old)) = some m) :
    (∃ new : Entries, n = map new ∧ m = map (Entries.overrule new old)) ∨
      n.entries? = none ∧ n.isNull = false ∧ m = map (old.tag n) := by
  cases n with
  | null => cases h
  | map new => exact .inl ⟨new, rfl, (Option.some.inj h).symm⟩
  | _ => exact .inr ⟨rfl, rfl, (Option.some.inj h).symm⟩

/-- What is not null leaves something. -/
theorem exists_placed {n : Node} (hn : n.isNull = false) (old : Option Node) :
    ∃ m, n.placed old = some m := by
  cases h : old.bind entries? with
  | none => exact ⟨n, placed_of_no_map hn h⟩
  | some es =>
    obtain rfl := bind_entries?_eq_some_iff.mp h
    cases n with
    | null => cases hn
    | _ => exact ⟨_, rfl⟩

end Node

/-! ### Overruling one node -/

theorem Node.overrule_of_entries?_eq_none {n : Node} (h : n.entries? = none)
    (base : Option Node) : n.overrule base = n := by
  cases n <;> first | rfl | simp [entries?] at h

@[simp] theorem Node.overrule_map_map (new old : Entries) :
    (Node.map new).overrule (some (.map old)) = .map (Entries.overrule new old) := rfl

@[simp] theorem Node.overrule_none (n : Node) : n.overrule none = n := by
  cases n <;> rfl

/-- There is nothing to merge into where no map is. -/
theorem Node.overrule_of_no_map (n : Node) {base : Option Node} (h : base.bind entries? = none) :
    n.overrule base = n := by
  rcases base with _ | b
  · exact n.overrule_none
  · cases b with
    | map => cases h
    | _ => cases n <;> rfl

/-- A map that is written overrules what is there. -/
theorem Node.placed_map (new : Entries) (old : Option Node) :
    (Node.map new).placed old = some ((Node.map new).overrule old) := by
  rcases old with _ | o
  · rfl
  · cases o <;> rfl

namespace Entries

/-! ### Tags -/

theorem get?_tag_of_not_mem (es : Entries) (value : Node) {key : String} (h : key ∉ Key.tags) :
    (es.tag value).get? key = es.get? key := by
  simp only [Key.tags, List.mem_cons, List.not_mem_nil, or_false, not_or] at h
  obtain ⟨hv, he, ho⟩ := h
  rw [tag, get?_insert_of_ne ho, get?_insert_of_ne he, get?_insert_of_ne hv]

@[simp] theorem get?_tag_value (es : Entries) (value : Node) :
    (es.tag value).get? Key.value = some value := by
  rw [tag, get?_insert_of_ne (by decide), get?_insert_of_ne (by decide), get?_insert_self]

@[simp] theorem get?_tag_eel (es : Entries) (value : Node) :
    (es.tag value).get? Key.eel = some .null := by
  rw [tag, get?_insert_of_ne (by decide), get?_insert_self]

@[simp] theorem get?_tag_objectType (es : Entries) (value : Node) :
    (es.tag value).get? Key.objectType = some .null := by
  rw [tag, get?_insert_self]

/-- Tagging a second time changes nothing. -/
theorem tag_tag (es : Entries) (value : Node) : (es.tag value).tag value = es.tag value := by
  rw [tag, insert_of_get? (get?_tag_value es value), insert_of_get? (get?_tag_eel es value),
    insert_of_get? (get?_tag_objectType es value)]

theorem Distinct.tag {es : Entries} (h : es.Distinct) {value : Node} (hv : value.Distinct) :
    (es.tag value).Distinct := by
  have null : Node.null.Distinct := Node.distinct_of_entries?_eq_none rfl
  exact ((h.insert _ hv).insert _ null).insert _ null

/-! ### Overruling -/

@[simp] theorem overrule_nil (base : Entries) : overrule [] base = base := rfl

theorem overrule_cons (key : String) (n : Node) (rest base : Entries) :
    overrule ((key, n) :: rest) base =
      overrule rest (base.insert key (n.overrule (base.get? key))) := rfl

theorem get?_overrule_of_not_mem {new : Entries} (base : Entries) {key : String}
    (h : key ∉ new.keys) : (overrule new base).get? key = base.get? key := by
  induction new generalizing base with
  | nil => rfl
  | cons entry rest ih =>
    obtain ⟨k, n⟩ := entry
    simp only [keys, List.map_cons, List.mem_cons, not_or] at h
    rw [overrule_cons, ih _ h.2, get?_insert_of_ne h.1]

/-- A key is overruled once, by its only entry. -/
theorem get?_overrule {new : Entries} (nodup : new.keys.Nodup) (base : Entries) {key : String}
    {n : Node} (h : new.get? key = some n) :
    (overrule new base).get? key = some (n.overrule (base.get? key)) := by
  induction new generalizing base with
  | nil => simp at h
  | cons entry rest ih =>
    obtain ⟨k, m⟩ := entry
    obtain ⟨absent, nodup⟩ := List.nodup_cons.mp nodup
    rw [overrule_cons]
    by_cases hk : k = key
    · subst hk
      rw [get?_cons, if_pos rfl, Option.some.injEq] at h
      rw [get?_overrule_of_not_mem _ absent, get?_insert_self, h]
    · rw [get?_cons, if_neg hk] at h
      rw [ih nodup _ h, get?_insert_of_ne (Ne.symm hk)]

end Entries

mutual

theorem Node.Distinct.overrule : {n : Node} → n.Distinct → (base : Option Node) →
    (∀ m, base = some m → m.Distinct) → (n.overrule base).Distinct
  | .map new, hn, some (.map old), hb => by
    rw [Node.overrule_map_map]
    exact Entries.Distinct.overrule hn (hb _ rfl)
  | .map _, hn, none, _ | .map _, hn, some .null, _ | .map _, hn, some (.bool _), _
  | .map _, hn, some (.int _), _ | .map _, hn, some (.float _), _
  | .map _, hn, some (.string _), _ | .map _, hn, some (.list _), _ => hn
  | .null, hn, _, _ | .bool _, hn, _, _ | .int _, hn, _, _ | .float _, hn, _, _
  | .string _, hn, _, _ | .list _, hn, _, _ => hn

theorem Entries.Distinct.overrule : {new : List (String × Node)} → Entries.Distinct new →
    {base : Entries} → base.Distinct → (Entries.overrule new base).Distinct
  | [], _, _, hb => hb
  | (key, n) :: rest, hn, base, hb => by
    obtain ⟨nodup, below⟩ := Node.distinct_map_iff.mp hn
    obtain ⟨absent, nodup⟩ := List.nodup_cons.mp nodup
    have head : n.Distinct := below key n (by simp [Entries.get?_cons])
    have tail : Entries.Distinct rest := Node.distinct_map_iff.mpr ⟨nodup, fun k m hm => by
      refine below k m ?_
      have : key ≠ k := by
        rintro rfl
        rw [Entries.get?_eq_none_iff.mpr absent] at hm
        cases hm
      rwa [Entries.get?_cons, if_neg this]⟩
    exact tail.overrule (hb.insert key (head.overrule _ fun m hm => hb.get? hm))

end

namespace Entries

/-! ### Writing under a key -/

theorem get?_write_self (es : Entries) (key : String) (n : Node) :
    (es.write key n).get? key = n.placed (es.get? key) := by
  rcases h : es.get? key with _ | old
  · simp [write, h, Node.placed]
  · cases old <;> cases n <;> simp [write, h, Node.placed, Node.isNull]

theorem get?_write_of_ne (es : Entries) {key other : String} (h : other ≠ key) (n : Node) :
    (es.write key n).get? other = es.get? other := by
  rcases hk : es.get? key with _ | old
  · simp [write, hk, get?_insert_of_ne h]
  · cases old <;> cases n <;>
      simp [write, hk, Node.isNull, get?_insert_of_ne h, get?_erase_of_ne h]

theorem Distinct.write {es : Entries} (h : es.Distinct) (key : String) {n : Node}
    (hn : n.Distinct) : (es.write key n).Distinct := by
  unfold Entries.write
  split
  · rename_i old hk
    split
    · exact h.erase key
    · exact h.insert key (Distinct.overrule hn (h.get? hk))
    · exact h.insert key (Distinct.tag (h.get? hk) hn)
  · exact h.insert key hn
  · exact h.insert key hn
  · split
    · exact h.erase key
    · exact h.insert key hn

/-! ### Writing at a path -/

@[simp] theorem opened_none : opened none = [] := rfl

@[simp] theorem opened_map (es : Entries) : opened (some (.map es)) = es := rfl

/-- A path runs through nothing yet, through the map that stands there, or through the tags of the
plain value that stands there. -/
theorem opened_cases (old : Option Node) :
    opened old = [] ∨ (∃ inner : Entries, old = some (.map inner) ∧ opened old = inner) ∨
      ∃ n, old = some n ∧ n.entries? = none ∧ n.isNull = false ∧
        opened old = Node.taggedEntries n := by
  rcases old with _ | n
  · exact .inl rfl
  · cases n with
    | null => exact .inl rfl
    | map inner => exact .inr (.inl ⟨inner, rfl, rfl⟩)
    | _ => exact .inr (.inr ⟨_, rfl, rfl, rfl, rfl⟩)

theorem Distinct.opened {o : Option Node} (h : ∀ n, o = some n → n.Distinct) :
    (opened o).Distinct := by
  rcases o with _ | n
  · exact Distinct.nil
  · cases n <;> first
      | exact h _ rfl
      | exact Distinct.nil
      | exact Distinct.tag Distinct.nil (h _ rfl)

@[simp] theorem set_nil (es : Entries) (n : Node) : es.set [] n = es := rfl

@[simp] theorem set_singleton (es : Entries) (key : String) (n : Node) :
    es.set [key] n = es.write key n := rfl

theorem at?_set_singleton (es : Entries) (key : String) (n : Node) :
    (Node.map (es.set [key] n)).at? [key] = n.placed (es.get? key) := by
  rw [Node.at?_singleton, set_singleton, Node.get?_map, get?_write_self]

theorem set_cons (es : Entries) (key : String) {rest : List String} (h : rest ≠ []) (n : Node) :
    es.set (key :: rest) n = es.insert key (.map ((opened (es.get? key)).set rest n)) := by
  cases rest with
  | nil => exact absurd rfl h
  | cons _ _ => rfl

theorem Distinct.set {es : Entries} (h : es.Distinct) (path : List String) {n : Node}
    (hn : n.Distinct) : (es.set path n).Distinct := by
  induction path generalizing es with
  | nil => exact h
  | cons key rest ih =>
    by_cases hr : rest = []
    · subst hr
      exact h.write key hn
    · rw [set_cons es key hr]
      exact h.insert key (ih (Distinct.opened fun m hm => h.get? hm))

theorem get?_set_of_ne (es : Entries) {key other : String} (h : other ≠ key) (rest : List String)
    (n : Node) : (es.set (key :: rest) n).get? other = es.get? other := by
  by_cases hr : rest = []
  · subst hr
    exact get?_write_of_ne es h n
  · rw [set_cons es key hr, get?_insert_of_ne h]

/-- A write leaves what stands at a path that neither leads to the written one nor goes on from
it. -/
theorem at?_set_of_incomparable {es : Entries} {path other : List String} {n m : Node}
    (h : ¬path <+: other) (h' : ¬other <+: path) (hm : (Node.map es).at? other = some m) :
    (Node.map (es.set path n)).at? other = some m := by
  induction path generalizing es other with
  | nil => exact absurd (List.nil_prefix) h
  | cons key rest ih =>
    cases other with
    | nil => exact absurd (List.nil_prefix) h'
    | cons k more =>
      obtain ⟨_, child, he, hc, hr⟩ := Node.at?_cons_eq_some_iff.mp hm
      cases he
      by_cases hk : k = key
      · subst hk
        simp only [List.cons_prefix_cons, true_and] at h h'
        have rest_ne : rest ≠ [] := by rintro rfl; exact h List.nil_prefix
        have more_ne : more ≠ [] := by rintro rfl; exact h' List.nil_prefix
        -- something stands below the key, so the write finds a map there
        obtain ⟨k', more, rfl⟩ := List.exists_cons_of_ne_nil more_ne
        obtain ⟨inner, rfl⟩ := Node.exists_map_of_at?_cons hr
        refine Node.at?_cons_eq_some_iff.mpr ⟨_, _, rfl, ?_, ih h h' hr⟩
        rw [set_cons es k rest_ne, get?_insert_self, hc, opened_map]
      · refine Node.at?_cons_eq_some_iff.mpr ⟨_, child, rfl, ?_, hr⟩
        rw [get?_set_of_ne es hk, hc]

/-- What a write leaves at its path, where something stands. -/
theorem at?_set_self {es : Entries} {path : List String} (h : path ≠ []) {n m : Node}
    (hm : (Node.map es).at? path = some m) :
    (Node.map (es.set path n)).at? path = n.placed (some m) := by
  induction path generalizing es with
  | nil => exact absurd rfl h
  | cons key rest ih =>
    obtain ⟨_, child, he, hc, hr⟩ := Node.at?_cons_eq_some_iff.mp hm
    cases he
    by_cases hrest : rest = []
    · subst hrest
      cases hr
      rw [at?_set_singleton, hc]
    · obtain ⟨k, more, rfl⟩ := List.exists_cons_of_ne_nil hrest
      obtain ⟨inner, rfl⟩ := Node.exists_map_of_at?_cons hr
      rw [set_cons es key hrest, at?_insert_self, hc, opened_map]
      exact ih hrest hr

/-- What a write leaves at its path, whatever stands there and on the way. -/
theorem exists_at?_set_self (es : Entries) {path : List String} (h : path ≠ []) (n : Node) :
    ∃ old, (Node.map (es.set path n)).at? path = n.placed old := by
  induction path generalizing es with
  | nil => exact absurd rfl h
  | cons key rest ih =>
    by_cases hrest : rest = []
    · subst hrest
      exact ⟨es.get? key, at?_set_singleton es key n⟩
    · obtain ⟨old, ho⟩ := ih (opened (es.get? key)) hrest
      refine ⟨old, ?_⟩
      rw [set_cons es key hrest, at?_insert_self]
      exact ho

/-- A write below a node opens it and goes on inside. -/
theorem at?_set_append {es : Entries} {path rest : List String} (h : path ≠ []) (hr : rest ≠ [])
    {n m : Node} (hm : (Node.map es).at? path = some m) :
    (Node.map (es.set (path ++ rest) n)).at? path =
      some (.map ((opened (some m)).set rest n)) := by
  induction path generalizing es with
  | nil => exact absurd rfl h
  | cons key more ih =>
    obtain ⟨_, child, he, hc, hb⟩ := Node.at?_cons_eq_some_iff.mp hm
    cases he
    rw [List.cons_append, set_cons es key (by simp [hr]), at?_insert_self, hc]
    by_cases hmore : more = []
    · subst hmore
      cases hb
      rfl
    · obtain ⟨k, more, rfl⟩ := List.exists_cons_of_ne_nil hmore
      obtain ⟨inner, rfl⟩ := Node.exists_map_of_at?_cons hb
      rw [opened_map]
      exact ih hmore hb

/-! ### Unsetting a path -/

theorem opened_placed_null (o : Option Node) : opened (Node.null.placed o) = [] := by
  rcases o with _ | n
  · rfl
  · cases n <;> rfl

/-- The mark goes where null leaves the key, or to the end if null has removed it. -/
theorem unset_singleton (es : Entries) (key : String) :
    es.unset [key] = (es.write key .null).insert key (.map [(Key.stop, .bool true)]) := by
  rw [unset, List.singleton_append, set_cons _ key (by simp), set_singleton, get?_write_self,
    opened_placed_null]
  rfl

theorem unset_cons (es : Entries) (key : String) {rest : List String} (h : rest ≠ []) :
    es.unset (key :: rest) = es.insert key (.map ((opened (es.get? key)).unset rest)) := by
  rw [unset, List.cons_append, set_cons es key h, set_cons _ key (by simp), get?_insert_self,
    opened_map, insert_insert_self, unset]

/-- An unset leaves nothing but the mark. -/
theorem at?_unset_self (es : Entries) {path : List String} (h : path ≠ []) :
    (Node.map (es.unset path)).at? path = some (.map [(Key.stop, .bool true)]) := by
  induction path generalizing es with
  | nil => exact absurd rfl h
  | cons key rest ih =>
    by_cases hrest : rest = []
    · subst hrest
      rw [unset_singleton, at?_insert_self, Node.at?_nil]
    · rw [unset_cons es key hrest, at?_insert_self]
      exact ih _ hrest

/-- A path aside is aside of every path that goes on from there. -/
theorem aside_append {path other : List String} (h : ¬path <+: other) (h' : ¬other <+: path)
    (rest : List String) : ¬path ++ rest <+: other ∧ ¬other <+: path ++ rest := by
  have le : path <+: path ++ rest := List.prefix_append path rest
  refine ⟨fun before => h (le.trans before), fun behind => ?_⟩
  exact (List.prefix_or_prefix_of_prefix le behind).elim h h'

/-- An unset leaves what stands at a path that neither leads to its own nor goes on from it. -/
theorem at?_unset_of_incomparable {es : Entries} {path other : List String} {m : Node}
    (h : ¬path <+: other) (h' : ¬other <+: path) (hm : (Node.map es).at? other = some m) :
    (Node.map (es.unset path)).at? other = some m := by
  obtain ⟨mark, mark'⟩ := aside_append h h' [Key.stop]
  exact at?_set_of_incomparable mark mark' (at?_set_of_incomparable h h' hm)

theorem Distinct.unset {es : Entries} (h : es.Distinct) (path : List String) :
    (es.unset path).Distinct :=
  (h.set path (Node.distinct_of_entries?_eq_none rfl)).set _ (Node.distinct_of_entries?_eq_none rfl)

end Entries

end FusionTree
