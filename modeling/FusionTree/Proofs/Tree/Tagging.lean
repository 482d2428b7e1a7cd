import FusionTree.Proofs.Tree.Linking
import FusionTree.Proofs.Tree.Writing

/-!
# What an object is, through later writes

The tags of an object say what it was last assigned. Where an object is a plain value the tags are
those that it would get on being opened, so they are looked up in what the object opens to. Later
writes to its properties and to the objects around it leave the tags alone.
-/

namespace FusionTree

/-- What the tags of an object hold. -/
structure Tags where
  value : Node := .null
  eel : Node := .null
  objectType : Node := .null

structure Entries.Tagged (es : Entries) (t : Tags) : Prop where
  value : es.get? Key.value = some t.value
  eel : es.get? Key.eel = some t.eel
  objectType : es.get? Key.objectType = some t.objectType

/-- Whether the node is a plain value or holds nothing but tags. -/
def Node.IsFact (n : Node) : Prop :=
  ∀ es : Entries, n = .map es → es.keys.Nodup ∧ ∀ key ∈ es.keys, key ∈ Key.tags

namespace Node

theorem isFact_of_entries?_eq_none {n : Node} (h : n.entries? = none) : n.IsFact := by
  rintro es rfl
  cases h

theorem isFact_objectType (name : String) : (objectType name).IsFact := by
  intro es h
  obtain rfl := Node.map.inj h
  exact ⟨(by decide : [Key.objectType, Key.value, Key.eel].Nodup),
    (by decide : ∀ key ∈ [Key.objectType, Key.value, Key.eel], key ∈ Key.tags)⟩

theorem isFact_eelExpression (code : String) : (eelExpression code).IsFact := by
  intro es h
  obtain rfl := Node.map.inj h
  exact ⟨(by decide : [Key.eel, Key.value, Key.objectType].Nodup),
    (by decide : ∀ key ∈ [Key.eel, Key.value, Key.objectType], key ∈ Key.tags)⟩

/-- A map stands for the plain value that it is tagged with. -/
theorem resolved_map {es : Entries} {v : Node} (h : es.get? Key.value = some v)
    (hv : v.isNull = false) : (map es).resolved = v := by
  simp [resolved, h, hv]

end Node

namespace Entries

theorem Tagged.of_get? {es es' : Entries} {t : Tags} (h : es.Tagged t)
    (same : ∀ key ∈ Key.tags, es'.get? key = es.get? key) : es'.Tagged t where
  value := (same _ (by decide)).trans h.value
  eel := (same _ (by decide)).trans h.eel
  objectType := (same _ (by decide)).trans h.objectType

theorem tagged_tag (es : Entries) (n : Node) : (es.tag n).Tagged { value := n } :=
  ⟨get?_tag_value es n, get?_tag_eel es n, get?_tag_objectType es n⟩

theorem Tagged.overrule {new : Entries} {t : Tags} (h : new.Tagged t) (nodup : new.keys.Nodup)
    (value : t.value.entries? = none) (eel : t.eel.entries? = none)
    (objectType : t.objectType.entries? = none) (old : Entries) :
    (Entries.overrule new old).Tagged t where
  value := by rw [get?_overrule nodup old h.value, Node.overrule_of_entries?_eq_none value]
  eel := by rw [get?_overrule nodup old h.eel, Node.overrule_of_entries?_eq_none eel]
  objectType := by
    rw [get?_overrule nodup old h.objectType, Node.overrule_of_entries?_eq_none objectType]

theorem Tagged.set {es : Entries} {t : Tags} (h : es.Tagged t) {key : String} (hk : key ∉ Key.tags)
    (rest : List String) (n : Node) : (es.set (key :: rest) n).Tagged t :=
  h.of_get? fun tag ht => get?_set_of_ne es (by rintro rfl; exact hk ht) rest n

/-! ### Assigning to the object itself -/

theorem opened_of_plain {n : Node} (plain : n.entries? = none) (hn : n.isNull = false) :
    opened (some n) = Node.taggedEntries n := by
  cases n with
  | null => cases hn
  | map => cases plain
  | _ => rfl

/-- What is not null overrules a map with what it opens to. -/
theorem placed_map_eq_overrule {n : Node} (hn : n.isNull = false) (old : Entries) :
    n.placed (some (.map old)) = some (.map (overrule (opened (some n)) old)) := by
  cases n with
  | null => cases hn
  | _ => rfl

theorem exists_tagged_placed_of_plain {n : Node} (plain : n.entries? = none)
    (hn : n.isNull = false) (old : Option Node) :
    ∃ m, n.placed old = some m ∧ (opened (some m)).Tagged { value := n } := by
  cases h : old.bind Node.entries? with
  | none =>
    refine ⟨n, Node.placed_of_no_map hn h, ?_⟩
    rw [opened_of_plain plain hn]
    exact tagged_tag [] n
  | some es =>
    obtain rfl := Node.bind_entries?_eq_some_iff.mp h
    exact ⟨_, Node.placed_map_of_plain plain hn es, tagged_tag es n⟩

theorem exists_tagged_placed_of_map {new : Entries} {t : Tags} (fact : (Node.map new).IsFact)
    (h : new.Tagged t) (value : t.value.entries? = none) (eel : t.eel.entries? = none)
    (objectType : t.objectType.entries? = none) (old : Option Node) :
    ∃ m, (Node.map new).placed old = some m ∧ (opened (some m)).Tagged t := by
  cases hold : old.bind Node.entries? with
  | none => exact ⟨_, Node.placed_of_no_map rfl hold, h⟩
  | some es =>
    obtain rfl := Node.bind_entries?_eq_some_iff.mp hold
    exact ⟨_, rfl, h.overrule (fact new rfl).1 value eel objectType es⟩

/-! ### Writing above an object -/

/-- A fact about an object leaves its properties. -/
theorem exists_placed_map {n : Node} (fact : n.IsFact) (hn : n.isNull = false) (inner : Entries) :
    ∃ es : Entries, n.placed (some (.map inner)) = some (.map es) ∧
      ∀ key, key ∉ Key.tags → es.get? key = inner.get? key := by
  cases n with
  | null => cases hn
  | map new =>
    obtain ⟨_, tags⟩ := fact new rfl
    exact ⟨_, rfl, fun key hk => get?_overrule_of_not_mem inner fun hm => hk (tags key hm)⟩
  | _ => exact ⟨_, rfl, fun key hk => get?_tag_of_not_mem inner _ hk⟩

/-- A fact about an object leaves everything below its properties. -/
theorem at?_set_above {es : Entries} {path rest : List String} {key : String} (hp : path ≠ [])
    (hk : key ∉ Key.tags) {n m : Node} (fact : n.IsFact) (hn : n.isNull = false)
    (hm : (Node.map es).at? (path ++ key :: rest) = some m) :
    (Node.map (es.set path n)).at? (path ++ key :: rest) = some m := by
  rw [Node.at?_append] at hm ⊢
  obtain ⟨object, ho, hm⟩ := Option.bind_eq_some_iff.mp hm
  obtain ⟨inner, rfl⟩ := Node.exists_map_of_at?_cons hm
  obtain ⟨es', placed, same⟩ := exists_placed_map fact hn inner
  rw [at?_set_self hp ho, placed, Option.bind_some, Node.at?_map_cons, same key hk]
  exact hm

end Entries

end FusionTree
