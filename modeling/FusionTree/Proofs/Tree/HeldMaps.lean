import FusionTree.Proofs.Tree.Copying
import FusionTree.Proofs.Tree.Tagging

/-!
# What holds of every map in a tree

A property of entries that a change of one entry keeps, if its key is one of some allowed keys, and
that tagging and merging keep, holds of every map in a tree as long as all that is written there has
it too and the paths have allowed keys only.
-/

namespace FusionTree

/-- The node is the map, or the map is somewhere in it. -/
inductive Node.Holds : Node → Entries → Prop
  | self (es : Entries) : Holds (.map es) es
  | entry {es inner : Entries} {key : String} {n : Node} (mem : (key, n) ∈ es)
      (h : n.Holds inner) : Holds (.map es) inner
  | item {items : List Node} {inner : Entries} {n : Node} (mem : n ∈ items)
      (h : n.Holds inner) : Holds (.list items) inner

def Node.AllMaps (Q : Entries → Prop) (n : Node) : Prop :=
  ∀ es, n.Holds es → Q es

namespace Node

variable {Q : Entries → Prop}

theorem allMaps_map_iff {es : Entries} : (map es).AllMaps Q ↔ Q es ∧ ∀ e ∈ es, e.2.AllMaps Q := by
  constructor
  · intro h
    exact ⟨h es (.self es), fun e mem inner hi => h inner (.entry mem hi)⟩
  · rintro ⟨one, below⟩ inner h
    cases h with
    | self => exact one
    | entry mem h => exact below _ mem inner h

theorem allMaps_list_iff {items : List Node} :
    (list items).AllMaps Q ↔ ∀ n ∈ items, n.AllMaps Q := by
  constructor
  · intro h n mem inner hi
    exact h inner (.item mem hi)
  · intro h inner hi
    cases hi with
    | item mem hi => exact h _ mem inner hi

@[simp] theorem allMaps_null : null.AllMaps Q := nofun

@[simp] theorem allMaps_bool (b : Bool) : (bool b).AllMaps Q := nofun

@[simp] theorem allMaps_int (i : Int64) : (int i).AllMaps Q := nofun

@[simp] theorem allMaps_float (x : Binary64) : (float x).AllMaps Q := nofun

@[simp] theorem allMaps_string (s : String) : (string s).AllMaps Q := nofun

theorem allMaps_chain (chain : List String) : (list (chain.map .string)).AllMaps Q := by
  refine allMaps_list_iff.mpr fun n mem => ?_
  obtain ⟨name, _, rfl⟩ := List.mem_map.mp mem
  exact allMaps_string name

end Node

namespace Entries

variable {es new old inner : Entries} {key : String} {n : Node} {path : List String}
  {K : String → Prop} {Q : Entries → Prop}

/-! ### Entries and their keys -/

theorem mem_of_get? (h : es.get? key = some n) : (key, n) ∈ es := by
  induction es with
  | nil => simp at h
  | cons entry rest ih => grind [get?_cons]

theorem get?_of_mem (nodup : es.keys.Nodup) (h : (key, n) ∈ es) : es.get? key = some n := by
  induction es with
  | nil => cases h
  | cons entry rest ih =>
    obtain ⟨k, m⟩ := entry
    obtain ⟨absent, nodup⟩ := List.nodup_cons.mp nodup
    rcases List.mem_cons.mp h with eq | h
    · obtain ⟨rfl, rfl⟩ := Prod.mk.inj eq
      rw [get?_cons, if_pos rfl]
    · have ne : k ≠ key := by
        rintro rfl
        exact absent (List.mem_map.mpr ⟨_, h, rfl⟩)
      rw [get?_cons, if_neg ne]
      exact ih nodup h

theorem mem_of_mem_insert {e : String × Node} (h : e ∈ es.insert key n) :
    e = (key, n) ∨ e ∈ es := by
  induction es with
  | nil => simpa [insert] using h
  | cons entry rest ih => grind [insert]

/-- The property of entries is kept by whatever a write does to one map, if the keys of its path are
allowed. -/
structure Upheld (K : String → Prop) (Q : Entries → Prop) : Prop where
  nil : Q []
  insert {es : Entries} {key : String} (h : Q es) (hk : K key) (n : Node) : Q (es.insert key n)
  erase {es : Entries} {key : String} (h : Q es) (hk : K key) : Q (es.erase key)
  tag {es : Entries} {n : Node} (h : Q es) (plain : n.entries? = none)
    (notNull : n.isNull = false) : Q (es.tag n)
  overrule {new old : Entries} (hn : Q new) (nodup : new.keys.Nodup) (ho : Q old) :
    Q (Entries.overrule new old)
  /-- A key with a map under it is allowed. -/
  map_key {es inner : Entries} {key : String} (h : Q es) (hk : es.get? key = some (.map inner)) :
    K key
  /-- So are the keys that unsetting, inheriting and linking add. -/
  own : ∀ key ∈ [Key.stop, Key.parent, Key.prototypes, Key.chain], K key

end Entries

/-! ### Merging -/

section

variable {K : String → Prop} {Q : Entries → Prop}

mutual

theorem Node.AllMaps.overrule (up : Entries.Upheld K Q) : {n : Node} → n.AllMaps Q → n.Distinct →
    {base : Option Node} → (∀ m, base = some m → m.AllMaps Q) → (n.overrule base).AllMaps Q
  | .map new, hn, distinct, some (.map old), hb => by
    obtain ⟨one, below⟩ := Node.allMaps_map_iff.mp hn
    obtain ⟨oneOld, belowOld⟩ := Node.allMaps_map_iff.mp (hb _ rfl)
    obtain ⟨nodup, distinctBelow⟩ := Node.distinct_map_iff.mp distinct
    rw [Node.overrule_map_map]
    refine Node.allMaps_map_iff.mpr ⟨up.overrule one nodup oneOld, ?_⟩
    refine Entries.allMaps_overrule up (fun e mem => ⟨below e mem, ?_⟩) belowOld
    exact distinctBelow e.1 e.2 (Entries.get?_of_mem nodup mem)
  | .map _, hn, _, none, _ | .map _, hn, _, some .null, _ | .map _, hn, _, some (.bool _), _
  | .map _, hn, _, some (.int _), _ | .map _, hn, _, some (.float _), _
  | .map _, hn, _, some (.string _), _ | .map _, hn, _, some (.list _), _ => hn
  | .null, hn, _, _, _ | .bool _, hn, _, _, _ | .int _, hn, _, _, _ | .float _, hn, _, _, _
  | .string _, hn, _, _, _ | .list _, hn, _, _, _ => hn

theorem Entries.allMaps_overrule (up : Entries.Upheld K Q) : {new : List (String × Node)} →
    (∀ e ∈ new, e.2.AllMaps Q ∧ e.2.Distinct) → {base : Entries} →
    (∀ e ∈ base, e.2.AllMaps Q) → ∀ e ∈ Entries.overrule new base, e.2.AllMaps Q
  | [], _, _, hb => hb
  | (key, n) :: rest, hn, base, hb => by
    obtain ⟨head, tail⟩ := List.forall_mem_cons.mp hn
    rw [Entries.overrule_cons]
    refine Entries.allMaps_overrule up tail fun e mem => ?_
    rcases Entries.mem_of_mem_insert mem with rfl | mem
    · exact Node.AllMaps.overrule up head.1 head.2 fun m hm => hb _ (Entries.mem_of_get? hm)
    · exact hb e mem

end

end

abbrev Entries.AllMaps (Q : Entries → Prop) (es : Entries) : Prop :=
  (Node.map es).AllMaps Q

namespace Entries

variable {es inner linked : Entries} {key : String} {n : Node} {path source : List String}
  {K : String → Prop} {Q : Entries → Prop}

theorem AllMaps.get? (h : es.AllMaps Q) (hn : es.get? key = some n) : n.AllMaps Q :=
  (Node.allMaps_map_iff.mp h).2 _ (mem_of_get? hn)

namespace Upheld

/-! ### Writing -/

variable (up : Upheld K Q)

include up

theorem allMaps_nil : AllMaps Q [] :=
  Node.allMaps_map_iff.mpr ⟨up.nil, by simp⟩

theorem allMaps_insert (h : es.AllMaps Q) (hk : K key) (hn : n.AllMaps Q) :
    (es.insert key n).AllMaps Q := by
  obtain ⟨one, below⟩ := Node.allMaps_map_iff.mp h
  refine Node.allMaps_map_iff.mpr ⟨up.insert one hk n, fun e mem => ?_⟩
  rcases mem_of_mem_insert mem with rfl | mem
  · exact hn
  · exact below e mem

theorem allMaps_erase (h : es.AllMaps Q) (hk : K key) : (es.erase key).AllMaps Q := by
  obtain ⟨one, below⟩ := Node.allMaps_map_iff.mp h
  exact Node.allMaps_map_iff.mpr
    ⟨up.erase one hk, fun e mem => below e (List.mem_filter.mp mem).1⟩

theorem allMaps_tag (h : es.AllMaps Q) (hn : n.AllMaps Q) (plain : n.entries? = none)
    (notNull : n.isNull = false) : (es.tag n).AllMaps Q := by
  obtain ⟨one, below⟩ := Node.allMaps_map_iff.mp h
  refine Node.allMaps_map_iff.mpr ⟨up.tag one plain notNull, fun e mem => ?_⟩
  rcases mem_of_mem_insert mem with rfl | mem
  · exact Node.allMaps_null
  rcases mem_of_mem_insert mem with rfl | mem
  · exact Node.allMaps_null
  rcases mem_of_mem_insert mem with rfl | mem
  · exact hn
  · exact below e mem

theorem allMaps_opened (h : ∀ m, es.get? key = some m → m.AllMaps Q) :
    (opened (es.get? key)).AllMaps Q := by
  rcases opened_cases (es.get? key) with
    empty | ⟨inner, hk, opens⟩ | ⟨m, hk, plain, notNull, opens⟩
  · rw [empty]
    exact up.allMaps_nil
  · rw [opens]
    exact h _ hk
  · rw [opens]
    exact up.allMaps_tag up.allMaps_nil (h _ hk) plain notNull

theorem allMaps_write (h : es.AllMaps Q) (hk : K key) (hn : n.AllMaps Q) (distinct : n.Distinct) :
    (es.write key n).AllMaps Q := by
  unfold Entries.write
  split
  · rename_i old ho
    split
    · exact up.allMaps_erase h hk
    · have base (m : Node) (hm : some (.map old) = some m) : m.AllMaps Q :=
        Option.some.inj hm ▸ h.get? ho
      exact up.allMaps_insert h hk (Node.AllMaps.overrule up hn distinct base)
    · rename_i notNull notMap
      have plain : n.entries? = none := by
        cases n with
        | map new => exact absurd rfl (notMap new)
        | _ => rfl
      have tagged := up.allMaps_tag (h.get? ho) hn plain (Node.isNull_eq_false_of_ne notNull)
      exact up.allMaps_insert h hk tagged
  · exact up.allMaps_insert h hk hn
  · exact up.allMaps_insert h hk hn
  · split
    · exact up.allMaps_erase h hk
    · exact up.allMaps_insert h hk hn

theorem allMaps_set (h : es.AllMaps Q) (allowed : ∀ k ∈ path, K k) (hn : n.AllMaps Q)
    (distinct : n.Distinct) : (es.set path n).AllMaps Q := by
  induction path generalizing es with
  | nil => exact h
  | cons key rest ih =>
    obtain ⟨hk, allowed⟩ := List.forall_mem_cons.mp allowed
    by_cases hr : rest = []
    · subst hr
      exact up.allMaps_write h hk hn distinct
    · rw [set_cons es key hr]
      exact up.allMaps_insert h hk (ih (up.allMaps_opened fun m hm => h.get? hm) allowed)

theorem allMaps_unset (h : es.AllMaps Q) (allowed : ∀ k ∈ path, K k) :
    (es.unset path).AllMaps Q := by
  have mark : ∀ k ∈ path ++ [Key.stop], K k :=
    List.forall_mem_append.mpr ⟨allowed, fun k mem => up.own k (by simp_all)⟩
  have plain {m : Node} (hm : m.entries? = none) : m.Distinct :=
    Node.distinct_of_entries?_eq_none hm
  exact up.allMaps_set (up.allMaps_set h allowed Node.allMaps_null (plain rfl)) mark
    (Node.allMaps_bool _) (plain rfl)

/-! ### Copying -/

theorem allMaps_found (h : es.AllMaps Q) (key : String) : (es.found key).AllMaps Q := by
  unfold Entries.found
  split
  · exact up.allMaps_nil
  · exact up.allMaps_nil
  · rename_i n _ hn
    exact h.get? hn

theorem allMaps_materialize (h : es.AllMaps Q) (allowed : ∀ k ∈ path, K k) :
    (es.materialize path).1.AllMaps Q ∧ (es.materialize path).2.AllMaps Q := by
  induction path generalizing es with
  | nil => exact ⟨Node.allMaps_null, h⟩
  | cons key rest ih =>
    obtain ⟨hk, allowed⟩ := List.forall_mem_cons.mp allowed
    have hf := up.allMaps_found h key
    by_cases hr : rest = []
    · subst hr
      rw [materialize_singleton]
      exact ⟨hf, up.allMaps_insert h hk hf⟩
    cases he : (es.found key).entries? with
    | none =>
      rw [materialize_cons_of_leaf hr he]
      exact ⟨Node.allMaps_null, up.allMaps_insert h hk hf⟩
    | some inner =>
      have isMap := Node.entries?_eq_some_iff.mp he
      rw [materialize_cons_of_map hr isMap]
      obtain ⟨node, below⟩ := ih (isMap ▸ hf) allowed
      exact ⟨node, up.allMaps_insert h hk below⟩

theorem allMaps_copy (h : es.AllMaps Q) (distinct : es.Distinct) (allowed : ∀ k ∈ path, K k)
    (allowedSource : ∀ k ∈ source, K k) : (es.copy path source).AllMaps Q := by
  obtain ⟨node, rest⟩ := up.allMaps_materialize h allowedSource
  exact up.allMaps_set rest allowed node (distinct.materialize source).1

/-! ### Linking -/

theorem allMaps_writeChain {prototypes : Entries} (h : prototypes.AllMaps Q) (name : String)
    (chain : List String) : (prototypes.writeChain name chain).AllMaps Q := by
  unfold Entries.writeChain
  split
  · rename_i inner hn
    have linked := up.allMaps_insert (h.get? hn) (up.own Key.chain (by simp))
      (Node.allMaps_chain chain)
    exact up.allMaps_insert h (up.map_key (Node.allMaps_map_iff.mp h).1 hn) linked
  · exact h

theorem allMaps_linkPrototypes (h : es.AllMaps Q) (hl : es.linkPrototypes = .ok linked) :
    linked.AllMaps Q := by
  obtain rfl | ⟨ps, written, rfl⟩ := linkPrototypes_induction hl (fun _ hp => h.get? hp)
    fun _ name chain hp => up.allMaps_writeChain hp name chain
  · exact h
  · exact up.allMaps_insert h (up.own Key.prototypes (by simp)) written

end Upheld

end Entries

end FusionTree
