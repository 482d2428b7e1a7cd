import FusionTree.Proofs.Tree.Commuting

/-!
# Writing twice

A merge leaves every key of the merged map with a node that the same merge does not change again, so
a write that is repeated finds what it would leave. On the way to its path a repeated write finds
maps, and has nothing left to tag. A copy finds its source as it was, unless its target is on the
way to the source or below it.
-/

namespace FusionTree

namespace Entries

/-- Entries that hold already what others would leave are not changed by them. -/
theorem overrule_eq_self {new base : Entries}
    (h : ∀ e ∈ new, base.get? e.1 = some (e.2.overrule (base.get? e.1))) :
    overrule new base = base := by
  induction new with
  | nil => rfl
  | cons entry rest ih =>
    obtain ⟨key, n⟩ := entry
    obtain ⟨head, tail⟩ := List.forall_mem_cons.mp h
    rw [overrule_cons, insert_of_get? head, ih tail]

end Entries

mutual

/-- Overruling a second time changes nothing. -/
theorem Node.overrule_overrule : {n : Node} → n.Distinct → (base : Option Node) →
    n.overrule (some (n.overrule base)) = n.overrule base
  | .map new, distinct, base => by
    obtain ⟨nodup, below⟩ := Node.distinct_map_iff.mp distinct
    have entry := Entries.overrule_overrule_entry fun e mem =>
      below e.1 e.2 (Entries.get?_of_mem nodup mem)
    cases hb : base.bind Node.entries? with
    | none =>
      -- the map itself is there, and each of its entries is overruled by the same entry
      rw [Node.overrule_of_no_map _ hb, Node.overrule_map_map]
      refine congrArg Node.map (Entries.overrule_eq_self fun e mem => ?_)
      have itself : e.2.overrule (some e.2) = e.2 := by
        simpa using entry e mem none
      rw [Entries.get?_of_mem nodup mem, itself]
    | some old =>
      obtain rfl := Node.bind_entries?_eq_some_iff.mp hb
      rw [Node.overrule_map_map, Node.overrule_map_map]
      refine congrArg Node.map (Entries.overrule_eq_self fun e mem => ?_)
      rw [Entries.get?_overrule nodup old (Entries.get?_of_mem nodup mem), entry e mem]
  | .null, _, _ | .bool _, _, _ | .int _, _, _ | .float _, _, _ | .string _, _, _
  | .list _, _, _ => rfl

theorem Entries.overrule_overrule_entry : {es : List (String × Node)} →
    (∀ e ∈ es, e.2.Distinct) → ∀ e ∈ es, ∀ base,
    e.2.overrule (some (e.2.overrule base)) = e.2.overrule base
  | [], _, _, mem, _ => by cases mem
  | (_, _) :: _, distinct, e, mem, base => by
    obtain ⟨head, tail⟩ := List.forall_mem_cons.mp distinct
    rcases List.mem_cons.mp mem with rfl | mem
    · exact Node.overrule_overrule head base
    · exact Entries.overrule_overrule_entry tail e mem base

end

namespace Node

variable {n : Node}

/-- What is left where the node has been written is what the node would leave there. -/
theorem placed_placed (hn : n.isNull = false) (distinct : n.Distinct) (old : Option Node) :
    n.placed (n.placed old) = n.placed old := by
  cases he : n.entries? with
  | some new =>
    obtain rfl := entries?_eq_some_iff.mp he
    rw [placed_map, placed_map, overrule_overrule distinct]
  | none =>
    cases hb : old.bind entries? with
    | none =>
      have itself : n.placed (some n) = some n := placed_of_no_map hn he
      rw [placed_of_no_map hn hb, itself]
    | some es =>
      obtain rfl := bind_entries?_eq_some_iff.mp hb
      rw [placed_map_of_plain he hn, placed_map_of_plain he hn, Entries.tag_tag]

end Node

namespace Entries

variable {n : Node}

theorem write_write (hn : n.isNull = false) (distinct : n.Distinct) (es : Entries) (key : String) :
    (es.write key n).write key n = es.write key n := by
  obtain ⟨m, hm⟩ := Node.exists_placed hn (es.get? key)
  have again : n.placed ((es.write key n).get? key) = some m := by
    rw [get?_write_self, Node.placed_placed hn distinct, hm]
  rw [write_of_placed again, write_of_placed hm, insert_insert_self]

theorem set_set (hn : n.isNull = false) (distinct : n.Distinct) (es : Entries)
    (path : List String) : (es.set path n).set path n = es.set path n := by
  induction path generalizing es with
  | nil => rfl
  | cons key rest ih =>
    by_cases hr : rest = []
    · subst hr
      exact write_write hn distinct es key
    · rw [set_cons es key hr, set_cons _ key hr, get?_insert_self, opened_map,
        insert_insert_self, ih]

/-- A write of a node that is not null, and a copy of one from a path aside, change nothing when
they are repeated. -/
theorem repeated_writes_change_nothing (hn : n ≠ .null) (distinct : n.Distinct) (es : Entries) :
    (∀ path, (es.set path n).set path n = es.set path n) ∧
    ∀ target source, ¬target <+: source → ¬source <+: target → es.getPath? source = some n →
      (es.copy target source).copy target source = es.copy target source := by
  have repeated := set_set (Node.isNull_eq_false_of_ne hn) distinct es
  refine ⟨repeated, fun target source aside aside' h => ?_⟩
  have hs : source ≠ [] := by rintro rfl; exact aside' List.nil_prefix
  have left : (es.set target n).getPath? source = some n := by
    rw [getPath?_eq_at? _ hs] at h ⊢
    exact at?_set_of_incomparable aside aside' h
  rw [copy_of_getPath? hn h, copy_of_getPath? hn left, repeated]

/-- A map with a null in it is merged into another one, and copied onto a number. -/
theorem repeated_writes_change_nothing_of_nested :
    let n : Node := .map [("x", .null), ("y", .map [("z", .int 1)])]
    let tree : Entries := [("a", .map [("y", .map [("w", .int 2)]), ("x", .int 3)]), ("s", n)]
    (n ≠ .null ∧ n.Distinct) ∧
      (¬["a", "x"] <+: ["s"] ∧ ¬["s"] <+: ["a", "x"] ∧ tree.getPath? ["s"] = some n) ∧
      (tree.set ["a"] n).set ["a"] n = tree.set ["a"] n ∧
      (tree.copy ["a", "x"] ["s"]).copy ["a", "x"] ["s"] = tree.copy ["a", "x"] ["s"] := by
  intro n tree
  have plain {m : Node} (hm : m.entries? = none) : m.Distinct :=
    Node.distinct_of_entries?_eq_none hm
  have distinct : n.Distinct :=
    (Distinct.nil.insert "x" (plain rfl)).insert "y" (Distinct.nil.insert "z" (plain rfl))
  have apart : ¬["a", "x"] <+: ["s"] ∧ ¬["s"] <+: ["a", "x"] := by decide
  obtain ⟨set, copy⟩ := repeated_writes_change_nothing (n := n) nofun distinct tree
  exact ⟨⟨nofun, distinct⟩, ⟨apart.1, apart.2, rfl⟩, set _, copy _ _ apart.1 apart.2 rfl⟩

end Entries

end FusionTree
