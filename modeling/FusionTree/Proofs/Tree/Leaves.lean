import FusionTree.Proofs.Tree.Writing

/-!
# Leaves

A tree without empty maps is told by its leaves: writing them one after another, each at its path,
makes the tree again. That needs them depth first, since a map stands where its first leaf made it.
-/

namespace FusionTree

mutual

/-- The leaves of a node with their paths below it, depth first. -/
def Node.leaves : Node → List (List String × Node)
  | .map es => Entries.leaves es
  | n => [([], n)]

def Entries.leaves : List (String × Node) → List (List String × Node)
  | [] => []
  | entry :: rest => Entries.leavesOfEntry entry ++ Entries.leaves rest

def Entries.leavesOfEntry : String × Node → List (List String × Node)
  | (key, n) => n.leaves.map fun leaf => (key :: leaf.1, leaf.2)

end

example : Entries.leaves [("a", .map [("b", .null)]), ("c", .int 1)] =
    [(["a", "b"], .null), (["c"], .int 1)] := rfl

mutual

/-- No map in the node is empty or has a key twice. -/
def Node.Full : Node → Prop
  | .map es => es ≠ [] ∧ Entries.Full es
  | _ => True

def Entries.Full : List (String × Node) → Prop
  | [] => True
  | entry :: rest => entry.1 ∉ Entries.keys rest ∧ Entries.EntryFull entry ∧ Entries.Full rest

def Entries.EntryFull : String × Node → Prop
  | (_, n) => n.Full

end

namespace Entries

def setAll (leaves : List (List String × Node)) (es : Entries) : Entries :=
  leaves.foldl (fun es leaf => es.set leaf.1 leaf.2) es

@[simp] theorem setAll_nil (es : Entries) : setAll [] es = es := rfl

@[simp] theorem setAll_cons (leaf : List String × Node) (rest : List (List String × Node))
    (es : Entries) : setAll (leaf :: rest) es = setAll rest (es.set leaf.1 leaf.2) := rfl

@[simp] theorem setAll_append (before after : List (List String × Node)) (es : Entries) :
    setAll (before ++ after) es = setAll after (setAll before es) :=
  List.foldl_append

theorem insert_of_not_mem {es : Entries} {key : String} (h : key ∉ es.keys) (n : Node) :
    es.insert key n = es ++ [(key, n)] := by
  induction es with
  | nil => rfl
  | cons entry rest ih =>
    obtain ⟨k, m⟩ := entry
    obtain ⟨other, absent⟩ := not_or.mp fun either => h (List.mem_cons.mpr either)
    rw [insert, if_neg (Ne.symm other), ih absent, List.cons_append]

theorem set_of_not_mem {es : Entries} {key : String} (h : key ∉ es.keys) (n : Node) :
    es.set [key] n = es ++ [(key, n)] := by
  rw [set, write, get?_eq_none_iff.mpr h]
  exact insert_of_not_mem h n

/-- Writes below a key all go to the map under the key. -/
theorem setAll_map_cons {leaves : List (List String × Node)} (ne_nil : leaves ≠ [])
    (paths : ∀ leaf ∈ leaves, leaf.1 ≠ []) (es : Entries) (key : String) :
    setAll (leaves.map fun leaf => (key :: leaf.1, leaf.2)) es =
      es.insert key (.map (setAll leaves (opened (es.get? key)))) := by
  induction leaves generalizing es with
  | nil => exact absurd rfl ne_nil
  | cons leaf rest ih =>
    obtain ⟨head, tail⟩ := List.forall_mem_cons.mp paths
    rw [List.map_cons, setAll_cons, setAll_cons, set_cons es key head]
    by_cases last : rest = []
    · rw [last, List.map_nil, setAll_nil, setAll_nil]
    · rw [ih last tail, get?_insert_self, insert_insert_self]
      rfl

theorem path_ne_nil_of_mem_leaves {es : Entries} {leaf : List String × Node}
    (h : leaf ∈ leaves es) : leaf.1 ≠ [] := by
  induction es with
  | nil => cases h
  | cons entry rest ih =>
    obtain ⟨key, n⟩ := entry
    rcases List.mem_append.mp h with h | h
    · obtain ⟨_, _, rfl⟩ := List.mem_map.mp h
      exact List.cons_ne_nil _ _
    · exact ih h

end Entries

mutual

theorem Node.leaves_ne_nil : {n : Node} → n.Full → n.leaves ≠ []
  | .map _, h => Entries.leaves_ne_nil h.1 h.2
  | .null, _ | .bool _, _ | .int _, _ | .float _, _ | .string _, _ | .list _, _ =>
    List.cons_ne_nil _ _

theorem Entries.leaves_ne_nil : {es : List (String × Node)} → es ≠ [] → Entries.Full es →
    Entries.leaves es ≠ []
  | [], h, _ => absurd rfl h
  | (_, _) :: _, _, h =>
    List.append_ne_nil_of_left_ne_nil (fun none =>
      Node.leaves_ne_nil h.2.1 (List.map_eq_nil_iff.mp none)) _

end

/-- Every key leads to a leaf. -/
theorem Entries.exists_mem_leaves {es : Entries} (h : Entries.Full es) {key : String}
    (mem : key ∈ es.keys) : ∃ leaf ∈ leaves es, key ∈ leaf.1 := by
  induction es with
  | nil => cases mem
  | cons entry rest ih =>
    obtain ⟨k, n⟩ := entry
    rcases List.mem_cons.mp mem with rfl | later
    · obtain ⟨leaf, hl⟩ := List.exists_mem_of_ne_nil _ (Node.leaves_ne_nil h.2.1)
      exact ⟨(key :: leaf.1, leaf.2), List.mem_append_left _ (List.mem_map_of_mem hl), by simp⟩
    · obtain ⟨leaf, hl, hk⟩ := ih h.2.2 later
      exact ⟨leaf, List.mem_append_right _ hl, hk⟩

theorem Entries.setAll_leavesOfEntry_of_leaf {n : Node} (leaf : n.leaves = [([], n)])
    {es : Entries} {key : String} (new : key ∉ es.keys) :
    setAll (leavesOfEntry (key, n)) es = es ++ [(key, n)] := by
  rw [leavesOfEntry, leaf]
  exact set_of_not_mem new n

mutual

/-- The leaves of a node, written below a new key, make an entry at the end. -/
theorem Entries.setAll_leavesOfEntry : {n : Node} → n.Full → (es : Entries) → {key : String} →
    key ∉ es.keys → Entries.setAll (Entries.leavesOfEntry (key, n)) es = es ++ [(key, n)]
  | .map inner, h, es, key, new => by
    have made : Entries.setAll (Entries.leaves inner) [] = inner :=
      Entries.setAll_leaves h.2 [] fun _ _ => List.not_mem_nil
    have below := Entries.setAll_map_cons (Entries.leaves_ne_nil h.1 h.2)
      (fun leaf => Entries.path_ne_nil_of_mem_leaves) es key
    rw [Entries.get?_eq_none_iff.mpr new, Entries.insert_of_not_mem new] at below
    exact below.trans (congrArg (fun made => es ++ [(key, .map made)]) made)
  | .null, _, _, _, new | .bool _, _, _, _, new | .int _, _, _, _, new
  | .float _, _, _, _, new | .string _, _, _, _, new | .list _, _, _, _, new =>
    Entries.setAll_leavesOfEntry_of_leaf rfl new

/-- The leaves of entries, written where none of their keys is, make these entries at the end. -/
theorem Entries.setAll_leaves : {es : List (String × Node)} → Entries.Full es →
    (base : Entries) → (∀ key ∈ Entries.keys es, key ∉ base.keys) →
    Entries.setAll (Entries.leaves es) base = base ++ es
  | [], _, base, _ => (List.append_nil base).symm
  | (key, n) :: rest, h, base, new => by
    obtain ⟨fresh, full, more⟩ := h
    obtain ⟨head, tail⟩ := List.forall_mem_cons.mp new
    have apart : ∀ k ∈ Entries.keys rest, k ∉ Entries.keys (base ++ [(key, n)]) := by
      intro k hk
      have other : k ≠ key := fun same => fresh (same ▸ hk)
      have absent : k ∉ Entries.keys base := tail k hk
      simpa [Entries.keys, other] using absent
    rw [Entries.leaves, Entries.setAll_append, Entries.setAll_leavesOfEntry full base head,
      Entries.setAll_leaves more _ apart, List.append_assoc, List.singleton_append]

end

/-- Writing the leaves of a full tree one after another makes the tree. -/
theorem Entries.setAll_leaves_nil {es : Entries} (h : Entries.Full es) :
    setAll (leaves es) [] = es :=
  Entries.setAll_leaves h [] fun _ _ => List.not_mem_nil

end FusionTree
