import FusionTree.Proofs.Tree.Materializing

/-!
# Changes below one path

Where nothing stands at a path yet, a node that is written there stays as it is, and every further
write, unset or copy between paths below goes on inside that node. So what such changes make of the
node does not depend on the path, nor on the tree around it.
-/

namespace FusionTree

namespace Node

def setBelow (n : Node) (path : List String) (m : Node) : Node :=
  .map ((Entries.opened (some n)).set path m)

def unsetBelow (n : Node) (path : List String) : Node :=
  .map ((Entries.opened (some n)).unset path)

/-- What stands at a path below the node, and the node after looking. Below a plain value there is
null. -/
def materializeBelow (n : Node) (path : List String) : Node × Node :=
  match n with
  | .map es => ((Entries.materialize es path).1, .map (Entries.materialize es path).2)
  | .null => ((Entries.materialize [] path).1, .map (Entries.materialize [] path).2)
  | n => (.null, n)

def copyBelow (n : Node) (target source : List String) : Node :=
  (n.materializeBelow source).2.setBelow target (n.materializeBelow source).1

end Node

namespace Entries

/-- Nothing stands at the path, and no tag is on it. -/
structure Vacant (es : Entries) (path : List String) : Prop where
  ne_nil : path ≠ []
  no_tag : ∀ key ∈ path, key ∉ Key.tags
  absent : (Node.map es).at? path = none

variable {es : Entries} {key : String} {path rest below : List String} {n m : Node}

theorem Vacant.get? (h : es.Vacant [key]) : es.get? key = none := by
  simpa using h.absent

theorem Vacant.opened (h : es.Vacant (key :: rest)) (hr : rest ≠ []) :
    Vacant (opened (es.get? key)) rest where
  ne_nil := hr
  no_tag k hk := h.no_tag k (List.mem_cons_of_mem _ hk)
  absent := by
    rw [at?_opened hr, h.absent]
    exact fun _ _ _ _ last hl => h.no_tag last (List.mem_cons_of_mem _ (List.mem_of_getLast? hl))

theorem write_of_get?_eq_none (h : es.get? key = none) (n : Node) :
    es.write key n = es.insert key n := by
  simp [write, h]

/-- A write at a path that goes on from a vacant one opens the node written there. -/
theorem Vacant.set_append (h : es.Vacant path) (hb : below ≠ []) :
    (es.set path n).set (path ++ below) m = es.set path (n.setBelow below m) := by
  induction path generalizing es with
  | nil => exact absurd rfl h.ne_nil
  | cons key rest ih =>
    by_cases hr : rest = []
    · subst hr
      rw [set_singleton, set_singleton, write_of_get?_eq_none h.get?, write_of_get?_eq_none h.get?,
        List.cons_append, List.nil_append, set_cons _ key hb, get?_insert_self, insert_insert_self,
        Node.setBelow]
    · rw [set_cons es key hr, set_cons es key hr, List.cons_append, set_cons _ key (by simp [hr]),
        get?_insert_self, insert_insert_self, opened_map, ih (h.opened hr)]

theorem Vacant.unset_append (h : es.Vacant path) (hb : below ≠ []) :
    (es.set path n).unset (path ++ below) = es.set path (n.unsetBelow below) := by
  rw [unset, h.set_append hb, List.append_assoc, h.set_append (by simp)]
  rfl

/-- A look along a path that goes on from a vacant one looks into the node written there. -/
theorem Vacant.materialize_append (h : es.Vacant path) (hb : below ≠ []) :
    (es.set path n).materialize (path ++ below) =
      ((n.materializeBelow below).1, es.set path (n.materializeBelow below).2) := by
  induction path generalizing es with
  | nil => exact absurd rfl h.ne_nil
  | cons key rest ih =>
    by_cases hr : rest = []
    · subst hr
      have here : Entries.get? (es.insert key n) key = some n := get?_insert_self es key n
      simp only [set_singleton, write_of_get?_eq_none h.get?, List.cons_append, List.nil_append]
      cases n with
      | map inner =>
        have inside : found (es.insert key (.map inner)) key = .map inner := by simp [found, here]
        rw [materialize_cons_of_map hb inside, insert_insert_self]
        rfl
      | null =>
        have inside : found (es.insert key .null) key = .map [] := by simp [found, here]
        rw [materialize_cons_of_map hb inside, insert_insert_self]
        rfl
      | _ =>
        rw [materialize_cons_of_leaf hb (by simp [found, here, Node.entries?]), found, here,
          insert_insert_self]
        rfl
    · have inner : found (es.set (key :: rest) n) key =
          .map ((Entries.opened (es.get? key)).set rest n) := by
        rw [set_cons es key hr, found, get?_insert_self]
      rw [List.cons_append, materialize_cons_of_map (by simp [hr]) inner, ih (h.opened hr),
        set_cons es key hr, set_cons es key hr, insert_insert_self]

theorem Vacant.copy_append (h : es.Vacant path) {target source : List String} (ht : target ≠ [])
    (hs : source ≠ []) :
    (es.set path n).copy (path ++ target) (path ++ source) =
      es.set path (n.copyBelow target source) := by
  rw [copy_eq, h.materialize_append hs, h.set_append ht]
  rfl

/-- What the function does to trees is what the other one does to the node at the path, wherever a
node has been written to a vacant path. -/
def ActsAt (path : List String) (inside : Node → Node) (f : Entries → Entries) : Prop :=
  ∀ (es : Entries) (n : Node), es.Vacant path → f (es.set path n) = es.set path (inside n)

namespace ActsAt

variable {f g : Entries → Entries} {inside inside' : Node → Node} {target source : List String}

theorem refl (path : List String) : ActsAt path id id :=
  fun _ _ _ => rfl

theorem comp (hg : ActsAt path inside' g) (hf : ActsAt path inside f) :
    ActsAt path (inside' ∘ inside) (g ∘ f) := by
  intro es n vacant
  rw [Function.comp_apply, hf es n vacant, hg es _ vacant, Function.comp_apply]

theorem set (path : List String) (ht : target ≠ []) (m : Node) :
    ActsAt path (·.setBelow target m) (·.set (path ++ target) m) :=
  fun _ _ vacant => vacant.set_append ht

theorem unset (path : List String) (ht : target ≠ []) :
    ActsAt path (·.unsetBelow target) (·.unset (path ++ target)) :=
  fun _ _ vacant => vacant.unset_append ht

theorem copy (path : List String) (ht : target ≠ []) (hs : source ≠ []) :
    ActsAt path (·.copyBelow target source) (·.copy (path ++ target) (path ++ source)) :=
  fun _ _ vacant => vacant.copy_append ht hs

end ActsAt

end Entries

end FusionTree
