import FusionTree.Proofs.Merge.Failure
import FusionTree.Proofs.Merge.LastAssignment
import FusionTree.Proofs.Merge.Places
import FusionTree.Proofs.Parser.RoundTrip
import FusionTree.Proofs.Tree.Hierarchy
import FusionTree.Proofs.Tree.Leaves

/-!
# Dumping a tree

A tree of maps and plain values can be written as a source that assigns every leaf, one on a line
and depth first, with all keys in quotes. A run from that source makes the tree again: it is read as
the assignments, and each of them writes its leaf.
-/

namespace FusionTree

/-! ### What is written -/

/-- Whether a literal stands for the node. -/
def Node.IsPlain : Node → Prop
  | .null | .bool _ | .int _ | .string _ => True
  | .float _ | .list _ | .map _ => False

def Node.literal : Node → Value
  | .bool b => .bool b .dummy
  | .int n => .int n .dummy
  | .string s => .string s .dummy
  | _ => .null .dummy

def ObjectPath.quoted (keys : List String) : ObjectPath :=
  ⟨keys.map (.quoted · .dummy)⟩

namespace Entries

def assignment (leaf : List String × Node) : Statement :=
  .object (.quoted leaf.1) (some (.assign leaf.2.literal)) none

def dumpLine (leaf : List String × Node) : List Char :=
  (ObjectPath.quoted leaf.1).print ++ (" = ".toList ++ (leaf.2.literal.print ++ ['\n']))

/-- The source that assigns every leaf of the tree. -/
def dump (tree : Entries) : String :=
  String.ofList ((leaves tree).flatMap dumpLine)

/-- A leaf that can be written: the value is a plain one, and a source may hold the keys in
quotes. -/
structure Writable (leaf : List String × Node) : Prop where
  speakable : ∀ key ∈ leaf.1, Key.Speakable key
  noReturn : ∀ key ∈ leaf.1, '\r' ∉ key.toList
  plain : leaf.2.IsPlain

/-- The tree can be dumped: no map below its root is empty, and its leaves can be written. -/
def Dumpable (tree : Entries) : Prop :=
  Full tree ∧ ∀ leaf ∈ leaves tree, Writable leaf

end Entries

/-! ### The text is a written form -/

theorem Node.printable_literal (n : Node) : n.literal.Printable := by
  cases n <;> trivial

theorem ObjectPath.leads_quoted {keys : List String} (ne_nil : keys ≠ [])
    (noReturn : ∀ key ∈ keys, '\r' ∉ key.toList) : (ObjectPath.quoted keys).Leads := by
  obtain ⟨key, rest, rfl⟩ := List.exists_cons_of_ne_nil ne_nil
  refine ⟨⟨List.cons_ne_nil _ _, fun s hs => ?_⟩, ?_⟩
  · obtain ⟨k, hk, rfl⟩ := List.mem_map.mp hs
    exact noReturn k hk
  · rintro _ ⟨⟩
    exact id

namespace Entries

variable {leaves : List (List String × Node)}

theorem allWrittenAs_dump (leaves : List (List String × Node)) :
    Statement.AllWrittenAs (leaves.map assignment) (leaves.flatMap dumpLine) := by
  induction leaves with
  | nil => exact .nil .nil
  | cons leaf rest ih =>
    have space : Gap false [' '] := .blank (.inl rfl) .nil
    have line : dumpLine leaf ++ rest.flatMap dumpLine =
        [] ++ ((ObjectPath.quoted leaf.1).print ++ ([' '] ++
          ('=' :: ([' '] ++ leaf.2.literal.print) ++ ([] ++ '\n' :: rest.flatMap dumpLine)))) := by
      simp [dumpLine]
    rw [List.flatMap_cons, line]
    exact .object .nil space (.assign space) .nil ih

example : dump [("it's", .map [("n", .int (-7)), ("t", .string "x\"")])] =
    "'it\\'s'.'n' = -7\n'it\\'s'.'t' = \"x\\\"\"\n" := by
  decide +kernel

theorem allPrintable_assignments (writable : ∀ leaf ∈ leaves, leaf.1 ≠ [] ∧ Writable leaf) :
    Statement.AllPrintable (leaves.map assignment) := by
  induction leaves with
  | nil => trivial
  | cons leaf rest ih =>
    obtain ⟨⟨ne_nil, head⟩, tail⟩ := List.forall_mem_cons.mp writable
    refine ⟨⟨ObjectPath.leads_quoted ne_nil head.noReturn, rfl, ?_⟩, ih tail⟩
    rintro _ ⟨⟩
    exact leaf.2.printable_literal

theorem depthAll_assignments (leaves : List (List String × Node)) :
    Statement.depthAll (leaves.map assignment) = 0 := by
  induction leaves with
  | nil => rfl
  | cons leaf rest ih => exact (Nat.max_eq_right (Nat.zero_le _)).trans ih

end Entries

/-! ### What the assignments perform -/

theorem Node.node?_literal {n : Node} (h : n.IsPlain) : n.literal.node? = some n := by
  cases n <;> first | rfl | cases h

theorem ObjectPath.keys_quoted (keys : List String) : (ObjectPath.quoted keys).keys = keys := by
  simp [quoted, ObjectPath.keys, List.flatMap_map, PathSegment.keys]

theorem ObjectPath.allowed_quoted {keys : List String} (h : ∀ key ∈ keys, Key.Speakable key)
    (b : Bool) : (ObjectPath.quoted keys).Allowed b := by
  intro s hs
  obtain ⟨key, hk, rfl⟩ := List.mem_map.mp hs
  exact h key hk

namespace Merge

variable {ctx : Context}

/-- Wherever they were read, the assignments of leaves write them. -/
theorem performs_assignments (steady : ctx.Steady) (root : ctx.blockPath = [])
    {leaves : List (List String × Node)} (writable : ∀ leaf ∈ leaves, Entries.Writable leaf)
    {ss : List Statement}
    (same : Statement.bareAll ss = Statement.bareAll (leaves.map Entries.assignment)) :
    Performs (statements ctx ss) () (Entries.setAll leaves) := by
  rw [← performs_bareAll_iff steady, same, performs_bareAll_iff steady]
  clear same
  induction leaves with
  | nil => exact performs_statements_nil_iff.mpr rfl
  | cons leaf rest ih =>
    obtain ⟨head, tail⟩ := List.forall_mem_cons.mp writable
    have target : ctx.blockPath ++ (ObjectPath.quoted leaf.1).keys = leaf.1 := by
      rw [root, List.nil_append, ObjectPath.keys_quoted]
    refine (performs_statements_object_iff steady).mpr
      ⟨ObjectPath.allowed_quoted head.speakable _, (·.set leaf.1 leaf.2), Entries.setAll rest, ?_,
        ih tail, rfl⟩
    exact ⟨leaf.2, performs_nodeOf (Node.node?_literal head.plain), by rw [target]⟩

end Merge

/-- There are no prototypes to link. -/
theorem Entries.Dumpable.linkPrototypes {tree : Entries} (h : tree.Dumpable) :
    tree.linkPrototypes = .ok tree := by
  refine linkPrototypes_eq_self fun prototypes found => ?_
  have mem : Key.prototypes ∈ tree.keys := by
    refine Decidable.byContradiction fun absent => ?_
    rw [HasPrototypes, get?_eq_none_iff.mpr absent] at found
    cases found
  obtain ⟨leaf, hl, hk⟩ := exists_mem_leaves h.1 mem
  exact absurd ((h.2 leaf hl).speakable _ hk).2.1 (by decide)

namespace RunOptions

variable {options : RunOptions}

/-- Dump, then load: the source that assigns every leaf of a tree, one on a line and depth first, is
accepted and gives that tree, with its keys in their order. -/
theorem settled_dump (deep : 0 < options.depth) {tree : Entries} (h : tree.Dumpable)
    (path : Option Path) :
    (options.runSource (Source.ofString tree.dump path)).settled? = some (.ok tree) := by
  have ⟨full, writable⟩ := h
  have printable := Entries.allPrintable_assignments fun leaf hl =>
    ⟨Entries.path_ne_nil_of_mem_leaves hl, writable leaf hl⟩
  have written : Statement.AllWrittenAs ((Entries.leaves tree).map Entries.assignment)
      (Source.ofString tree.dump path).text := by
    have text := (Entries.allWrittenAs_dump (Entries.leaves tree)).normalized printable
    simpa [Source.ofString, Entries.dump] using text
  have shallow : Statement.depthAll ((Entries.leaves tree).map Entries.assignment) ≤
      maxNesting := by
    rw [Entries.depthAll_assignments]
    exact Nat.zero_le _
  obtain ⟨document, reading, parsed, _, same⟩ :=
    Source.exists_parse_of_writtenAs written printable shallow
  obtain ⟨depth, hd⟩ := Nat.exists_eq_succ_of_ne_zero (Nat.ne_of_gt deep)
  have performs : Merge.Performs (Merge.source options.resolver options.dsl options.depth
      (Source.ofString tree.dump path) []) () (Entries.setAll (Entries.leaves tree)) := by
    rw [hd]
    refine Merge.performs_source_succ_iff.mpr ⟨document.statements, ?_, ?_⟩
    · rw [Source.statements?, parsed]
    · exact Merge.performs_assignments (Context.steady_ofSource _ _ _ _ _) rfl writable same
  have outcome : (options.runSource (Source.ofString tree.dump path)).outcome = .ok tree := by
    refine outcome_of_performs performs ?_
    rw [Entries.setAll_leaves_nil full, h.linkPrototypes, ite_self]
  have reports := reportsOne_runSource options (Source.ofString tree.dump path)
  rw [RunResult.ReportsOne, outcome] at reports
  exact reports.2

def quotedTree : Entries :=
  [("it's", .map [("\\", .null), ("a.b", .string "x\"\r\n")]), ("n", .int (-7))]

theorem settled_dump_of_quotedTree :
    let options : RunOptions := { resolver := noFiles }
    (options.runSource (Source.ofString quotedTree.dump none)).settled? =
      some (.ok quotedTree) := by
  have full : Entries.Full quotedTree := by
    simp [quotedTree, Entries.Full, Entries.EntryFull, Node.Full, Entries.keys]
  have writable : ∀ leaf ∈ Entries.leaves quotedTree, Entries.Writable leaf := by
    intro leaf hl
    simp [quotedTree, Entries.leaves, Entries.leavesOfEntry, Node.leaves] at hl
    rcases hl with rfl | rfl | rfl
    · exact ⟨by decide, by decide, trivial⟩
    · exact ⟨by decide, by decide, trivial⟩
    · exact ⟨by decide, by decide, trivial⟩
  exact settled_dump (by decide) ⟨full, writable⟩ none

end RunOptions

end FusionTree
