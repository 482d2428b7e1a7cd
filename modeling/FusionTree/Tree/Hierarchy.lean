import FusionTree.Problem.Basic
import FusionTree.Tree.Node

/-!
# Inheritance between prototypes

A prototype names the one that it inherits from. `linkPrototypes` follows these names and writes
down for every prototype the whole chain, from the most distant ancestor to the direct parent. The
walk ends at a name that no prototype has; if it comes back to a name, there is no chain.
-/

namespace FusionTree

namespace Entries

def parentOf? (prototypes : Entries) (name : String) : Option String :=
  ((prototypes.get? name).bind (·.get? Key.parent)).bind Node.string?

theorem length_erase_lt_of_parentOf? {prototypes : Entries} {name parent : String}
    (h : prototypes.parentOf? name = some parent) :
    (prototypes.erase name).length < prototypes.length := by
  have found : ∃ entry ∈ prototypes, ¬entry.1 ≠ name := by
    unfold parentOf? Entries.get? at h
    induction prototypes with
    | nil => simp at h
    | cons entry rest ih =>
      obtain ⟨key, node⟩ := entry
      by_cases hk : key = name
      · exact ⟨(key, node), by simp, by simpa using hk⟩
      · have : (name == key) = false := by simpa using fun h => hk h.symm
        obtain ⟨e, hm, hn⟩ := ih (by simpa [List.lookup_cons, this] using h)
        exact ⟨e, by simp [hm], hn⟩
  unfold erase
  obtain ⟨entry, mem, ne⟩ := found
  exact List.length_filter_lt_length_iff_exists.mpr ⟨entry, mem, by simpa using ne⟩

/-- The ancestors of a prototype, the direct parent first. `walked` holds the names that the walk
has visited, the latest first; the walk fails with all of them if it comes to one again. -/
def ancestors (prototypes : Entries) (walked : List String) (name : String) :
    Except (List String) (List String) :=
  match h : prototypes.parentOf? name with
  | none => .ok []
  | some parent =>
    if parent ∈ walked then .error (parent :: walked).reverse
    else do
      have := length_erase_lt_of_parentOf? h
      let more ← ancestors (prototypes.erase name) (parent :: walked) parent
      return parent :: more
termination_by prototypes.length

/-- The chain of a prototype, the most distant ancestor first; the names of the walk if it comes
back to one. -/
def chainOf (prototypes : Entries) (name : String) : Except (List String) (List String) :=
  List.reverse <$> prototypes.ancestors [name] name

/-- The names that have a chain, with their chains; the first name that has none because its walk
comes back, with the walk. -/
def chains (prototypes : Entries) :
    List String → Except (String × List String) (List (String × List String))
  | [] => .ok []
  | name :: names =>
    match prototypes.chainOf name with
    | .error walk => .error (name, walk)
    | .ok chain => do
      let more ← prototypes.chains names
      return if chain.isEmpty then more else (name, chain) :: more

def writeChain (prototypes : Entries) (name : String) (chain : List String) : Entries :=
  match prototypes.get? name with
  | some (.map es) =>
    prototypes.insert name (.map (Entries.insert es Key.chain (.list (chain.map .string))))
  | _ => prototypes

def linkPrototypes (es : Entries) : Except Problem Entries :=
  match es.get? Key.prototypes with
  | some (.map prototypes) =>
    match chains prototypes (keys prototypes) with
    | .error (name, walk) => .error ⟨.recursiveInheritance name walk, Span.dummy⟩
    | .ok chains =>
      let linked := chains.foldl (fun ps (name, chain) => writeChain ps name chain) prototypes
      .ok (es.insert Key.prototypes (.map linked))
  | _ => .ok es

end Entries

end FusionTree
