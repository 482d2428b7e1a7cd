import FusionTree.FileTree.Listing
import FusionTree.Proofs.Source.Components

/-!
# What listings hold

The names that are listed below an entry are those that lead to something else than a directory,
links not followed. They come in the order of their names, each once.
-/

namespace FusionTree

namespace FileEntry

/-- Whether the entry is a directory. A link is none, whatever it points to. -/
def isDirectory : FileEntry → Bool
  | .directory _ => true
  | _ => false

/-- What names lead to from an entry, through directories only. -/
def at? : FileEntry → List String → Option FileEntry
  | entry, [] => some entry
  | .directory children, name :: rest => (children.lookup name).bind (at? · rest)
  | _, _ :: _ => none

/-- Something that can be the name of an entry in a directory. -/
structure IsName (name : String) : Prop where
  isStep : (Path.Component.name name).IsStep
  noNul : '\x00' ∉ name.toList
  short : name.utf8ByteSize ≤ FileTree.maxNameBytes

theorem isName_iff {name : String} : IsName name ↔
    (name ≠ "" ∧ name ≠ "." ∧ name ≠ ".." ∧ '/' ∉ name.toList) ∧ '\x00' ∉ name.toList ∧
      name.utf8ByteSize ≤ FileTree.maxNameBytes := by
  rw [← Path.isStep_name]
  exact ⟨fun h => ⟨h.isStep, h.noNul, h.short⟩, fun h => ⟨h.1, h.2.1, h.2.2⟩⟩

instance (name : String) : Decidable (IsName name) :=
  decidable_of_iff _ isName_iff.symm

/-- An entry as a file system can hold it: different entries of a directory have different names. -/
inductive Sound : FileEntry → Prop
  | file (content : ByteArray) : Sound (.file content)
  | link (target : String) : Sound (.link target)
  | directory (children : List (String × FileEntry)) :
      (children.map (·.1)).Nodup → (∀ child ∈ children, IsName child.1) →
      (∀ child ∈ children, Sound child.2) → Sound (.directory children)

variable {children : List (String × FileEntry)} {entry : FileEntry} {name : String}
  {names : List String}

/-! ### Entries by their names -/

theorem mem_of_lookup (h : children.lookup name = some entry) : (name, entry) ∈ children := by
  obtain ⟨front, back, rfl, _⟩ := List.lookup_eq_some_iff.mp h
  simp

theorem lookup_of_mem (distinct : (children.map (·.1)).Nodup) (h : (name, entry) ∈ children) :
    children.lookup name = some entry := by
  obtain ⟨front, back, rfl⟩ := List.append_of_mem h
  refine List.lookup_eq_some_iff.mpr ⟨front, back, rfl, fun child mem => ?_⟩
  rw [List.map_append, List.nodup_append] at distinct
  have other := distinct.2.2 child.1 (List.mem_map_of_mem mem) name List.mem_cons_self
  exact bne_iff_ne.mpr other.symm

theorem Sound.of_lookup (sound : (FileEntry.directory children).Sound)
    (h : children.lookup name = some entry) : entry.Sound := by
  cases sound with
  | directory _ _ _ all => exact all _ (mem_of_lookup h)

theorem Sound.at? (sound : entry.Sound) {found : FileEntry} (h : entry.at? names = some found) :
    found.Sound ∧ ∀ name ∈ names, IsName name := by
  induction names generalizing entry with
  | nil =>
    cases h
    exact ⟨sound, fun _ mem => absurd mem List.not_mem_nil⟩
  | cons name rest ih =>
    cases sound with
    | file | link => cases h
    | directory children distinct proper all =>
      obtain ⟨child, looked, found⟩ := Option.bind_eq_some_iff.mp h
      have mem := mem_of_lookup looked
      have below := ih (all _ mem) found
      exact ⟨below.1, List.forall_mem_cons.mpr ⟨proper _ mem, below.2⟩⟩

/-! ### Listings -/

theorem listings_eq (children : List (String × FileEntry)) :
    listings children = children.map fun child => (child.1, child.2.filesBelow) := by
  induction children with
  | nil => rfl
  | cons child rest ih => rw [listings, ih, List.map_cons, listing]

/-- The children of a directory with what is below them, in the order of their names. -/
def byName (children : List (String × FileEntry)) : List (String × List (List String)) :=
  (children.map fun child => (child.1, child.2.filesBelow)).mergeSort fun a b => decide (a.1 ≤ b.1)

theorem filesBelow_directory (children : List (String × FileEntry)) :
    (FileEntry.directory children).filesBelow =
      (byName children).flatMap fun (name, files) => files.map (name :: ·) := by
  rw [filesBelow, listings_eq]
  rfl

theorem mem_byName {files : List (List String)} : (name, files) ∈ byName children ↔
    ∃ entry, (name, entry) ∈ children ∧ entry.filesBelow = files := by
  rw [byName, List.mem_mergeSort, List.mem_map]
  constructor
  · rintro ⟨⟨name, entry⟩, mem, ⟨⟩⟩
    exact ⟨entry, mem, rfl⟩
  · rintro ⟨entry, mem, rfl⟩
    exact ⟨(name, entry), mem, rfl⟩

theorem pairwise_byName (distinct : (children.map (·.1)).Nodup) :
    (byName children).Pairwise fun a b => a.1 < b.1 := by
  have sorted : (byName children).Pairwise fun a b => decide (a.1 ≤ b.1) = true := by
    refine List.pairwise_mergeSort (fun a b c ab bc => ?_) (fun a b => ?_) _
    · exact decide_eq_true (String.le_trans (of_decide_eq_true ab) (of_decide_eq_true bc))
    · rw [Bool.or_eq_true, decide_eq_true_eq, decide_eq_true_eq]
      exact String.le_total a.1 b.1
  have different : (byName children).Pairwise fun a b => a.1 ≠ b.1 := by
    have names : ((byName children).map (·.1)).Perm (children.map (·.1)) := by
      refine ((List.mergeSort_perm _ _).map _).trans ?_
      rw [List.map_map]
      exact .refl _
    exact List.pairwise_map.mp (names.nodup_iff.mpr distinct)
  refine (sorted.and different).imp fun ⟨le, ne⟩ => ?_
  exact Decidable.byContradiction fun notLess =>
    ne (String.le_antisymm (of_decide_eq_true le) (String.not_lt.mp notLess))

theorem mem_filesBelow_directory : names ∈ (FileEntry.directory children).filesBelow ↔
    ∃ name entry rest, (name, entry) ∈ children ∧ rest ∈ entry.filesBelow ∧
      names = name :: rest := by
  rw [filesBelow_directory, List.mem_flatMap]
  constructor
  · rintro ⟨⟨name, files⟩, mem, listed⟩
    obtain ⟨entry, child, rfl⟩ := mem_byName.mp mem
    obtain ⟨rest, below, rfl⟩ := List.mem_map.mp listed
    exact ⟨name, entry, rest, child, below, rfl⟩
  · rintro ⟨name, entry, rest, child, below, rfl⟩
    exact ⟨(name, entry.filesBelow), mem_byName.mpr ⟨entry, child, rfl⟩, List.mem_map_of_mem below⟩

/-- What is listed is what is no directory. -/
theorem mem_filesBelow_iff (sound : entry.Sound) : names ∈ entry.filesBelow ↔
    ∃ found, entry.at? names = some found ∧ found.isDirectory = false := by
  induction sound generalizing names with
  | file content | link target =>
    rw [filesBelow.eq_def]
    cases names with
    | nil => simp [at?, isDirectory]
    | cons => simp [at?]
  | directory children distinct proper all ih =>
    rw [mem_filesBelow_directory]
    constructor
    · rintro ⟨name, entry, rest, child, below, rfl⟩
      obtain ⟨found, leads, file⟩ := (ih _ child).mp below
      refine ⟨found, ?_, file⟩
      rw [at?, lookup_of_mem distinct child, Option.bind_some, leads]
    · rintro ⟨found, leads, file⟩
      cases names with
      | nil =>
        cases leads
        cases file
      | cons name rest =>
        obtain ⟨entry, looked, below⟩ := Option.bind_eq_some_iff.mp leads
        have child := mem_of_lookup looked
        exact ⟨name, entry, rest, child, (ih _ child).mpr ⟨found, below, file⟩, rfl⟩

/-- The order of a listing is that of the names, from the outermost one on. -/
theorem pairwise_filesBelow (sound : entry.Sound) : entry.filesBelow.Pairwise (· < ·) := by
  induction sound with
  | file | link => exact List.pairwise_singleton _ _
  | directory children distinct proper all ih =>
    rw [filesBelow_directory, List.pairwise_flatMap]
    refine ⟨fun ⟨name, files⟩ mem => ?_, (pairwise_byName distinct).imp fun less => ?_⟩
    · obtain ⟨entry, child, rfl⟩ := mem_byName.mp mem
      refine List.pairwise_map.mpr ((ih _ child).imp fun less => ?_)
      exact List.cons_lt_cons_iff.mpr (.inr ⟨rfl, less⟩)
    · intro first mem second mem'
      obtain ⟨rest, -, rfl⟩ := List.mem_map.mp mem
      obtain ⟨rest', -, rfl⟩ := List.mem_map.mp mem'
      exact List.cons_lt_cons_iff.mpr (.inl less)

end FileEntry

end FusionTree
