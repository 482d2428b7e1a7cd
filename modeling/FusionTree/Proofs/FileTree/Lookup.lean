import FusionTree.Proofs.FileTree.Listing

/-!
# Where lookups lead

What a lookup comes to is an entry of the tree, so it is as sound as the tree.
-/

namespace FusionTree.FileTree

open FileEntry

/-- The tree is one that a file system can hold. -/
def Sound (tree : FileTree) : Prop :=
  (FileEntry.directory tree.children).Sound

variable {tree : FileTree} {here there : Location} {links : Nat} {path : List String}

def Location.Sound (here : Location) : Prop :=
  ∀ place ∈ here, place.2.Sound

theorem Sound.entryAt (sound : tree.Sound) (h : here.Sound) : (tree.entryAt here).Sound := by
  cases here with
  | nil => exact sound
  | cons place outer => exact h place List.mem_cons_self

theorem follow_sound (sound : tree.Sound) (h : here.Sound)
    (reached : tree.follow links here path = .ok there) : there.Sound := by
  fun_induction follow tree links here path with
  | case1 =>
    cases reached
    exact h
  | case2 links here piece rest children at_ blank ih => exact ih h reached
  | case3 links here rest children at_ proper ih =>
    exact ih (fun place mem => h place (List.mem_of_mem_tail mem)) reached
  | case7 here piece rest children at_ proper up short target looked links start ih =>
    refine ih (fun place mem => ?_) reached
    unfold start at mem
    split at mem
    · exact absurd mem List.not_mem_nil
    · exact h place mem
  | case8 links here piece rest children at_ proper up short entry noLink looked ih =>
    refine ih (List.forall_mem_cons.mpr ⟨?_, h⟩) reached
    exact (at_ ▸ sound.entryAt h).of_lookup looked
  | _ => cases reached

theorem trace_eq (tree : FileTree) (p : Path) : tree.trace p =
    if p.text.isEmpty then .error .notFound
    else if p.text.contains '\x00' then .error .nulInPath
    else (tree.startOf p).bind fun start => tree.follow maxLinks start (pieces p.text) := by
  rw [trace]
  split
  · rfl
  · split <;> rfl

theorem locate_eq_trace {p : Path} (short : p.text.utf8ByteSize ≤ maxPathBytes) :
    tree.locate p = tree.trace p :=
  if_neg fun long => absurd long.1 (Nat.not_lt.mpr short)

theorem startOf_sound {p : Path} (sound : tree.Sound) (start : tree.startOf p = .ok here) :
    here.Sound := by
  have nothing : Location.Sound [] := fun _ mem => absurd mem List.not_mem_nil
  rw [startOf] at start
  split at start
  · cases start
    exact nothing
  · exact follow_sound sound nothing start

/-- Where a lookup leads is sound, if the tree is. -/
theorem Sound.locate {p : Path} (sound : tree.Sound) (reached : tree.locate p = .ok here) :
    here.Sound := by
  rw [FileTree.locate, trace_eq] at reached
  split at reached
  · cases reached
  split at reached
  · cases reached
  split at reached
  · cases reached
  cases start : tree.startOf p with
  | error cause =>
    rw [start] at reached
    cases reached
  | ok place =>
    rw [start] at reached
    exact follow_sound sound (startOf_sound sound start) reached

/-! ### Pieces of a path -/

section Steps

variable {children inner : List (String × FileEntry)} {name : String} {rest : List String}

theorem follow_root (links : Nat) (rest : List String) :
    tree.follow links [] ("" :: rest) = tree.follow links [] rest := by
  rw [follow, entryAt]
  rfl

theorem follow_up (h : tree.entryAt here = .directory children) (rest : List String) :
    tree.follow links here (".." :: rest) = tree.follow links here.tail rest := by
  rw [follow, h]
  rfl

theorem follow_down (proper : IsName name) (h : tree.entryAt here = .directory children)
    (looked : children.lookup name = some (.directory inner)) (rest : List String) :
    tree.follow links here (name :: rest) =
      tree.follow links ((name, .directory inner) :: here) rest := by
  obtain ⟨empty, dot, dots, _⟩ := Path.isStep_name.mp proper.isStep
  have short : ¬name.utf8ByteSize > maxNameBytes := Nat.not_lt.mpr proper.short
  rw [follow, h]
  simp only [empty, dot, dots, short, looked, or_self, if_false]

end Steps

/-- The place lies below the root in the directories of these names, the innermost first, and no
link is on the way to it. -/
inductive Place (tree : FileTree) : List String → Location → Prop
  | root : Place tree [] []
  | down {outer : List String} {here : Location} {children inner : List (String × FileEntry)}
      {name : String} : Place tree outer here → IsName name →
      tree.entryAt here = .directory children → children.lookup name = some (.directory inner) →
      Place tree (name :: outer) ((name, .directory inner) :: here)

theorem exists_directory_of_at? {entry : FileEntry} {children : List (String × FileEntry)}
    {names : List String} (h : entry.at? names = some (.directory children)) :
    ∃ inner, entry = .directory inner := by
  cases entry with
  | directory inner => exact ⟨inner, rfl⟩
  | file | link => cases names <;> cases h

theorem exists_place {outer names : List String} {children : List (String × FileEntry)}
    (place : tree.Place outer here) (proper : ∀ name ∈ names, IsName name)
    (h : (tree.entryAt here).at? names = some (.directory children)) :
    ∃ there, tree.Place (names.reverse ++ outer) there := by
  induction names generalizing outer here with
  | nil => exact ⟨here, place⟩
  | cons name names ih =>
    obtain ⟨inner, entry⟩ := exists_directory_of_at? h
    rw [entry, at?] at h
    obtain ⟨child, looked, below⟩ := Option.bind_eq_some_iff.mp h
    obtain ⟨children, rfl⟩ := exists_directory_of_at? below
    rw [List.reverse_cons, List.append_assoc]
    exact ih (.down place (proper name List.mem_cons_self) entry looked)
      (fun other mem => proper other (List.mem_cons_of_mem _ mem)) below

namespace Place

variable {outer : List String}

theorem exists_children (place : tree.Place outer here) :
    ∃ children, tree.entryAt here = .directory children := by
  cases place with
  | root => exact ⟨_, rfl⟩
  | down => exact ⟨_, rfl⟩

theorem isName (place : tree.Place outer here) : ∀ name ∈ outer, IsName name := by
  induction place with
  | root => exact fun _ mem => absurd mem List.not_mem_nil
  | down _ proper _ _ ih => exact List.forall_mem_cons.mpr ⟨proper, ih⟩

/-- The names lead to the place. -/
theorem follow (place : tree.Place outer here) (links : Nat) (rest : List String) :
    tree.follow links [] (outer.reverse ++ rest) = tree.follow links here rest := by
  induction place generalizing rest with
  | root => rfl
  | down _ proper entry looked ih =>
    rw [List.reverse_cons, List.append_assoc, ih, List.singleton_append,
      follow_down proper entry looked]

theorem tail (place : tree.Place outer here) : tree.Place outer.tail here.tail := by
  cases place with
  | root => exact .root
  | down place => exact place

/-- Parent steps lead out of the directories, and nowhere from the root. -/
theorem climb (place : tree.Place outer here) (climbs : Nat) :
    ∃ there, tree.Place (outer.drop climbs) there ∧ ∀ links rest,
      tree.follow links here (List.replicate climbs ".." ++ rest) =
        tree.follow links there rest := by
  induction climbs generalizing outer here with
  | zero => exact ⟨here, place, fun _ _ => rfl⟩
  | succ climbs ih =>
    obtain ⟨children, entry⟩ := place.exists_children
    obtain ⟨there, above, same⟩ := ih place.tail
    rw [List.drop_tail] at above
    refine ⟨there, above, fun links rest => ?_⟩
    rw [List.replicate_succ, List.cons_append, follow_up entry, same]

/-- A path of nothing but `.` leads to the working directory. -/
theorem locate_current (place : tree.Place outer here)
    (working : tree.workingDirectory = outer.reverse) : tree.locate ⟨"."⟩ = .ok here := by
  obtain ⟨children, entry⟩ := place.exists_children
  have start : tree.startOf ⟨"."⟩ = .ok here := by
    have led := place.follow maxLinks []
    rw [List.append_nil, ← working, FileTree.follow] at led
    exact (if_neg (by decide)).trans led
  have stays : tree.follow maxLinks here ["."] = .ok here := by
    rw [FileTree.follow, entry]
    simp only [or_true, if_true]
    rw [FileTree.follow]
  have noNul : ¬".".contains '\x00' = true := by
    rw [String.contains_char_eq]
    decide
  rw [locate_eq_trace (by decide), trace_eq, if_neg (by decide), if_neg noNul, start]
  exact stays

end Place

end FusionTree.FileTree
