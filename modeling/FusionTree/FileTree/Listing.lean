import FusionTree.FileTree.Lookup

/-!
# Listing directories

The files below a directory, in the order of their names: the content of a directory stands where
the directory itself would. A link counts as a file and is not followed.
-/

namespace FusionTree

mutual

/-- The names that lead to each file below an entry; a file is reached by none. -/
def FileEntry.filesBelow : FileEntry → List (List String)
  | .directory children =>
    let byName := (FileEntry.listings children).mergeSort fun a b => decide (a.1 ≤ b.1)
    byName.flatMap fun (name, files) => files.map (name :: ·)
  | _ => [[]]

def FileEntry.listings : List (String × FileEntry) → List (String × List (List String))
  | [] => []
  | child :: rest => FileEntry.listing child :: FileEntry.listings rest

def FileEntry.listing : String × FileEntry → String × List (List String)
  | (name, entry) => (name, entry.filesBelow)

end

/-- The names that lead from a directory to the files in it, at any depth or directly in it. -/
def FileTree.filesIn (tree : FileTree) (directory : Path) (deep : Bool) : List (List String) :=
  match tree.locate directory with
  | .ok here =>
    ((tree.entryAt here).filesBelow).filter fun names => names.length = 1 || (deep && names ≠ [])
  | .error _ => []

end FusionTree
