import FusionTree.Source.Path

/-!
# File trees

A file tree is what a file system holds below its root at one moment, together with the directory
that relative paths start from. Nothing in it changes while it is read.
-/

namespace FusionTree

/-- What a name in a directory stands for. -/
inductive FileEntry
  | file (content : ByteArray)
  | link (target : String)
  | directory (children : List (String × FileEntry))
deriving Inhabited

namespace FileEntry

/-- Puts an entry under a name, in place of what is there. -/
def put (children : List (String × FileEntry)) (name : String) (entry : FileEntry) :
    List (String × FileEntry) :=
  match children with
  | [] => [(name, entry)]
  | (n, e) :: rest => if n = name then (name, entry) :: rest else (n, e) :: put rest name entry

def childrenOf (children : List (String × FileEntry)) (name : String) :
    List (String × FileEntry) :=
  match children.lookup name with
  | some (.directory inner) => inner
  | _ => []

def makeDirectory (children : List (String × FileEntry)) : List String → List (String × FileEntry)
  | [] => children
  | name :: rest => put children name (.directory (makeDirectory (childrenOf children name) rest))

def putAt (children : List (String × FileEntry)) (entry : FileEntry) :
    List String → List (String × FileEntry)
  | [] => children
  | [name] => put children name entry
  | name :: rest => put children name (.directory (putAt (childrenOf children name) entry rest))

end FileEntry

/-- What is below the root of a file system, and the names that lead to the working directory. -/
structure FileTree where
  children : List (String × FileEntry)
  workingDirectory : List String

namespace FileTree

def empty (workingDirectory : List String) : FileTree :=
  { children := FileEntry.makeDirectory [] workingDirectory, workingDirectory }

/-- The names from the root that a path spells. -/
def namesOf (tree : FileTree) (p : Path) : List String :=
  let start := if p.isAbsolute then [] else tree.workingDirectory
  start ++ p.normalize.components.filterMap fun
    | .name s => some s
    | _ => none

def addDirectory (tree : FileTree) (p : Path) : FileTree :=
  { tree with children := FileEntry.makeDirectory tree.children (tree.namesOf p) }

def add (tree : FileTree) (p : Path) (entry : FileEntry) : FileTree :=
  { tree with children := FileEntry.putAt tree.children entry (tree.namesOf p) }

end FileTree

end FusionTree
