import FusionTree.FileTree.Listing
import FusionTree.Include.Error
import FusionTree.Include.Glob

/-!
# Include resolvers

A resolver turns the pattern of an include statement into files and reads them. The one over a file
tree follows the two forms of globs; a pattern without a `*` names one file, which need not exist.
-/

namespace FusionTree

/-- How include statements find their files. -/
structure Resolver where
  /-- The files of a pattern in the order of inclusion, seen from the including file. -/
  resolve : (pattern : String) → (current : Option Path) → Except IncludeError (List Path)
  read : Path → Except IncludeError String
  same : Path → Path → Bool

/-- The path that a pattern means, seen from the including file; it may be a glob. -/
def includeTarget (pattern : String) (current : Option Path) : Except IncludeError Path :=
  let trimmed := Text.trim pattern.toList
  match trimmed, current with
  | [], _ => .error .emptyPattern
  | '/' :: _, _ => .error .absolutePath
  | _, none => .error .missingCurrentFile
  | _, some current =>
    let directory := current.parent?.getD ⟨""⟩
    .ok (directory.join (String.ofList trimmed)).normalize

namespace FileTree

/-- The names that lead from the directory of a glob to the files that it selects, if there is such
a directory. A glob without a suffix selects those with the extension. -/
def select? (tree : FileTree) (extension : String) (glob : Glob) : Option (List (List String)) :=
  if tree.isDirectory glob.directory then
    let suffix := if glob.suffix.isEmpty then extension else glob.suffix
    some <| (tree.filesIn glob.directory glob.deep).filter fun names =>
      (names.getLast?.getD "").endsWith suffix
  else none

def filesOf (tree : FileTree) (extension : String) (glob : Glob) :
    Except IncludeError (List Path) :=
  match tree.select? extension glob with
  | some selected => .ok (selected.map fun names => glob.directory.join ("/".intercalate names))
  | none => .error (.notADirectory glob.directory)

/-- The files that a pattern with a `*` names; it has to be a glob. -/
def expand (tree : FileTree) (extension : String) (pattern : Path) :
    Except IncludeError (List Path) :=
  match Glob.ofPath? pattern with
  | none => .error (.unsupportedGlob pattern.text)
  | some glob => tree.filesOf extension glob

def resolve (tree : FileTree) (extension : String) (pattern : String) (current : Option Path) :
    Except IncludeError (List Path) := do
  let target ← includeTarget pattern current
  if target.text.contains '*' then tree.expand extension target else return [target]

def readIncluded (tree : FileTree) (file : Path) : Except IncludeError String :=
  match tree.read file with
  | .ok text => .ok text
  | .error .notFound => .error (.notFound file)
  | .error cause => .error (.unreadable cause)

/-- The resolver over a file tree; `extension` is the suffix of globs that name none. -/
def resolver (tree : FileTree) (extension : String) : Resolver where
  resolve := tree.resolve extension
  read := tree.readIncluded
  same := tree.isSameFile

end FileTree

end FusionTree
