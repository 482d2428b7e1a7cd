import FusionTree.FileTree.Basic
import FusionTree.FileTree.Error

/-!
# Looking up paths

A path is followed name by name from the root or the working directory. A link is replaced by the
path that it points to, at most forty times in one lookup; a parent step leaves the directory that
has really been reached.
-/

namespace FusionTree.FileTree

def maxLinks : Nat := 40

def maxNameBytes : Nat := 255

/-- How many bytes a path may have by which something is opened or asked about. -/
def maxPathBytes : Nat := 4095

/-- A place in a tree: the names that lead to it with what they stand for, the innermost first. -/
abbrev Location := List (String × FileEntry)

def entryAt (tree : FileTree) (here : Location) : FileEntry :=
  match here with
  | [] => .directory tree.children
  | (_, entry) :: _ => entry

def pieces (text : String) : List String :=
  (Path.segments text.toList).map String.ofList

/-- Follows pieces of a path from a place; `links` more links may be followed. -/
def follow (tree : FileTree) (links : Nat) (here : Location) (path : List String) :
    Except FileError Location :=
  match path with
  | [] => .ok here
  | piece :: rest =>
    match tree.entryAt here with
    | .directory children =>
      if piece = "" ∨ piece = "." then tree.follow links here rest
      else if piece = ".." then tree.follow links here.tail rest
      else if piece.utf8ByteSize > maxNameBytes then .error .nameTooLong
      else match children.lookup piece with
        | none => .error .notFound
        | some (.link target) =>
          match links with
          | 0 => .error .tooManyLinks
          | links + 1 =>
            let start := if target.startsWith "/" then [] else here
            tree.follow links start (pieces target ++ rest)
        | some entry => tree.follow links ((piece, entry) :: here) rest
    | _ => .error .notADirectory
termination_by (links, path.length)

def startOf (tree : FileTree) (p : Path) : Except FileError Location :=
  if p.isAbsolute then .ok [] else tree.follow maxLinks [] tree.workingDirectory

/-- The place that a path leads to, all links followed, however long the path is. -/
def trace (tree : FileTree) (p : Path) : Except FileError Location := do
  if p.text.isEmpty then throw .notFound
  if p.text.contains '\x00' then throw .nulInPath
  tree.follow maxLinks (← tree.startOf p) (pieces p.text)

/-- The place that a path leads to if the path as a whole is handed over. A NUL in a path is found
before its length is. -/
def locate (tree : FileTree) (p : Path) : Except FileError Location :=
  if p.text.utf8ByteSize > maxPathBytes ∧ ¬ p.text.contains '\x00' then .error .nameTooLong
  else tree.trace p

def pathOf (here : Location) : Path :=
  ⟨"/" ++ "/".intercalate (here.reverse.map (·.1))⟩

/-- The path from the root that leads to the same place without links and parent steps. It is found
name by name, so the length of the given path does not matter. -/
def canonicalize (tree : FileTree) (p : Path) : Except FileError Path :=
  pathOf <$> tree.trace p

def exists? (tree : FileTree) (p : Path) : Bool :=
  (tree.locate p).isOk

def isDirectory (tree : FileTree) (p : Path) : Bool :=
  match tree.entryAt <$> tree.locate p with
  | .ok (.directory _) => true
  | _ => false

def read (tree : FileTree) (p : Path) : Except FileError String := do
  match tree.entryAt (← tree.locate p) with
  | .file content =>
    match String.fromUTF8? content with
    | some text => return text
    | none => throw .notText
  | .directory _ => throw .isADirectory
  | .link _ => throw .tooManyLinks

/-- Whether two paths lead to one file. Paths that lead nowhere are compared as they are. -/
def isSameFile (tree : FileTree) (p q : Path) : Bool :=
  match tree.canonicalize p, tree.canonicalize q with
  | .ok p, .ok q => p.same q
  | _, _ => p.same q

end FusionTree.FileTree
