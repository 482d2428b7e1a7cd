/-!
# File paths

A path is kept as it was written and compared by its components: repeated slashes and inner `.`
components do not count, a leading `./` does.

`Path.normalize` folds `.` and `..` by looking at the components alone, never at a file system.
-/

namespace FusionTree

/-- A file path as it was written. -/
structure Path where
  text : String
deriving Repr, DecidableEq, Inhabited

namespace Path

inductive Component
  | root
  | current
  | parent
  | name (text : String)
deriving Repr, DecidableEq

def segments : List Char → List (List Char)
  | [] => [[]]
  | c :: rest =>
    if c = '/' then [] :: segments rest
    else match segments rest with
      | [] => [[c]]
      | first :: more => (c :: first) :: more

/-- The component that a piece between slashes stands for, if any. A `.` counts only at the very
start of a path. -/
def component? (segment : List Char) : Option Component :=
  if segment = [] ∨ segment = ['.'] then none
  else if segment = ['.', '.'] then some .parent
  else some (.name (String.ofList segment))

def isAbsolute (p : Path) : Bool :=
  p.text.toList.head? == some '/'

/-- The components of a path, outermost first. -/
def components (p : Path) : List Component :=
  let pieces := segments p.text.toList
  let start :=
    if p.isAbsolute then [.root] else if pieces.head? = some ['.'] then [.current] else []
  start ++ pieces.filterMap component?

def same (p q : Path) : Bool :=
  p.components = q.components

def Component.text : Component → String
  | .root => ""
  | .current => "."
  | .parent => ".."
  | .name s => s

def ofComponents : List Component → Path
  | [] => ⟨""⟩
  | [.root] => ⟨"/"⟩
  | cs => ⟨"/".intercalate (cs.map Component.text)⟩

/-- The pieces of a path up to its last component; what stands for no component goes with it. -/
def throughLast (pieces : List (List Char)) : List (List Char) :=
  (pieces.reverse.dropWhile fun piece => (component? piece).isNone).reverse

/-- The path without its last component, as it was written; `none` for the root and for the empty
path. -/
def parent? (p : Path) : Option Path :=
  match p.components.getLast? with
  | none | some .root => none
  | some .current => some ⟨""⟩
  | some _ =>
    let pieces := segments p.text.toList
    let anchored := p.isAbsolute || pieces.head? = some ['.']
    let (anchor, body) := pieces.splitAt (if anchored then 1 else 0)
    match anchor ++ throughLast (throughLast body).dropLast with
    | [[]] => some ⟨"/"⟩
    | kept => some ⟨"/".intercalate (kept.map String.ofList)⟩

/-- The path of `child` seen from the directory `p`. -/
def join (p : Path) (child : String) : Path :=
  if child.startsWith "/" || p.text.isEmpty then ⟨child⟩
  else if p.text.endsWith "/" then ⟨p.text ++ child⟩
  else ⟨p.text ++ "/" ++ child⟩

/-- Takes one component into a folded path, which is kept innermost first. A parent step removes
the component before it, whatever it is, unless nothing but the root is left. -/
def fold (folded : List Component) : Component → List Component
  | .current => folded
  | .parent =>
    match folded with
    | [] | [.root] => .parent :: folded
    | _ :: outer => outer
  | c => c :: folded

/-- Folds `.` and `..` components without looking at any file system. -/
def normalize (p : Path) : Path :=
  ofComponents (p.components.foldl fold []).reverse

end Path

end FusionTree
