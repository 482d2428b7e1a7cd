import FusionTree.Tree.Node

/-!
# Writing to the merged tree

Three operations change a tree at a path: `set` writes a node, `unset` leaves a mark that the object
inherits nothing, and `copy` writes what stands at another path. They keep what is there as far as
possible: maps are merged, and a plain value that gets properties becomes a tagged one.
-/

namespace FusionTree

mutual

/-- What a node leaves where `base` was: maps are merged, anything else replaces it. -/
def Node.overrule : Node → (base : Option Node) → Node
  | .map entries, base =>
    .map (match base with
      | some (.map es) => Entries.overrule entries es
      | _ => entries)
  | node, _ => node

def Entries.overrule : List (String × Node) → (base : Entries) → Entries
  | [], base => base
  | entry :: rest, base => Entries.overrule rest (Entries.overruleOne entry base)

def Entries.overruleOne : String × Node → (base : Entries) → Entries
  | (key, node), base => base.insert key (node.overrule (base.get? key))

end

namespace Entries

def tag (es : Entries) (value : Node) : Entries :=
  ((es.insert Key.value value).insert Key.eel .null).insert Key.objectType .null

/-- Writes a node under a key. A null removes what is there; a map is merged into a map, and any
other node tags it; everything else replaces what is there. -/
def write (es : Entries) (key : String) (node : Node) : Entries :=
  match es.get? key with
  | some (.map old) =>
    match node with
    | .null => es.erase key
    | .map new => es.insert key (.map (Entries.overrule new old))
    | value => es.insert key (.map (tag old value))
  | some .null | none => es.insert key node
  | some _ => if node.isNull then es.erase key else es.insert key node

/-- The entries that a path runs through: none yet where nothing is, and the tags of a plain value
where one is. -/
def opened : Option Node → Entries
  | some (.map es) => es
  | some .null | none => []
  | some value => Node.taggedEntries value

/-- Writes a node at a path. Maps are made on the way where there are none, and a plain value on
the way becomes a tagged one. -/
def set (es : Entries) : (path : List String) → Node → Entries
  | [], _ => es
  | [key], node => es.write key node
  | key :: rest, node => es.insert key (.map ((opened (es.get? key)).set rest node))

/-- Replaces what is at a path by the mark that the object inherits nothing. -/
def unset (es : Entries) (path : List String) : Entries :=
  (es.set path .null).set (path ++ [Key.stop]) (.bool true)

/-- What is at a path, and the tree after looking: nothing and null become an empty map, wherever
they are on the way. Behind a plain value there is null. -/
def materialize (es : Entries) : (path : List String) → Node × Entries
  | [] => (.null, es)
  | key :: rest =>
    let child := match es.get? key with
      | some .null | none => .map []
      | some node => node
    match rest, child with
    | [], _ => (child, es.insert key child)
    | _ :: _, .map inner =>
      let (node, inner) := materialize inner rest
      (node, es.insert key (.map inner))
    | _ :: _, _ => (.null, es.insert key child)

def copy (es : Entries) (target source : List String) : Entries :=
  let (node, es) := es.materialize source
  es.set target node

end Entries

namespace Key

/-- The path of the object that a path is in. -/
def parentPath (path : List String) : List String :=
  path.dropLast

def isPrototypePath (path : List String) : Bool :=
  path.dropLast.getLast? == some prototypes

end Key

end FusionTree
