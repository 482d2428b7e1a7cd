/-!
# TOML documents

A document is a table: entries in the order in which they were first written. How a table came to
be decides what may still be added to it, so it is kept.
-/

namespace FusionTree

namespace Toml

/-- How a table came to be. -/
inductive TableOrigin
  /-- By a header of its own, or as the document itself. -/
  | header
  /-- On the way to the table of a longer header. -/
  | onTheWay
  /-- On the way to the key of an assignment. -/
  | dotted
deriving Repr, DecidableEq

end Toml

inductive Toml
  | string (value : String)
  | bool (value : Bool)
  | number
  | datetime
  | array (items : List Toml)
  | inlineTable (entries : List (String × Toml))
  | table (origin : Toml.TableOrigin) (entries : List (String × Toml))
  /-- The tables of headers in double brackets; the latest is `last`. -/
  | tables (earlier : List (List (String × Toml))) (last : List (String × Toml))
deriving Inhabited

namespace Toml

abbrev Table := TableOrigin × List (String × Toml)

/-- Puts a value under a key, in the key's place or at the end. -/
def put (entries : List (String × Toml)) (key : String) (value : Toml) : List (String × Toml) :=
  match entries with
  | [] => [(key, value)]
  | (k, v) :: rest => if k = key then (key, value) :: rest else (k, v) :: put rest key value

/-- Changes the table at a path. Tables that are missing on the way are made; a table that is
written in one piece cannot be passed, and `dotted`, that is from an assignment, neither can one
with a header of its own. -/
def changeAt (dotted : Bool) (change : Table → Option Table) : List String → Table → Option Table
  | [], t => change t
  | key :: rest, (origin, entries) => do
    let fresh : TableOrigin := if dotted then .dotted else .onTheWay
    let inner ← match entries.lookup key with
      | none => do
        let (o, es) ← changeAt dotted change rest (fresh, [])
        pure (table o es)
      | some (table o es) =>
        if dotted ∧ o = .header then none
        else do
          let (o, es) ← changeAt dotted change rest (o, es)
          pure (table o es)
      | some (tables earlier last) => do
        let (_, es) ← changeAt dotted change rest (.header, last)
        pure (tables earlier es)
      | some _ => none
    return (origin, put entries key inner)

/-- A value and the dotted key that it is assigned to: the keys on the way and the last one. -/
structure Assignment where
  way : List String
  key : String
  value : Toml

/-- Adds an assignment to a table. The last key must be new, and a dotted key must not reach into a
table that dotted keys have not made. -/
def assign (t : Table) (a : Assignment) : Option Table :=
  changeAt true (fun (origin, entries) =>
    if (origin = .dotted) = a.way.isEmpty ∨ (entries.lookup a.key).isSome then none
    else some (origin, entries ++ [(a.key, a.value)])) a.way t

/-- A part of a document under one header. -/
structure Section where
  way : List String
  key : String
  /-- Whether the header is in double brackets, so that the table is one of several. -/
  several : Bool
  assignments : List Assignment

/-- Adds a section to a document. A header in single brackets may name a table only once; one that
was made on the way to another is moved to the end. -/
def addSection (document : Table) (s : Section) : Option Table :=
  changeAt false (fun (origin, entries) => do
    let old := entries.lookup s.key
    if s.several then
      let (_, new) ← s.assignments.foldlM assign (.header, [])
      match old with
      | none => some (origin, entries ++ [(s.key, tables [] new)])
      | some (tables earlier last) =>
        some (origin, put entries s.key (tables (earlier ++ [last]) new))
      | some _ => none
    else
      let start ← match old with
        | none => some []
        | some (table .onTheWay es) => some es
        | some _ => none
      let (_, new) ← s.assignments.foldlM assign (.header, start)
      some (origin, entries.filter (·.1 ≠ s.key) ++ [(s.key, table .header new)])) s.way document

def document (first : List Assignment) (sections : List Section) :
    Option (List (String × Toml)) := do
  let start ← first.foldlM assign (.header, [])
  let (_, entries) ← sections.foldlM addSection start
  return entries

end Toml

end FusionTree
