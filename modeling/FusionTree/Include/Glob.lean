import FusionTree.Source.Path
import FusionTree.Text.Blank

/-!
# Include patterns

A pattern is a path seen from the directory of the including file. One that holds a `*` is a glob
of one of two forms: `<dir>/*<suffix>` for the files of a directory, and `<dir>/**/*<suffix>` for
the files at any depth below it.
-/

namespace FusionTree

/-- The files of a directory whose names have a suffix. -/
structure Glob where
  directory : Path
  /-- Whether the directories below count too. -/
  deep : Bool
  suffix : String
deriving Repr, DecidableEq

namespace Glob

/-- Whether a text can stand after the last `*`. -/
def isSuffix (text : List Char) : Bool :=
  text.all fun c => c ≠ '*' && c ≠ '/'

/-- What the text from the first `*` on selects: whether at any depth, and the suffix. -/
def selection? (text : List Char) : Option (Bool × List Char) :=
  match text with
  | '*' :: rest =>
    if isSuffix rest then some (false, rest)
    else match rest with
      | '*' :: '/' :: '*' :: suffix => if isSuffix suffix then some (true, suffix) else none
      | _ => none
  | _ => none

def ofPath? (pattern : Path) : Option Glob :=
  let text := pattern.text.toList
  let before := text.takeWhile (· ≠ '*')
  if before.getLast? = some '/' then
    (selection? (text.dropWhile (· ≠ '*'))).map fun (deep, suffix) =>
      { directory := ⟨String.ofList before.dropLast⟩, deep, suffix := String.ofList suffix }
  else none

end Glob

end FusionTree
