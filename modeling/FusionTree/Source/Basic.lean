import FusionTree.Source.Path
import FusionTree.Text.Utf8

/-!
# Source texts

A source is a text together with the file it was read from, if there is one. The text of a source
has `\n` as its only line ending; every position is an offset into that text.
-/

namespace FusionTree

/-- Turns the line endings `\r\n` and `\r` into `\n`. -/
def normalizeNewlines : List Char → List Char
  | [] => []
  | '\r' :: '\n' :: rest => '\n' :: normalizeNewlines rest
  | c :: rest => (if c = '\r' then '\n' else c) :: normalizeNewlines rest

/-- A text, and the file it came from. -/
structure Source where
  text : List Char
  path : Option Path
deriving DecidableEq

namespace Source

def ofString (raw : String) (path : Option Path) : Source :=
  { text := normalizeNewlines raw.toList, path }

/-- The source of what has no place in any text. -/
def nowhere : Source :=
  { text := [], path := none }

def size (s : Source) : Nat :=
  Text.byteLength s.text

/-- The text from byte offset `start` up to `stop`, if both lie between two characters and come in
this order. -/
def slice? (s : Source) (start stop : Nat) : Option (List Char) :=
  if start ≤ stop then
    (Text.dropBytes start s.text).bind (Text.takeBytes (stop - start))
  else none

end Source

end FusionTree
