import FusionTree.Number.Shortest
import FusionTree.Tree.Node

/-!
# The tree as JSON

Maps become objects with their keys in order. A fraction has the fewest digits that read back, an
even last digit where two would do, and a power of ten below `0.00001` and from `1e+16` on; what is
no number is null.
-/

namespace FusionTree

namespace Json

def controlEscape (c : Char) : List Char :=
  let digits := Nat.toDigits 16 c.toNat
  '\\' :: 'u' :: (List.replicate (4 - digits.length) '0' ++ digits)

def escapeChar (c : Char) : List Char :=
  match c with
  | '"' => ['\\', '"']
  | '\\' => ['\\', '\\']
  | '\x08' => ['\\', 'b']
  | '\x0c' => ['\\', 'f']
  | '\n' => ['\\', 'n']
  | '\r' => ['\\', 'r']
  | '\t' => ['\\', 't']
  | c => if c.toNat < 0x20 then controlEscape c else [c]

def string (s : String) : String :=
  String.ofList ('"' :: (s.toList.flatMap escapeChar ++ ['"']))

def layout : Layout := { leastPositional := -5, tie := .toEven, plus := true }

/-- A JSON number, or null for what is none. -/
def float (x : Binary64) : String :=
  if x.isFinite then x.toText layout else "null"

/-- How the parts of lists and objects are set apart. -/
structure Style where
  colon : String
  /-- What stands before an item at a depth. -/
  lineStart : Nat → String

def compact : Style := { colon := ":", lineStart := fun _ => "" }

/-- Every item on a line of its own, two spaces to the right of what holds it. -/
def pretty : Style :=
  { colon := ": "
    lineStart := fun depth => "\n" ++ String.ofList (List.replicate (2 * depth) ' ') }

/-- Items between two brackets; nothing stands between them if there are none. -/
def enclose (style : Style) (depth : Nat) (left right : String) (items : List String) : String :=
  if items.isEmpty then left ++ right
  else
    let start := style.lineStart (depth + 1)
    left ++ ",".intercalate (items.map (start ++ ·)) ++ style.lineStart depth ++ right

end Json

mutual

def Node.toJson (style : Json.Style) (depth : Nat) : Node → String
  | .null => "null"
  | .bool b => if b then "true" else "false"
  | .int n => toString n.toInt
  | .float x => Json.float x
  | .string s => Json.string s
  | .list items => Json.enclose style depth "[" "]" (Node.itemsToJson style (depth + 1) items)
  | .map es => Json.enclose style depth "\x7b" "\x7d" (Entries.toJson style (depth + 1) es)

def Node.itemsToJson (style : Json.Style) (depth : Nat) : List Node → List String
  | [] => []
  | node :: rest => node.toJson style depth :: Node.itemsToJson style depth rest

def Entries.toJson (style : Json.Style) (depth : Nat) : List (String × Node) → List String
  | [] => []
  | entry :: rest => Entries.entryToJson style depth entry :: Entries.toJson style depth rest

def Entries.entryToJson (style : Json.Style) (depth : Nat) : String × Node → String
  | (key, node) => Json.string key ++ style.colon ++ node.toJson style depth

end

end FusionTree
