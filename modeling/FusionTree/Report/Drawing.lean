import FusionTree.Problem.Basic
import FusionTree.Report.Excerpt
import FusionTree.Text.Styled
import FusionTree.Text.Width

/-!
# Drawings of problems

A problem is shown with the lines around it: a title, the place, and the numbered lines with the
range marked below them, or along them if it goes over several. Something without a place has a
title only.
-/

namespace FusionTree

inductive Severity
  | error
  | warning
deriving Repr, DecidableEq

namespace Severity

def label : Severity → String
  | error => "error"
  | warning => "warning"

/-- The number of the colour in a terminal. -/
def colour : Severity → String
  | error => "9"
  | warning => "11"

def mark : Severity → Char
  | error => '^'
  | warning => '-'

end Severity

namespace Drawing

def bright (severity : Severity) (text : String) : String :=
  Text.styled ("1;38;5;" ++ severity.colour) text

def frame (text : String) : String :=
  Text.styled "1;38;5;12" text

def times (count : Nat) (c : Char) : String :=
  String.ofList (List.replicate count c)

def unnumbered (width : Nat) : String :=
  frame (times width ' ' ++ " |")

def numbered (width number : Nat) : String :=
  let digits := toString number
  frame (times (width - digits.length) ' ' ++ digits ++ " |")

/-- A line of an excerpt: its number, the index of its first character in the excerpt, and its
text. -/
structure Line where
  number : Nat
  start : Nat
  text : List Char

namespace Line

def stop (l : Line) : Nat := l.start + l.text.length

/-- The terminal column of an index in the line; the newline has one cell. -/
def column (l : Line) (index : Nat) : Nat :=
  (l.text.take (index - l.start)).foldl (· + Text.width ·) 0 + (index - l.stop)

end Line

/-- Lines from a number and an index on. A line that is empty and the last is left out. -/
def linesFrom (number start : Nat) : List (List Char) → List Line
  | [] => []
  | [[]] => []
  | text :: rest =>
    ⟨number, start, text⟩ :: linesFrom (number + 1) (start + text.length + 1) rest

def linesOf (e : Excerpt) : List Line :=
  linesFrom e.firstLine 0 (Text.lines e.text)

/-- How a drawing goes: the severity, the remark, and the width of line numbers. -/
structure Plan where
  severity : Severity
  message : String
  width : Nat

def plain (p : Plan) (l : Line) : List String :=
  [numbered p.width l.number ++ " " ++ String.ofList l.text]

def marked (p : Plan) (e : Excerpt) (l : Line) : List String :=
  let start := l.column e.start
  let marks := times (start + 1) ' ' ++ times (l.column e.stop - start) p.severity.mark
  plain p l ++
    [unnumbered p.width ++ bright p.severity marks ++ " " ++ bright p.severity p.message]

def withCell (p : Plan) (cell : String) (l : Line) : String :=
  numbered p.width l.number ++ " " ++ cell ++ " " ++ String.ofList l.text

def opening (p : Plan) (e : Excerpt) (l : Line) : List String :=
  if e.start = l.start then [withCell p (bright p.severity "/") l]
  else
    [withCell p " " l, unnumbered p.width ++ "  " ++
      bright p.severity (times (l.column e.start + 1) '_' ++ String.singleton p.severity.mark)]

def closing (p : Plan) (e : Excerpt) (l : Line) : List String :=
  let bar := bright p.severity "|"
  let marks := times (l.column e.stop) '_' ++ String.singleton p.severity.mark
  [withCell p bar l, unnumbered p.width ++ " " ++ bar ++ bright p.severity marks ++ " " ++
    bright p.severity p.message]

def along (p : Plan) (e : Excerpt) (l : Line) : List String :=
  if l.stop < e.start ∨ e.stop ≤ l.start then [withCell p " " l]
  else if l.start ≤ e.start then opening p e l
  else if e.stop ≤ l.stop + 1 then closing p e l
  else [withCell p (bright p.severity "|") l]

def body (p : Plan) (e : Excerpt) (lines : List Line) : List String :=
  let holdsAll (l : Line) : Bool := l.start ≤ e.start && e.stop ≤ l.stop + 1
  if lines.any holdsAll then
    lines.flatMap fun l => if holdsAll l then marked p e l else plain p l
  else lines.flatMap (along p e)

def place (e : Excerpt) (lines : List Line) : LineCol :=
  match lines.find? fun l => l.start ≤ e.start && e.start ≤ l.stop with
  | some l => ⟨l.number, e.start - l.start + 1⟩
  | none => LineCol.first

/-- Draws a remark on a span. One without an excerpt has a title only. -/
def draw (severity : Severity) (message : String) (span : Span) : String :=
  let title := bright severity severity.label
  match if span.isDummy then none else Excerpt.ofSpan? span with
  | none => title ++ ": " ++ Text.styled "1" message
  | some e =>
    let lines := linesOf e
    let width := match lines.getLast? with
      | some l => (toString l.number).length
      | none => 0
    let p : Plan := { severity, message, width }
    let origin := match span.path with
      | some path =>
        [times width ' ' ++ frame "-->" ++ " " ++ path.text ++ ":" ++ toString (place e lines)]
      | none => []
    let empty := unnumbered width
    let foot := if lines.isEmpty then [] else [empty]
    "\n".intercalate ([title] ++ origin ++ [empty] ++ body p e lines ++ foot)

def problem (p : Problem) : String :=
  let number := match p.cause.code? with
    | some code => " (" ++ toString code ++ ")"
    | none => ""
  draw .error (p.cause.message ++ number) p.span

def warning (w : Warning) : String :=
  draw .warning w.message w.span

end Drawing

end FusionTree
