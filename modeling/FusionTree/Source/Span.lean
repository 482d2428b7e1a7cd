import FusionTree.Source.Basic

/-!
# Spans

A span is a range of bytes in a source. `LineCol` is the position as people count it: lines and
columns from one, columns in characters.
-/

namespace FusionTree

/-- A line and a column, both counted from one. -/
structure LineCol where
  line : Nat
  col : Nat
deriving Repr, DecidableEq

namespace LineCol

def first : LineCol := ⟨1, 1⟩

def advance (p : LineCol) (c : Char) : LineCol :=
  if c = '\n' then ⟨p.line + 1, 1⟩ else ⟨p.line, p.col + 1⟩

def ofOffset (text : List Char) (offset : Nat) : LineCol :=
  (Text.startingBefore offset text).foldl advance first

instance : ToString LineCol where
  toString p := s!"{p.line}:{p.col}"

end LineCol

/-- A range of bytes in a source. -/
structure Span where
  source : Source
  start : Nat
  stop : Nat
deriving DecidableEq

namespace Span

/-- The range from `start` to `stop`, if it lies in the source and cuts no character. -/
def new? (source : Source) (start stop : Nat) : Option Span :=
  (source.slice? start stop).map fun _ => { source, start, stop }

/-- The empty span for what has no place in any source. -/
def dummy : Span :=
  { source := Source.nowhere, start := 0, stop := 0 }

/-- The empty span at `offset`, moved back into the source and to the start of a character. -/
def emptyAt (source : Source) (offset : Nat) : Span :=
  let offset := Text.boundaryBelow offset source.text
  { source, start := offset, stop := offset }

/-- The smallest range that holds two ranges of one source. -/
def join (s t : Span) : Span :=
  { s with start := min s.start t.start, stop := max s.stop t.stop }

def text (s : Span) : List Char :=
  (s.source.slice? s.start s.stop).getD []

def isDummy (s : Span) : Bool :=
  s.source.text.isEmpty && s.source.path.isNone

def path (s : Span) : Option Path :=
  s.source.path

def startLineCol (s : Span) : LineCol :=
  LineCol.ofOffset s.source.text s.start

def endLineCol (s : Span) : LineCol :=
  LineCol.ofOffset s.source.text s.stop

end Span

end FusionTree
