import FusionTree.Source.Span

/-!
# Excerpts

The lines of a source around a span, for showing where a problem is: two lines before the span and
two after it, as far as there are any. The span is kept as a range of characters of the excerpt,
and covers at least one of them.
-/

namespace FusionTree

/-- The lines of a text, without their newlines. The text is the lines with a newline between each
two. -/
def Text.lines : List Char → List (List Char)
  | [] => [[]]
  | c :: rest =>
    if c = '\n' then [] :: Text.lines rest
    else match Text.lines rest with
      | [] => [[c]]
      | first :: more => (c :: first) :: more

/-- Some lines of a source and a range of their characters. -/
structure Excerpt where
  text : List Char
  firstLine : Nat
  start : Nat
  stop : Nat

namespace Excerpt

/-- How many lines are shown around a span. -/
def around : Nat := 2

/-- An empty range is widened by the character after it, or else by the one before. -/
def widen (length start stop : Nat) : Nat × Nat :=
  if start = stop then
    if stop < length then (start, stop + 1) else (start - 1, stop)
  else (start, stop)

/-- A range of bytes of a text, from the start of a line to the end of one. -/
structure Window where
  start : Nat
  stop : Nat

namespace Window

/-- Goes through what is left of a text from byte `offset` in line `line` on: the window is to start
with line `first` and to stop with line `last`. An end that is not come across stays as it is. -/
def narrow (first last : Nat) (window : Window) (offset line : Nat) : List Char → Window
  | [] => window
  | c :: rest =>
    if c = '\n' then
      let window := if line + 1 = first then { window with start := offset + 1 } else window
      if last < line + 1 then { window with stop := offset }
      else narrow first last window (offset + 1) (line + 1) rest
    else narrow first last window (offset + c.utf8Size) line rest

def clamp (window : Window) (offset : Nat) : Nat :=
  min (max offset window.start) window.stop

end Window

/-- The lines around the range of bytes from `start` to `stop`, whose ends are at the positions
`startsAt` and `stopsAt`; nothing if a slice that is to be taken is out of range or cuts a
character. -/
def cut? (source : Source) (start stop : Nat) (startsAt stopsAt : LineCol) : Option Excerpt := do
  let firstLine := max 1 (startsAt.line - around)
  let lastLine := stopsAt.line + around
  let window := Window.narrow firstLine lastLine ⟨0, source.size⟩ 0 1 source.text
  let text ← source.slice? window.start window.stop
  let toStart ← source.slice? window.start (window.clamp start)
  let toStop ← source.slice? window.start (window.clamp stop)
  let (start, stop) := widen text.length toStart.length toStop.length
  return { text, firstLine, start, stop }

def ofSpan? (s : Span) : Option Excerpt :=
  cut? s.source s.start s.stop s.startLineCol s.endLineCol

end Excerpt

end FusionTree
