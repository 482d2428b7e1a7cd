import FusionTree.Text.Alphanumeric
import FusionTree.Text.Blank
import FusionTree.Text.Escape

/-!
# Patterns in log filters

A directive may ask for the value of a field, by a regular expression over Unicode text. The text of
a filter is read only if its patterns are sound. This module tells which texts are patterns, and
reads them item by item: letters, escapes, sets in brackets, groups and repetitions.

Some things are no pattern here although they are elsewhere. Repetition counts and names in braces
cannot occur, since a brace ends the field. Ends of Unicode words cannot be looked for. And what is
nested too deep is refused.
-/

namespace FusionTree.Log.Pattern

/-- What flags change about the reading of a pattern. -/
structure Flags where
  /-- Whether sets hold all characters, or only those of ASCII. -/
  unicode : Bool := true
  /-- Whether blanks and comments between items are skipped. -/
  spaced : Bool := false
deriving Repr, DecidableEq

/-- What follows the blanks and comments at the head of a text. -/
def dropNotes : (inComment : Bool) → List Char → List Char
  | _, [] => []
  | true, c :: rest => dropNotes (c ≠ '\n') rest
  | false, c :: rest =>
    if c = '#' then dropNotes true rest
    else if Text.isBlank c then dropNotes false rest
    else c :: rest

namespace Flags

def skip (flags : Flags) (text : List Char) : List Char :=
  if flags.spaced then dropNotes false text else text

/-- The character that decides whether a hyphen before it makes a range. Blanks are passed over, and
so is one comment sign, but not the comment behind it. -/
def afterHyphen (flags : Flags) (text : List Char) : Option Char :=
  if flags.spaced then
    match text.dropWhile Text.isBlank with
    | '#' :: rest => (rest.dropWhile Text.isBlank).head?
    | rest => rest.head?
  else text.head?

def switch (flags : Flags) (letters : List Char) : Flags :=
  let on := letters.takeWhile (· ≠ '-')
  let off := letters.dropWhile (· ≠ '-')
  { unicode := on.contains 'u' || (flags.unicode && !off.contains 'u')
    spaced := on.contains 'x' || (flags.spaced && !off.contains 'x') }

/-- Whether letters may switch flags: each is known and stands there once, and a minus sign is not
the last. -/
def areLetters (letters : List Char) : Bool :=
  letters.all "imsuUxR-".toList.contains && letters.Nodup && letters.getLast? ≠ some '-'

end Flags

/-- What one item without parts stands for. -/
inductive Item
  | char (c : Char)
  | set
  | assertion
deriving Repr, DecidableEq

/-- The letters that name a class of characters after `\p`, in either case. -/
def categories : List Char := "clmnpsz".toList

def hexDigits? (flags : Flags) : (count : Nat) → List Char → Option (List Nat × List Char)
  | 0, text => some ([], text)
  | _ + 1, [] => none
  | count + 1, c :: rest => do
    let digit ← Text.hexDigit? c
    let (digits, rest) ← hexDigits? flags count (flags.skip rest)
    return (digit.toNat :: digits, rest)

/-- The character with a code point of some hexadecimal digits. Two of them are a byte if sets are
of ASCII, and a byte beyond ASCII is no text. -/
def codePoint? (flags : Flags) (count : Nat) (text : List Char) : Option (Item × List Char) := do
  let (digits, rest) ← hexDigits? flags count (flags.skip text)
  let n := digits.foldl (fun value d => 16 * value + d) 0
  if !n.isValidChar || (count = 2 && !flags.unicode && 0x80 ≤ n) then none
  else some (.char (Char.ofNat n), rest)

def escape? (flags : Flags) : List Char → Option (Item × List Char)
  | [] => none
  | 'x' :: rest => codePoint? flags 2 rest
  | 'u' :: rest => codePoint? flags 4 rest
  | 'U' :: rest => codePoint? flags 8 rest
  | c :: rest =>
    if c = 'p' || c = 'P' then
      match flags.skip rest with
      | name :: rest =>
        if flags.unicode && categories.contains name.toLower then some (.set, flags.skip rest)
        else none
      | [] => none
    else if "dsw".toList.contains c || (flags.unicode && "DSW".toList.contains c) then
      some (.set, rest)
    else if "Az".toList.contains c || (!flags.unicode && "bB<>".toList.contains c) then
      some (.assertion, rest)
    else if "afnrtv".toList.contains c then
      (Text.namedEscape? c).map fun byte => (.char (Char.ofNat byte.toNat), rest)
    else if c.isAlphanum || c = '<' || c = '>' || 0x80 ≤ c.toNat then none
    else some (.char c, rest)

/-! ## Nesting -/

/-- What has been read of a group or of a set in brackets. The height of an item is how deep others
are nested in it: each repetition, group, set in brackets, row of two or more, choice and operation
on sets counts. -/
structure Level where
  count : Nat := 0
  /-- The greatest height of those before the last. -/
  highest : Nat := 0
  /-- The height of the last one. -/
  last : Nat := 0
  /-- The height of what stands left of the row, before a bar or an operator. -/
  left : Option Nat := none

namespace Level

def add (l : Level) (height : Nat) : Level :=
  { l with count := l.count + 1, highest := max l.highest l.last, last := height }

def repeatLast (l : Level) : Level :=
  { l with last := l.last + 1 }

/-- The height of the row. A single item is no row. -/
def row (l : Level) : Nat :=
  max l.highest l.last + if 1 < l.count then 1 else 0

def height (l : Level) : Nat :=
  match l.left with
  | none => l.row
  | some left => max left l.row + 1

/-- Starts the next row of a choice, all rows of which stand side by side. -/
def choice (l : Level) : Level :=
  { left := some (max (l.left.getD 0) l.row) }

/-- Starts the right side of an operation on sets, the left side of which is all before it. -/
def operation (l : Level) : Level :=
  { left := some l.height }

end Level

def maxHeight : Nat := 250

/-! ## Sets in brackets -/

def asciiClasses : List String :=
  ["alnum", "alpha", "ascii", "blank", "cntrl", "digit", "graph", "lower", "print", "punct",
   "space", "upper", "word", "xdigit"]

/-- What follows a class of ASCII, after its opening bracket, and whether it is a complement. -/
def asciiClass? (text : List Char) : Option (Bool × List Char) :=
  let forms := [(false, ":"), (true, ":^")].flatMap fun (complement, sign) =>
    asciiClasses.map fun name => (complement, (sign ++ name ++ ":]").toList)
  (forms.find? fun (_, form) => form.isPrefixOf text).map fun (complement, form) =>
    (complement, text.drop form.length)

def hyphens (flags : Flags) : (steps : Nat) → Level → List Char → Level × List Char
  | steps + 1, level, '-' :: rest => hyphens flags steps (level.add 0) (flags.skip rest)
  | _, level, text => (level, text)

/-- Reads, after an opening bracket, what has a meaning of its own only there: the sign of a
complement, and then hyphens or a closing bracket. A complement goes beyond ASCII. -/
def opened? (flags : Flags) (text : List Char) : Option (Level × List Char) :=
  let inner := flags.skip text
  let complement := inner.head? = some '^'
  if complement && !flags.unicode then none
  else
    let inner := if complement then flags.skip (inner.drop 1) else inner
    match inner with
    | ']' :: rest => some (({} : Level).add 0, rest)
    | _ => some (hyphens flags inner.length {} inner)

def member? (flags : Flags) : List Char → Option (Item × List Char)
  | [] => none
  | '\\' :: rest => (escape? flags rest).filter fun (item, _) =>
      match item with
      | .char c => flags.unicode || c.toNat < 0x80
      | .set => true
      | .assertion => false
  | c :: rest => if flags.unicode || c.toNat < 0x80 then some (.char c, rest) else none

/-- What follows a member of a set or a range. A hyphen at the end of a set, or before another one,
makes no range. -/
def afterRange? (flags : Flags) (text : List Char) : Option (List Char) := do
  let (first, rest) ← member? flags text
  match flags.skip rest with
  | '-' :: more =>
    if [some ']', some '-'].contains (flags.afterHyphen more) then return '-' :: more
    match first, ← member? flags (flags.skip more) with
    | .char low, (.char high, rest) => if low ≤ high then return rest else none
    | _, _ => none
  | rest => return rest

/-- Reads a set from within, with the sets around it that are open too, the innermost first. The
result is the height of the outermost set and what follows it. -/
def set? (flags : Flags) : (steps : Nat) → Level → (outer : List Level) → List Char →
    Option (Nat × List Char)
  | 0, _, _, _ => none
  | steps + 1, level, outer, text =>
    match flags.skip text with
    | [] => none
    | ']' :: rest =>
      match outer with
      | [] => some (level.height + 1, rest)
      | next :: outer => set? flags steps (next.add (level.height + 1)) outer rest
    | '[' :: rest =>
      match asciiClass? rest with
      | some (complement, rest) =>
        if complement && !flags.unicode then none
        else set? flags steps (level.add 0) outer rest
      | none => do
        let (inner, rest) ← opened? flags rest
        set? flags steps inner (level :: outer) rest
    | '&' :: '&' :: rest | '-' :: '-' :: rest | '~' :: '~' :: rest =>
      set? flags steps level.operation outer rest
    | text => (afterRange? flags text).bind (set? flags steps (level.add 0) outer)

/-! ## Groups and repetitions -/

structure State where
  flags : Flags := {}
  /-- The innermost group. -/
  level : Level := {}
  /-- The groups around it, the innermost first, with the flags that come back there. -/
  outer : List (Flags × Level) := []
  repeatable : Bool := false
  names : List (List Char) := []

namespace State

def item (s : State) (height : Nat) : State :=
  { s with level := s.level.add height, repeatable := true }

def enter (s : State) (flags : Flags) : State :=
  { s with flags, level := {}, outer := (s.flags, s.level) :: s.outer, repeatable := false }

def leave? (s : State) : Option State :=
  match s.outer with
  | (flags, level) :: outer => some ({ s with flags, level, outer }.item (s.level.height + 1))
  | [] => none

def isName : List Char → Bool
  | [] => false
  | c :: rest =>
    (c = '_' || Text.isAlphabetic c) &&
      rest.all fun c => "_.[]".toList.contains c || Text.isAlphanumeric c

/-- Goes into a group with a name, which ends with an angle bracket and is a new one. -/
def enterNamed? (s : State) (text : List Char) : Option (State × List Char) :=
  let name := text.takeWhile (· ≠ '>')
  match text.dropWhile (· ≠ '>') with
  | _ :: rest =>
    if isName name && !s.names.contains name then
      some ({ s.enter s.flags with names := name :: s.names }, rest)
    else none
  | [] => none

/-- Switches flags, for a group of their own after a colon, or else up to the end of this one. -/
def switch? (s : State) (text : List Char) : Option (State × List Char) :=
  let letters := text.takeWhile fun c => c ≠ ':' && c ≠ ')'
  if Flags.areLetters letters then
    let flags := s.flags.switch letters
    match text.drop letters.length with
    | ':' :: rest => some (s.enter flags, rest)
    | ')' :: rest =>
      if letters = [] then none
      else some ({ s with flags, level := s.level.add 0, repeatable := false }, rest)
    | _ => none
  else none

def open? (s : State) (text : List Char) : Option (State × List Char) :=
  match s.flags.skip text with
  | '?' :: 'P' :: '<' :: rest | '?' :: '<' :: rest => s.enterNamed? rest
  | '?' :: rest => s.switch? rest
  | rest => some (s.enter s.flags, rest)

/-- Reads one part of a pattern; `none` if no pattern goes on like this. A second question mark
after a repetition belongs to it. -/
def step? (s : State) : List Char → Option (State × List Char)
  | [] => none
  | '(' :: rest => s.open? rest
  | ')' :: rest => s.leave?.map (·, rest)
  | '|' :: rest => some ({ s with level := s.level.choice, repeatable := false }, rest)
  | '[' :: rest => do
    let (level, inner) ← opened? s.flags rest
    let (height, rest) ← set? s.flags (inner.length + 1) level [] inner
    return (s.item height, rest)
  | '.' :: rest => if s.flags.unicode then some (s.item 0, rest) else none
  | '\\' :: rest => (escape? s.flags rest).map fun (_, rest) => (s.item 0, rest)
  | '\x7b' :: _ => none
  | c :: rest =>
    if c = '*' || c = '+' || c = '?' then
      if s.repeatable then
        some ({ s with level := s.level.repeatLast },
          if rest.head? = some '?' then rest.drop 1 else rest)
      else none
    else some (s.item 0, rest)

def completes (s : State) : (steps : Nat) → List Char → Bool
  | 0, _ => false
  | steps + 1, text =>
    match s.flags.skip text with
    | [] => s.outer.isEmpty && s.level.height ≤ maxHeight
    | text =>
      match s.step? text with
      | some (s, rest) => s.completes steps rest
      | none => false

end State

def isPattern (text : List Char) : Bool :=
  ({} : State).completes (text.length + 1) text

end FusionTree.Log.Pattern
