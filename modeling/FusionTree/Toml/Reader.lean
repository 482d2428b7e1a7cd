import FusionTree.Toml.Basic
import FusionTree.Toml.Number

/-!
# Reading TOML

A reader takes a value from the head of a text and leaves the rest, or finds that there is no such
value there. Readers that may go around a loop or into nested values carry a bound on their steps;
`Toml.ofString` starts them with the length of the text, which no reading exceeds.
-/

namespace FusionTree.Toml

abbrev Scan := StateT (List Char) Option

namespace Scan

def none {α : Type} : Scan α := fun _ => Option.none

def peek : Scan (Option Char) := fun text => some (text.head?, text)

def exactly (word : List Char) : Scan Unit := fun text =>
  if word.isPrefixOf text then some ((), text.drop word.length) else Option.none

/-- Takes a text if it is next, and tells whether it was. -/
def optional (word : List Char) : Scan Bool := fun text =>
  if word.isPrefixOf text then some (true, text.drop word.length) else some (false, text)

def run (p : Char → Bool) : Scan (List Char) := fun text =>
  some (text.takeWhile p, text.dropWhile p)

end Scan

def isSpace (c : Char) : Bool := c = ' ' || c = '\t'

/-- Whether a character may stand in a comment, and, except for its own quote, in a literal text. -/
def isVisible (c : Char) : Bool :=
  c = '\t' || (0x20 ≤ c.toNat && c.toNat ≠ 0x7F)

def spaces : Scan Unit := discard (Scan.run isSpace)

def newline : Scan Bool := do
  if ← Scan.optional ['\n'] then return true
  Scan.optional ['\r', '\n']

def comment : Scan Unit := do
  if ← Scan.optional ['#'] then discard (Scan.run isVisible)

/-- Takes the end of a line: blanks, a comment, and a line ending or the end of the text. -/
def lineEnd : Scan Unit := do
  spaces
  comment
  if !(← newline) then
    if (← Scan.peek).isSome then Scan.none

def gap : (steps : Nat) → Scan Unit
  | 0 => Scan.none
  | steps + 1 => do
    spaces
    comment
    if ← newline then gap steps

def codePoint? (digits : List Char) : Option Char :=
  let n := valueOf 16 digits
  if digits.all (digitValue · < 16) ∧ n.isValidChar then some (Char.ofNat n) else none

def escape? : List Char → Option (Char × List Char)
  | 'b' :: rest => some ('\x08', rest)
  | 't' :: rest => some ('\t', rest)
  | 'n' :: rest => some ('\n', rest)
  | 'f' :: rest => some ('\x0c', rest)
  | 'r' :: rest => some ('\r', rest)
  | '"' :: rest => some ('"', rest)
  | '\\' :: rest => some ('\\', rest)
  | 'u' :: rest =>
    if rest.length < 4 then none else (codePoint? (rest.take 4)).map (·, rest.drop 4)
  | 'U' :: rest =>
    if rest.length < 8 then none else (codePoint? (rest.take 8)).map (·, rest.drop 8)
  | _ => none

def basicText : (steps : Nat) → List Char → Option (List Char × List Char)
  | 0, _ => none
  | steps + 1, text =>
    match text with
    | '"' :: rest => some ([], rest)
    | '\\' :: rest => do
      let (c, rest) ← escape? rest
      let (more, rest) ← basicText steps rest
      return (c :: more, rest)
    | c :: rest =>
      if isVisible c then (basicText steps rest).map fun (more, rest) => (c :: more, rest)
      else none
    | [] => none

def literalText (text : List Char) : Option (List Char × List Char) :=
  match text.dropWhile fun c => isVisible c && c ≠ '\'' with
  | '\'' :: rest => some (text.takeWhile fun c => isVisible c && c ≠ '\'', rest)
  | _ => none

/-- The quotes at the head of a text that closes with three of them: those that belong to the text,
and what follows the closing ones. Up to two quotes may stand before the closing three. -/
def closing? (quote : Char) (text : List Char) : Option (List Char × List Char) :=
  let count := min 5 (text.takeWhile (· = quote)).length
  if 3 ≤ count then some (List.replicate (count - 3) quote, text.drop count) else none

def dropBlankLines : List Char → List Char
  | '\n' :: rest | '\r' :: '\n' :: rest => dropBlankLines rest
  | c :: rest => if isSpace c then dropBlankLines rest else c :: rest
  | [] => []

/-- A text of several lines after its opening quotes. `escapes` says whether backslashes count. -/
def multiText (quote : Char) (escapes : Bool) : (steps : Nat) → List Char →
    Option (List Char × List Char)
  | 0, _ => none
  | steps + 1, text =>
    match closing? quote text with
    | some found => some found
    | none =>
      let goOn (c : Char) (rest : List Char) :=
        (multiText quote escapes steps rest).map fun (more, rest) => (c :: more, rest)
      match text with
      | [] => none
      | '\n' :: rest | '\r' :: '\n' :: rest => goOn '\n' rest
      | c :: rest =>
        if escapes ∧ c = '\\' then
          match rest.dropWhile isSpace with
          | '\n' :: _ | '\r' :: '\n' :: _ =>
            multiText quote escapes steps (dropBlankLines rest)
          | _ => do
            let (c, rest) ← escape? rest
            goOn c rest
        else if isVisible c then goOn c rest
        else none

def dropNewline : List Char → List Char
  | '\n' :: rest | '\r' :: '\n' :: rest => rest
  | text => text

def quotedText : Scan String := fun text =>
  let steps := text.length + 1
  let found := match text with
    | '"' :: '"' :: '"' :: rest => multiText '"' true steps (dropNewline rest)
    | '\'' :: '\'' :: '\'' :: rest => multiText '\'' false steps (dropNewline rest)
    | '"' :: rest => basicText steps rest
    | '\'' :: rest => literalText rest
    | _ => none
  found.map fun (cs, rest) => (String.ofList cs, rest)

/-- One key: bare, or in single or double quotes on one line. -/
def simpleKey : Scan String := fun text =>
  let found := match text with
    | '"' :: rest => basicText (rest.length + 1) rest
    | '\'' :: rest => literalText rest
    | _ =>
      let isBare (c : Char) := digitValue c < 10 || ('a' ≤ c && c ≤ 'z') || ('A' ≤ c && c ≤ 'Z') ||
        c = '_' || c = '-'
      let key := text.takeWhile isBare
      if key.isEmpty then none else some (key, text.dropWhile isBare)
  found.map fun (cs, rest) => (String.ofList cs, rest)

def dottedKey : (steps : Nat) → Scan (List String × String)
  | 0 => Scan.none
  | steps + 1 => do
    spaces
    let key ← simpleKey
    spaces
    if ← Scan.optional ['.'] then
      let (way, last) ← dottedKey steps
      return (key :: way, last)
    else return ([], key)

/-- How many keys a dotted key may have, and how deep values may be nested. -/
def maxDepth : Nat := 79

def key : Scan (List String × String) := dottedKey maxDepth

def isWordPart (c : Char) : Bool :=
  digitValue c < 10 || ('a' ≤ c && c ≤ 'z') || ('A' ≤ c && c ≤ 'Z') ||
    c = '+' || c = '-' || c = '_' || c = '.' || c = ':'

/-- A value that is one word: a number, a date, a time or a truth value. A blank may stand between a
date and a time. -/
def wordValue : Scan Toml := do
  let word ← Scan.run isWordPart
  if word = "true".toList then return bool true
  else if word = "false".toList then return bool false
  else if isDate word then
    let startsTime : List Char → Bool := fun text =>
      match text with
      | ' ' :: a :: b :: ':' :: _ => isDigit a && isDigit b
      | _ => false
    if startsTime (← get) then
      Scan.exactly [' ']
      if isOffsetTime (← Scan.run isWordPart) then return datetime else Scan.none
    else return datetime
  else if isDatetime word then return datetime
  else if isInteger word || isFloat word then return number
  else Scan.none

mutual

/-- A value; `depth` more values may be nested in it. -/
def value : (steps depth : Nat) → Scan Toml
  | 0, _ => Scan.none
  | steps + 1, depth => do
    match ← Scan.peek with
    | some '"' | some '\'' => string <$> quotedText
    | some '[' =>
      Scan.exactly ['[']
      match depth with
      | 0 => Scan.none
      | depth + 1 => array <$> arrayItems steps depth
    | some '\x7b' =>
      Scan.exactly ['\x7b']
      match depth with
      | 0 => Scan.none
      | depth + 1 =>
        spaces
        if ← Scan.optional ['\x7d'] then return inlineTable []
        let pairs ← pairs steps depth
        match pairs.foldlM assign (.header, []) with
        | some (_, entries) => return inlineTable entries
        | none => Scan.none
    | _ => wordValue

/-- The items of an array after its bracket. A comma may follow the last one. -/
def arrayItems : (steps depth : Nat) → Scan (List Toml)
  | 0, _ => Scan.none
  | steps + 1, depth => do
    gap steps
    if ← Scan.optional [']'] then return []
    let item ← value steps depth
    gap steps
    if ← Scan.optional [','] then
      let more ← arrayItems steps depth
      return item :: more
    else
      Scan.exactly [']']
      return [item]

/-- The assignments in a table that is written in one piece, after its brace. -/
def pairs : (steps depth : Nat) → Scan (List Assignment)
  | 0, _ => Scan.none
  | steps + 1, depth => do
    let (way, last) ← key
    Scan.exactly ['=']
    spaces
    let v ← value steps depth
    spaces
    if ← Scan.optional [','] then
      let more ← pairs steps depth
      return ⟨way, last, v⟩ :: more
    else
      Scan.exactly ['\x7d']
      return [⟨way, last, v⟩]

end

inductive Line
  | header (way : List String) (key : String) (several : Bool)
  | assignment (a : Assignment)

/-- A header after its first bracket, or an assignment, with the end of its line. -/
def line (steps : Nat) : Scan Line := do
  if ← Scan.optional ['['] then
    let several ← Scan.optional ['[']
    let (way, last) ← key
    Scan.exactly (if several then [']', ']'] else [']'])
    lineEnd
    return .header way last several
  else
    let (way, last) ← key
    Scan.exactly ['=']
    spaces
    let v ← value steps maxDepth
    lineEnd
    return .assignment ⟨way, last, v⟩

def lines : (steps : Nat) → Scan (List Line)
  | 0 => Scan.none
  | steps + 1 => do
    gap steps
    if (← Scan.peek).isNone then return []
    let first ← line steps
    let more ← lines steps
    return first :: more

def sectionsOf : List Line → List Assignment × List Section
  | [] => ([], [])
  | .assignment a :: rest =>
    let (first, sections) := sectionsOf rest
    (a :: first, sections)
  | .header way key several :: rest =>
    let (own, sections) := sectionsOf rest
    ([], ⟨way, key, several, own⟩ :: sections)

/-- The entries of the document that a text is. A byte order mark at its start does not count. -/
def ofString (text : String) : Option (List (String × Toml)) := do
  let chars := match text.toList with
    | '\uFEFF' :: rest => rest
    | cs => cs
  let (found, rest) ← lines (2 * chars.length + 4) chars
  if rest.isEmpty then
    let (first, sections) := sectionsOf found
    document first sections
  else none

end FusionTree.Toml
