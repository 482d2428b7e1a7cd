import FusionTree.Text.Blank
import FusionTree.Token.Kind

/-!
# Token rules

The rule of a token kind says which text at the head of the input is a token of that kind. Every
rule gives the lexeme itself, the text that the token covers, so that a match is always a piece of
the input. No rule looks at what stands before its input.
-/

namespace FusionTree

namespace Rule

/-- ASCII digits. -/
def isDigit (c : Char) : Bool := '0' ≤ c && c ≤ '9'

/-- ASCII letters of both cases and digits. -/
def isAlphanumeric (c : Char) : Bool :=
  isDigit c || ('a' ≤ c && c ≤ 'z') || ('A' ≤ c && c ≤ 'Z')

/-- The characters of a bare key. -/
def isPathPart (c : Char) : Bool :=
  isAlphanumeric c || c == '_' || c == ':' || c == '-'

/-- The characters on either side of the colon in an object name, and those of a DSL identifier. -/
def isNamePart (c : Char) : Bool :=
  isAlphanumeric c || c == '.'

/-- The characters of a file pattern that stands without quotes. -/
def isFilePattern (c : Char) : Bool :=
  isAlphanumeric c || c == '.' || c == '*' || c == ':' || c == '/' || c == '_' || c == '-'

def literal (word : List Char) (text : List Char) : Option (List Char) :=
  if word.isPrefixOf text then some word else none

/-- The longest run of characters of a class, at least one. -/
def run (p : Char → Bool) (text : List Char) : Option (List Char) :=
  match text.takeWhile p with
  | [] => none
  | lexeme => some lexeme

def after (lexeme text : List Char) : List Char :=
  text.drop lexeme.length

def andThen (first second : List Char → Option (List Char)) (text : List Char) :
    Option (List Char) := do
  let left ← first text
  let right ← second (after left text)
  return left ++ right

def lineComment (opening : List Char) : List Char → Option (List Char) :=
  andThen (literal opening) fun text => some (text.takeWhile (· ≠ '\n'))

/-- Everything up to the first `*/`, which is included. -/
def throughCommentEnd : List Char → Option (List Char)
  | [] => none
  | '*' :: '/' :: _ => some ['*', '/']
  | c :: rest => (throughCommentEnd rest).map (c :: ·)

/-- Digits, as many as there are up to `limit`, at least one. -/
def digits (limit : Nat) (text : List Char) : Option (List Char) :=
  (run isDigit text).map (·.take limit)

def sign (text : List Char) : Option (List Char) :=
  if text.head? = some '-' then some ['-'] else some []

/-- A quoted text after its opening quote: characters other than the quote and the backslash, and
pairs of a backslash and any character but a newline, up to the closing quote. -/
def throughQuote (quote : Char) : List Char → Option (List Char)
  | [] => none
  | ['\\'] => none
  | '\\' :: c :: rest =>
    if c = '\n' then none else (throughQuote quote rest).map ('\\' :: c :: ·)
  | c :: rest => if c = quote then some [c] else (throughQuote quote rest).map (c :: ·)

def quoted (quote : Char) : List Char → Option (List Char) :=
  andThen (literal [quote]) (throughQuote quote)

/-- The code of an expression up to the brace that closes it. Inside, braces come in pairs; what
stands in quotes does not count, and there a backslash takes the next character with it. `depth`
counts the open braces, `quote` is the quote that is open. -/
def throughClosingBrace : (depth : Nat) → (quote : Option Char) → List Char → Option (List Char)
  | _, _, [] => none
  | depth, some q, c :: rest =>
    if c = '\\' then
      match rest with
      | [] => none
      | escaped :: rest =>
        (throughClosingBrace depth (some q) rest).map (c :: escaped :: ·)
    else (throughClosingBrace depth (if c = q then none else some q) rest).map (c :: ·)
  | depth, none, c :: rest =>
    if c = '\x7b' then (throughClosingBrace (depth + 1) none rest).map (c :: ·)
    else if c = '\x7d' then
      match depth with
      | 0 => some [c]
      | depth + 1 => (throughClosingBrace depth none rest).map (c :: ·)
    else if c = '"' ∨ c = '\'' then (throughClosingBrace depth (some c) rest).map (c :: ·)
    else (throughClosingBrace depth none rest).map (c :: ·)

/-- An embedded expression, from `$` and its brace to the closing one. -/
def eel : List Char → Option (List Char) :=
  andThen (literal ['$', '\x7b']) (throughClosingBrace 0 none)

/-- An identifier that code in backticks follows. -/
def dslStart (text : List Char) : Option (List Char) := do
  let lexeme ← run isNamePart text
  if (after lexeme text).head? = some '\x60' then some lexeme else none

def dslCode : List Char → Option (List Char) :=
  andThen (literal ['\x60']) <| andThen (fun text => some (text.takeWhile (· ≠ '\x60')))
    (literal ['\x60'])

def objectName : List Char → Option (List Char) :=
  andThen (run isNamePart) <| andThen (literal [':']) (run isNamePart)

/-- The keyword of an include statement with its colon, blanks between them allowed. -/
def inclusion : List Char → Option (List Char) :=
  andThen (literal "include".toList) <|
    andThen (fun text => some (text.takeWhile Text.isBlank)) (literal [':'])

def shortDigits (limit : Nat) (text : List Char) : Option (List Char) :=
  (run isDigit text).filter (·.length ≤ limit)

/-- A decimal fraction. More than 14 digits before the point make it none; after the point the
first 14 count. -/
def float : List Char → Option (List Char) :=
  andThen sign <| andThen (shortDigits 14) <| andThen (literal ['.']) (digits 14)

/-- A whole number of at most 19 digits; what follows them is left. -/
def integer : List Char → Option (List Char) :=
  andThen sign (digits 19)

def either (lower upper : String) (text : List Char) : Option (List Char) :=
  literal lower.toList text <|> literal upper.toList text

end Rule

/-- The text at the head of the input that is a token of the kind, if there is one. The end of the
input is no text. -/
def TokenKind.lexeme? : TokenKind → List Char → Option (List Char)
  | endOfInput => fun _ => none
  | slashComment => Rule.lineComment ['/', '/']
  | hashComment => Rule.lineComment ['#']
  | blockComment => Rule.andThen (Rule.literal ['/', '*']) Rule.throughCommentEnd
  | newline => Rule.run (· == '\n')
  | space => Rule.run fun c => c == ' ' || c == '\t'
  | trueLiteral => Rule.either "true" "TRUE"
  | falseLiteral => Rule.either "false" "FALSE"
  | nullLiteral => Rule.either "null" "NULL"
  | integer => Rule.integer
  | float => Rule.float
  | doubleQuoted => Rule.quoted '"'
  | singleQuoted => Rule.quoted '\''
  | dslStart => Rule.dslStart
  | dslCode => Rule.dslCode
  | eel => Rule.eel
  | objectName => Rule.objectName
  | inclusion => Rule.inclusion
  | prototypeStart => Rule.literal "prototype(".toList
  | pathPart => Rule.run Rule.isPathPart
  | metaStart => Rule.literal ['@']
  | filePattern => Rule.run Rule.isFilePattern
  | assign => Rule.literal ['=']
  | copy => Rule.literal ['<']
  | unset => Rule.literal ['>']
  | dot => Rule.literal ['.']
  | closeParen => Rule.literal [')']
  | openBrace => Rule.literal ['\x7b']
  | closeBrace => Rule.literal ['\x7d']

end FusionTree
