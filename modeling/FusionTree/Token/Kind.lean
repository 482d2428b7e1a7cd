/-!
# Token kinds

The lexical classes that a reader can ask for. Several of them overlap: a bare key, an object name
and a file pattern can all match one text, so what a text becomes depends on the kind asked for.
-/

namespace FusionTree

/-- The lexical classes of a source. -/
inductive TokenKind
  | endOfInput
  | slashComment | hashComment | blockComment
  | newline | space
  | trueLiteral | falseLiteral | nullLiteral
  | integer | float
  | doubleQuoted | singleQuoted
  | dslStart | dslCode | eel
  | objectName
  | inclusion | prototypeStart | pathPart | metaStart | filePattern
  | assign | copy | unset
  | dot | closeParen | openBrace | closeBrace
deriving Repr, DecidableEq

namespace TokenKind

def label : TokenKind → String
  | endOfInput => "<EOF>"
  | slashComment => "// comment"
  | hashComment => "# comment"
  | blockComment => "/* comment */"
  | newline => "newline"
  | space => "space"
  | trueLiteral => "true"
  | falseLiteral => "false"
  | nullLiteral => "null"
  | integer => "integer"
  | float => "float"
  | doubleQuoted => "double quoted string"
  | singleQuoted => "single quoted string"
  | dslStart => "dsl identifier"
  | dslCode => "dsl code in backticks"
  | eel => "eel expression"
  | objectName => "fusion object name"
  | inclusion => "include:"
  | prototypeStart => "prototype("
  | pathPart => "object path part"
  | metaStart => "@"
  | filePattern => "file pattern"
  | assign => "="
  | copy => "<"
  | unset => ">"
  | dot => "."
  | closeParen => ")"
  | openBrace => "\x7b"
  | closeBrace => "\x7d"

/-- Whether the kind is white space or a comment, which no statement holds. -/
def isTrivia : TokenKind → Bool
  | slashComment | hashComment | blockComment | newline | space => true
  | _ => false

end TokenKind

end FusionTree
