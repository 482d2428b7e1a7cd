import FusionTree.Parser.Basic
import FusionTree.Statement.Basic
import FusionTree.Text.Escape

/-!
# Parsing statements

The grammar of a source. At each point the token kinds that can continue are asked for in a fixed
order, and the first that matches wins.

    document    = statement*
    statement   = inclusion / object
    inclusion   = "include" ":" (quoted / file pattern) end
    object      = path ["=" value / ">" / "<" ["."] path] (block / end)
    path        = segment ("." segment)*
    segment     = "prototype(" object name ")" / "@" part / quoted / part
    block       = "{" statement* "}"
    end         = end of input / newline; inside a block also before "}"

Between statements there may be spaces, newlines and comments, between the parts of one statement
spaces and comments.
-/

namespace FusionTree

namespace Token

def text (t : Token) : String :=
  String.ofList t.lexeme

/-- The text of a token between its delimiters: `opening` characters at its start and one at its
end. -/
def inner (t : Token) (opening : Nat) : List Char :=
  (t.lexeme.drop opening).dropLast

end Token

def decimalValue (digits : List Char) : Nat :=
  digits.foldl (fun value c => 10 * value + (c.toNat - '0'.toNat)) 0

def saturate (n : Int) : Int64 :=
  Int64.ofInt (max Int64.minValue.toInt (min n Int64.maxValue.toInt))

def integerValue : List Char → Int64
  | '-' :: digits => saturate (-decimalValue digits)
  | digits => saturate (decimalValue digits)

def floatValue (lexeme : List Char) : Binary64 :=
  let digits := lexeme.filter Rule.isDigit
  let places := (lexeme.dropWhile (· ≠ '.')).length - 1
  Binary64.ofDecimal (lexeme.head? = some '-') (decimalValue digits) places

namespace Parser

def quotedKey (t : Token) : Parser PathSegment :=
  return .quoted (String.ofList (Text.stripSlashes (t.inner 1))) t.span

def pathSegment : Parser PathSegment :=
  onToken .prototypeStart (fun start => do
    let name ← onToken .objectName pure (failHere .expectedPrototypeName)
    let close ← expect .closeParen
    return .prototype name.text (start.span.join close.span)) <|
  onToken .metaStart (fun start => do
    let name ← expect .pathPart
    return .metaProperty name.text (start.span.join name.span)) <|
  onToken .doubleQuoted quotedKey <|
  onToken .singleQuoted quotedKey <|
  onToken .pathPart (fun part => return .plain part.text part.span) <|
  failHere .expectedPathSegment

theorem progresses_pathSegment : pathSegment.Progresses :=
  progresses_onToken (by decide) _ <| progresses_onToken (by decide) _ <|
  progresses_onToken (by decide) _ <| progresses_onToken (by decide) _ <|
  progresses_onToken (by decide) _ <| progresses_failHere _

def objectPath : Parser ObjectPath := do
  let first ← pathSegment
  let more ← eachAfter .dot (by decide) pathSegment
  return ⟨first :: more⟩

theorem progresses_objectPath : objectPath.Progresses :=
  Progresses.bind progresses_pathSegment _

def dslValue (identifier : Token) : Parser Value :=
  onToken .dslCode
    (fun code => pure (.dsl identifier.text (String.ofList (code.inner 1))
      (identifier.span.join code.span)))
    (fail (.syntactic (.malformedDsl identifier.text)) identifier.span)

def value : Parser Value :=
  onToken .singleQuoted
    (fun t => return .string (String.ofList (Text.stripSlashes (t.inner 1))) t.span) <|
  onToken .doubleQuoted
    (fun t => return .string (String.ofList (Text.stripCSlashes (t.inner 1))) t.span) <|
  onToken .objectName (fun t => return .objectName t.text t.span) <|
  onToken .dslStart dslValue <|
  onToken .eel (fun t => return .eel (String.ofList (t.inner 2)) t.span) <|
  onToken .float (fun t => return .float (floatValue t.lexeme) t.span) <|
  onToken .integer (fun t => return .int (integerValue t.lexeme) t.span) <|
  onToken .trueLiteral (fun t => return .bool true t.span) <|
  onToken .falseLiteral (fun t => return .bool false t.span) <|
  onToken .nullLiteral (fun t => return .null t.span) <|
  failHere .expectedValue

def operation? : Parser (Option Operation) :=
  onToken .assign (fun _ => do
    skipSmallGap
    return some (.assign (← value))) <|
  onToken .unset (fun t => return some (.unset t.span)) <|
  onToken .copy (fun _ => do
    skipSmallGap
    let dot ← take .dot
    let path ← objectPath
    return some (.copy ⟨path, dot.isSome⟩)) <|
  pure none

/-- The end of a statement. Inside a block the closing brace ends a statement too, and is left for
the block. -/
def endOfStatement (inBlock : Bool) : Parser Unit := do
  skipSmallGap
  if ← accept .endOfInput then return ()
  if (← take .newline).isSome then return ()
  if inBlock then
    if ← accept .closeBrace then return ()
  failHere .expectedEndOfStatement

def filePattern : Parser (String × Span) :=
  onToken .doubleQuoted (fun t => return (String.ofList (t.inner 1), t.span)) <|
  onToken .singleQuoted (fun t => return (String.ofList (t.inner 1), t.span)) <|
  onToken .filePattern (fun t => return (t.text, t.span)) <|
  failHere .expectedFilePattern

def inclusion (inBlock : Bool) : Parser Statement := do
  let keyword ← expect .inclusion
  let _ ← take .space
  let (pattern, span) ← filePattern
  endOfStatement inBlock
  noteInclude pattern
  return .inclusion pattern (keyword.span.join span)

/-- A block of statements; `none` as its contents means that too many blocks are open. -/
def block (contents : Option (Parser (List Statement))) : Parser (Block Statement) := do
  let openBrace ← expect .openBrace
  match contents with
  | none => fail (.syntactic (.nestingTooDeep maxNesting)) openBrace.span
  | some contents =>
    let statements ← contents
    onToken .closeBrace
      (fun closeBrace => return ⟨openBrace.span, statements, closeBrace.span⟩)
      (fail (.syntactic .unclosedBlock) openBrace.span)

def object (inBlock : Bool) (contents : Option (Parser (List Statement))) : Parser Statement := do
  let path ← objectPath
  skipSmallGap
  let afterPath ← getLexer
  let operation ← operation?
  skipSmallGap
  if ← accept .openBrace then
    return .object path operation (some (← block contents))
  match operation with
  | none =>
    fail (.syntactic .expectedOperationOrBlock) (afterPath.charSpan afterPath.cursor)
  | some _ =>
    endOfStatement inBlock
    return .object path operation none

def acceptAny : List TokenKind → Parser Bool
  | [] => return false
  | kind :: kinds => do
    if ← accept kind then return true
    acceptAny kinds

def pathStarts : List TokenKind :=
  [.prototypeStart, .pathPart, .metaStart, .singleQuoted, .doubleQuoted]

/-- A statement; `inBlock` and `contents` say what stands around it and may stand in its block. -/
def statement (inBlock : Bool) (contents : Option (Parser (List Statement))) :
    Parser Statement := do
  if ← accept .inclusion then inclusion inBlock
  else if ← acceptAny pathStarts then object inBlock contents
  else failHere .expectedStatement

theorem progresses_statement (inBlock : Bool) (contents : Option (Parser (List Statement))) :
    (statement inBlock contents).Progresses := by
  refine Progresses.bind_right fun isInclude => ?_
  split
  · exact Progresses.bind (progresses_expect (by decide)) _
  · refine Progresses.bind_right fun isObject => ?_
    split
    · exact Progresses.bind progresses_objectPath _
    · exact progresses_failHere _

/-- Skips what stands between statements and tells whether the last one has been read. -/
def endOfStatements (inBlock : Bool) : Parser Bool := do
  skipBigGap
  if ← accept .endOfInput then return true
  if inBlock then accept .closeBrace else return false

/-- Statements up to the end of the input, or of the block they stand in; `room` blocks may be
open at once. -/
def statements : (room : Nat) → (inBlock : Bool) → Parser (List Statement)
  | 0, inBlock =>
    repeatUntil (endOfStatements inBlock) (statement inBlock none) (progresses_statement _ _)
  | room + 1, inBlock =>
    repeatUntil (endOfStatements inBlock) (statement inBlock (some (statements room true)))
      (progresses_statement _ _)

def document : Parser Document := do
  let statements ← statements maxNesting false
  let lexer ← getLexer
  return { statements, path := lexer.source.path, span := lexer.span 0 lexer.source.size }

end Parser

def Source.parse (source : Source) : Outcome Document :=
  Parser.document.run { lexer := Lexer.ofSource source }

end FusionTree
