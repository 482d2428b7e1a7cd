import FusionTree.Parser.Statement

/-!
# Reading by slices

The reader of sources once more, on byte offsets alone. It knows how far it has come, a token is a
kind and a range, and every text that it looks at is cut out when it is needed: what is left of the
code out of the source, the text of a token too, and what stands between the delimiters of a token
out of the text of the token. A cut fails where an offset is out of range or inside a character; two
ranges join only if they are of one source. When a cut or a join fails, or a loop does not end, the
reading as a whole comes to nothing, neither to a value nor to a problem.
-/

namespace FusionTree

open Text

/-- The text from byte offset `start` up to `stop`, if both lie between two characters and come in
this order. -/
def Text.slice? (text : List Char) (start stop : Nat) : Option (List Char) :=
  if start ≤ stop then (dropBytes start text).bind (takeBytes (stop - start)) else none

/-- Two ranges joined, if they are of one source. -/
def Span.join? (s t : Span) : Option Span :=
  if s.source = t.source then some (s.join t) else none

/-- A token as its kind and the range of its text. -/
structure Mark where
  kind : TokenKind
  span : Span

namespace Mark

def text? (m : Mark) : Option (List Char) :=
  slice? m.span.source.text m.span.start m.span.stop

def inner? (m : Mark) (opening : Nat) : Option (List Char) := do
  let text ← m.text?
  slice? text opening (byteLength text - 1)

end Mark

/-- Where in a text the brace stands that closes an expression: `throughClosingBrace` with the
offset of what is left instead of what has been read. -/
def closingBrace? : (depth : Nat) → (quote : Option Char) → (offset : Nat) → List Char → Option Nat
  | _, _, _, [] => none
  | depth, some q, offset, c :: rest =>
    if c = '\\' then
      match rest with
      | [] => none
      | escaped :: rest =>
        closingBrace? depth (some q) (offset + c.utf8Size + escaped.utf8Size) rest
    else closingBrace? depth (if c = q then none else some q) (offset + c.utf8Size) rest
  | depth, none, offset, c :: rest =>
    if c = '\x7b' then closingBrace? (depth + 1) none (offset + c.utf8Size) rest
    else if c = '\x7d' then
      match depth with
      | 0 => some offset
      | depth + 1 => closingBrace? depth none (offset + c.utf8Size) rest
    else if c = '"' ∨ c = '\'' then closingBrace? depth (some c) (offset + c.utf8Size) rest
    else closingBrace? depth none (offset + c.utf8Size) rest

def eelLength? : List Char → Option Nat
  | '$' :: '\x7b' :: code => (closingBrace? 0 none 0 code).map (2 + · + 1)
  | _ => none

/-- The length of the token of a kind at the head of a text, if there is one. To see the backtick
behind an identifier the text is cut there. -/
def TokenKind.length? (kind : TokenKind) (text : List Char) : Option (Option Nat) :=
  match kind with
  | .dslStart =>
    match Rule.run Rule.isNamePart text with
    | none => some none
    | some name =>
      (dropBytes (byteLength name) text).map fun behind =>
        if behind.head? = some '\x60' then some (byteLength name) else none
  | .eel => some (eelLength? text)
  | kind => some ((kind.lexeme? text).map byteLength)

/-- What a reading by slices has reached. -/
structure Slicer.State where
  source : Source
  cursor : Nat := 0
  lookahead : Option Mark := none
  included : List String := []
  problems : List Problem := []

/-- A reader by slices. -/
abbrev Slicer := ExceptT Problem (StateT Slicer.State Option)

namespace Slicer

variable {α : Type}

/-- What the reader comes to: a value or a problem and what it has reached by then, or nothing. -/
def run (q : Slicer α) (s : State) : Option (Except Problem α × State) :=
  ExceptT.run q s

def cut (slice : Option α) : Slicer α :=
  ExceptT.lift (StateT.lift slice)

/-! ### Tokens -/

def code : Slicer (List Char) := do
  let s ← get
  cut (dropBytes s.cursor s.source.text)

/-- The range from `start` to `stop`; there is no other to fall back on. -/
def span (start stop : Nat) : Slicer Span := do
  let s ← get
  cut (Span.new? s.source start stop)

def peekChar : Slicer (Option Char) :=
  return (← code).head?

def charSpan (offset : Nat) : Slicer Span := do
  let s ← get
  let behind ← cut (dropBytes (min offset s.source.size) s.source.text)
  match behind.head? with
  | some c => span offset (offset + c.utf8Size)
  | none => span offset offset

def generate (kind : TokenKind) : Slicer (Option Mark) := do
  let s ← get
  if s.cursor = s.source.size then
    return some ⟨.endOfInput, ← span s.cursor s.cursor⟩
  match ← cut (kind.length? (← code)) with
  | none => return none
  | some length =>
    set { s with cursor := s.cursor + length }
    return some ⟨kind, ← span s.cursor (s.cursor + length)⟩

def tryMatch (kind : TokenKind) : Slicer (Option Mark) := do
  let s ← get
  match s.lookahead with
  | some m => return some m
  | none =>
    let made ← generate kind
    modify fun s => { s with lookahead := made }
    return made

def accept (kind : TokenKind) : Slicer Bool :=
  return (← tryMatch kind).any (·.kind = kind)

def take (kind : TokenKind) : Slicer (Option Mark) := do
  let m ← tryMatch kind
  if m.any (·.kind = kind) then
    modify fun s => { s with lookahead := none }
    return m
  else return none

def fail (cause : Cause) (span : Span) : Slicer α := do
  modify fun s => { s with problems := s.problems ++ [⟨cause, span⟩] }
  throw ⟨cause, span⟩

def here : Slicer Span := do
  let s ← get
  match s.lookahead with
  | some m => return m.span
  | none => charSpan s.cursor

def failHere (error : SyntaxError) : Slicer α :=
  here >>= fail (.syntactic error)

def onToken (kind : TokenKind) (found : Mark → Slicer α) (otherwise : Slicer α) : Slicer α := do
  match ← take kind with
  | some m => found m
  | none => otherwise

def expect (kind : TokenKind) : Slicer Mark :=
  onToken kind pure do
    let s ← get
    match s.lookahead with
    | some found => failHere (.unexpectedToken kind found.kind)
    | none =>
      let place ← charSpan s.cursor
      fail (.lexical kind (← peekChar)) place

def noteInclude (pattern : String) : Slicer Unit :=
  modify fun s => { s with included := pattern :: s.included }

/-! ### Repetitions -/

def takeAny : List TokenKind → Slicer Bool
  | [] => return false
  | kind :: kinds => do
    match ← take kind with
    | some _ => return true
    | none => takeAny kinds

/-- Collects what a reader gives until it gives nothing. A reader that goes on for more rounds than
allowed comes to nothing. -/
def collectFor (body : Slicer (Option α)) : (rounds : Nat) → Slicer (List α)
  | 0 => cut none
  | rounds + 1 => do
    match ← body with
    | none => return []
    | some a => return a :: (← collectFor body rounds)

/-- Collects what a reader gives until it gives nothing. Whatever takes a token in each round is
done before it runs out of rounds. -/
def collect (body : Slicer (Option α)) : Slicer (List α) := do
  let s ← get
  collectFor body (2 * s.source.size + 2)

def gapPiece (kinds : List TokenKind) : Slicer (Option Unit) := do
  if ← takeAny kinds then return some () else return none

def skip (kinds : List TokenKind) : Slicer Unit := do
  let _ ← collect (gapPiece kinds)

def skipSmallGap : Slicer Unit :=
  skip [.space, .slashComment, .hashComment, .blockComment]

def skipBigGap : Slicer Unit :=
  skip [.space, .newline, .slashComment, .hashComment, .blockComment]

def itemAfter (kind : TokenKind) (q : Slicer α) : Slicer (Option α) := do
  match ← take kind with
  | none => return none
  | some _ => return some (← q)

def eachAfter (kind : TokenKind) (q : Slicer α) : Slicer (List α) :=
  collect (itemAfter kind q)

def itemUnless (done : Slicer Bool) (q : Slicer α) : Slicer (Option α) := do
  if ← done then return none else return some (← q)

def repeatUntil (done : Slicer Bool) (q : Slicer α) : Slicer (List α) :=
  collect (itemUnless done q)

/-! ### The grammar -/

def quotedKey (m : Mark) : Slicer PathSegment := do
  let inner ← cut (m.inner? 1)
  return .quoted (String.ofList (stripSlashes inner)) m.span

def pathSegment : Slicer PathSegment :=
  onToken .prototypeStart (fun start => do
    let name ← onToken .objectName pure (failHere .expectedPrototypeName)
    let close ← expect .closeParen
    return .prototype (String.ofList (← cut name.text?)) (← cut (start.span.join? close.span))) <|
  onToken .metaStart (fun start => do
    let name ← expect .pathPart
    return .metaProperty (String.ofList (← cut name.text?)) (← cut (start.span.join? name.span))) <|
  onToken .doubleQuoted quotedKey <|
  onToken .singleQuoted quotedKey <|
  onToken .pathPart (fun part => return .plain (String.ofList (← cut part.text?)) part.span) <|
  failHere .expectedPathSegment

def objectPath : Slicer ObjectPath := do
  let first ← pathSegment
  let more ← eachAfter .dot pathSegment
  return ⟨first :: more⟩

def dslValue (identifier : Mark) : Slicer Value :=
  onToken .dslCode
    (fun code => do
      let inner ← cut (code.inner? 1)
      let name ← cut identifier.text?
      return .dsl (String.ofList name) (String.ofList inner)
        (← cut (identifier.span.join? code.span)))
    (do
      let name ← cut identifier.text?
      fail (.syntactic (.malformedDsl (String.ofList name))) identifier.span)

def value : Slicer Value :=
  onToken .singleQuoted
    (fun m => return .string (String.ofList (stripSlashes (← cut (m.inner? 1)))) m.span) <|
  onToken .doubleQuoted
    (fun m => return .string (String.ofList (stripCSlashes (← cut (m.inner? 1)))) m.span) <|
  onToken .objectName (fun m => return .objectName (String.ofList (← cut m.text?)) m.span) <|
  onToken .dslStart dslValue <|
  onToken .eel (fun m => return .eel (String.ofList (← cut (m.inner? 2))) m.span) <|
  onToken .float (fun m => return .float (floatValue (← cut m.text?)) m.span) <|
  onToken .integer (fun m => return .int (integerValue (← cut m.text?)) m.span) <|
  onToken .trueLiteral (fun m => return .bool true m.span) <|
  onToken .falseLiteral (fun m => return .bool false m.span) <|
  onToken .nullLiteral (fun m => return .null m.span) <|
  failHere .expectedValue

def operation? : Slicer (Option Operation) :=
  onToken .assign (fun _ => do
    skipSmallGap
    return some (.assign (← value))) <|
  onToken .unset (fun m => return some (.unset m.span)) <|
  onToken .copy (fun _ => do
    skipSmallGap
    let dot ← take .dot
    let path ← objectPath
    return some (.copy ⟨path, dot.isSome⟩)) <|
  pure none

def endOfStatement (inBlock : Bool) : Slicer Unit := do
  skipSmallGap
  if ← accept .endOfInput then return ()
  if (← take .newline).isSome then return ()
  if inBlock then
    if ← accept .closeBrace then return ()
  failHere .expectedEndOfStatement

def filePattern : Slicer (String × Span) :=
  onToken .doubleQuoted (fun m => return (String.ofList (← cut (m.inner? 1)), m.span)) <|
  onToken .singleQuoted (fun m => return (String.ofList (← cut (m.inner? 1)), m.span)) <|
  onToken .filePattern (fun m => return (String.ofList (← cut m.text?), m.span)) <|
  failHere .expectedFilePattern

def inclusion (inBlock : Bool) : Slicer Statement := do
  let keyword ← expect .inclusion
  let _ ← take .space
  let (pattern, place) ← filePattern
  endOfStatement inBlock
  noteInclude pattern
  return .inclusion pattern (← cut (keyword.span.join? place))

def block (contents : Option (Slicer (List Statement))) : Slicer (Block Statement) := do
  let openBrace ← expect .openBrace
  match contents with
  | none => fail (.syntactic (.nestingTooDeep maxNesting)) openBrace.span
  | some contents =>
    let statements ← contents
    onToken .closeBrace
      (fun closeBrace => return ⟨openBrace.span, statements, closeBrace.span⟩)
      (fail (.syntactic .unclosedBlock) openBrace.span)

def object (inBlock : Bool) (contents : Option (Slicer (List Statement))) : Slicer Statement := do
  let path ← objectPath
  skipSmallGap
  let afterPath := (← get).cursor
  let operation ← operation?
  skipSmallGap
  if ← accept .openBrace then
    return .object path operation (some (← block contents))
  match operation with
  | none => fail (.syntactic .expectedOperationOrBlock) (← charSpan afterPath)
  | some _ =>
    endOfStatement inBlock
    return .object path operation none

def acceptAny : List TokenKind → Slicer Bool
  | [] => return false
  | kind :: kinds => do
    if ← accept kind then return true
    acceptAny kinds

def statement (inBlock : Bool) (contents : Option (Slicer (List Statement))) :
    Slicer Statement := do
  if ← accept .inclusion then inclusion inBlock
  else if ← acceptAny Parser.pathStarts then object inBlock contents
  else failHere .expectedStatement

def endOfStatements (inBlock : Bool) : Slicer Bool := do
  skipBigGap
  if ← accept .endOfInput then return true
  if inBlock then accept .closeBrace else return false

def statements : (room : Nat) → (inBlock : Bool) → Slicer (List Statement)
  | 0, inBlock => repeatUntil (endOfStatements inBlock) (statement inBlock none)
  | room + 1, inBlock =>
    repeatUntil (endOfStatements inBlock) (statement inBlock (some (statements room true)))

def document : Slicer Document := do
  let statements ← statements maxNesting false
  let s ← get
  return { statements, path := s.source.path, span := ← span 0 s.source.size }

end Slicer

end FusionTree
