import FusionTree.Parser.Statement
import FusionTree.Proofs.Parser.Gaps

/-!
# Writing statements

How statements are written: keys in single quotes, strings in double ones, segments with dots
between them, and gaps wherever the grammar has room for one. `Statement.AllPrintable` says which
statements can be written so that they are read back, and `bare` forgets where they were read.
-/

namespace FusionTree

def TokenKind.IsLexeme (kind : TokenKind) (text : List Char) : Prop :=
  kind.lexeme? text = some text

instance (kind : TokenKind) (text : List Char) : Decidable (kind.IsLexeme text) :=
  inferInstanceAs (Decidable (_ = _))

namespace Text

def singleQuoted (text : String) : List Char :=
  '\'' :: (escapeWith singleCode text.toList ++ ['\''])

def doubleQuoted (text : String) : List Char :=
  '"' :: (escapeWith doubleCode text.toList ++ ['"'])

end Text

def includeKeyword : List Char := "include:".toList

/-! ### Paths -/

namespace PathSegment

/-- The segment without its place. -/
def bare : PathSegment → PathSegment
  | plain key _ => plain key Span.dummy
  | quoted key _ => quoted key Span.dummy
  | metaProperty name _ => metaProperty name Span.dummy
  | prototype name _ => prototype name Span.dummy

def print : PathSegment → List Char
  | plain key _ => key.toList
  | quoted key _ => Text.singleQuoted key
  | metaProperty name _ => '@' :: name.toList
  | prototype name _ => "prototype(".toList ++ (name.toList ++ [')'])

/-- The segment can be written: its name is a token of its kind, or stands in quotes. -/
def Printable : PathSegment → Prop
  | plain name _ | metaProperty name _ => TokenKind.pathPart.IsLexeme name.toList
  | quoted key _ => '\r' ∉ key.toList
  | prototype name _ => TokenKind.objectName.IsLexeme name.toList

instance : (s : PathSegment) → Decidable s.Printable
  | .plain .. | .metaProperty .. | .prototype .. =>
    inferInstanceAs (Decidable (TokenKind.IsLexeme _ _))
  | .quoted .. => inferInstanceAs (Decidable (_ ∉ _))

/-- The segment would be taken for the keyword of an include statement. -/
def LooksLikeInclude : PathSegment → Prop
  | plain key _ => includeKeyword <+: key.toList
  | _ => False

instance : (s : PathSegment) → Decidable s.LooksLikeInclude
  | .plain .. => inferInstanceAs (Decidable (_ <+: _))
  | .quoted .. | .metaProperty .. | .prototype .. => inferInstanceAs (Decidable False)

end PathSegment

namespace ObjectPath

def bare (p : ObjectPath) : ObjectPath :=
  ⟨p.segments.map PathSegment.bare⟩

def printMore (more : List PathSegment) : List Char :=
  more.flatMap fun s => '.' :: s.print

def print (p : ObjectPath) : List Char :=
  match p.segments with
  | [] => []
  | first :: more => first.print ++ printMore more

def Printable (p : ObjectPath) : Prop :=
  p.segments ≠ [] ∧ ∀ s ∈ p.segments, s.Printable

/-- A statement may begin with the path. -/
def Leads (p : ObjectPath) : Prop :=
  p.Printable ∧ ∀ s ∈ p.segments.head?, ¬s.LooksLikeInclude

instance (p : ObjectPath) : Decidable p.Printable :=
  inferInstanceAs (Decidable (_ ∧ _))

instance (p : ObjectPath) : Decidable p.Leads :=
  inferInstanceAs (Decidable (_ ∧ _))

end ObjectPath

/-! ### Operations -/

namespace Value

def bare : Value → Value
  | string s _ => string s Span.dummy
  | int n _ => int n Span.dummy
  | float x _ => float x Span.dummy
  | bool b _ => bool b Span.dummy
  | null _ => null Span.dummy
  | objectName name _ => objectName name Span.dummy
  | eel code _ => eel code Span.dummy
  | dsl identifier code _ => dsl identifier code Span.dummy

def eelText (code : String) : List Char :=
  '$' :: '\x7b' :: (code.toList ++ ['\x7d'])

/-- How the value is written. Fractions are not. -/
def print : Value → List Char
  | string s _ => Text.doubleQuoted s
  | int n _ => (toString n.toInt).toList
  | float .. => []
  | bool b _ => (if b then "true" else "false").toList
  | null _ => "null".toList
  | objectName name _ => name.toList
  | eel code _ => eelText code
  | dsl identifier code _ => identifier.toList ++ '\x60' :: (code.toList ++ ['\x60'])

/-- The value can be written: a name is a token of its kind, and code ends where its own last
delimiter stands. -/
def Printable : Value → Prop
  | string .. | int .. | bool .. | null _ => True
  | float .. => False
  | objectName name _ => TokenKind.objectName.IsLexeme name.toList
  | eel code _ => TokenKind.eel.IsLexeme (eelText code) ∧ '\r' ∉ code.toList
  | dsl identifier code _ =>
    TokenKind.dslStart.lexeme? (identifier.toList ++ ['\x60']) = some identifier.toList ∧
      '\x60' ∉ code.toList ∧ '\r' ∉ code.toList

instance : (x : Value) → Decidable x.Printable
  | .string .. | .int .. | .bool .. | .null _ => inferInstanceAs (Decidable True)
  | .float .. => inferInstanceAs (Decidable False)
  | .objectName .. => inferInstanceAs (Decidable (TokenKind.IsLexeme _ _))
  | .eel .. | .dsl .. => inferInstanceAs (Decidable (_ ∧ _))

end Value

namespace CopySource

def bare (source : CopySource) : CopySource :=
  ⟨source.path.bare, source.relative⟩

def print (source : CopySource) : List Char :=
  if source.relative then '.' :: source.path.print else source.path.print

end CopySource

namespace Operation

def bare : Operation → Operation
  | assign value => assign value.bare
  | unset _ => unset Span.dummy
  | copy source => copy source.bare

def Printable : Operation → Prop
  | assign value => value.Printable
  | unset _ => True
  | copy source => source.path.Printable

instance : (op : Operation) → Decidable op.Printable
  | .assign value => inferInstanceAs (Decidable value.Printable)
  | .unset _ => inferInstanceAs (Decidable True)
  | .copy source => inferInstanceAs (Decidable source.path.Printable)

/-- The text is the operation written out, with a gap behind its sign. -/
inductive WrittenAs : Operation → List Char → Prop
  | assign {value : Value} {gap : List Char} (hg : Gap false gap) :
      WrittenAs (.assign value) ('=' :: (gap ++ value.print))
  | unset {span : Span} : WrittenAs (.unset span) ['>']
  | copy {source : CopySource} {gap : List Char} (hg : Gap false gap) :
      WrittenAs (.copy source) ('<' :: (gap ++ source.print))

def AnyWrittenAs : Option Operation → List Char → Prop
  | none, text => text = []
  | some op, text => op.WrittenAs text

theorem WrittenAs.any {op : Operation} {text : List Char} (h : op.WrittenAs text) :
    AnyWrittenAs (some op) text :=
  h

theorem exists_writtenAs : (op : Operation) → ∃ text, op.WrittenAs text
  | .assign _ => ⟨_, .assign .nil⟩
  | .unset _ => ⟨_, .unset⟩
  | .copy _ => ⟨_, .copy .nil⟩

theorem exists_anyWrittenAs : (op : Option Operation) → ∃ text, AnyWrittenAs op text
  | none => ⟨[], rfl⟩
  | some op => op.exists_writtenAs

end Operation

/-! ### Statements -/

namespace Statement

mutual

def bare : Statement → Statement
  | .inclusion pattern _ => .inclusion pattern Span.dummy
  | .object path operation none => .object path.bare (operation.map Operation.bare) none
  | .object path operation (some ⟨_, inner, _⟩) =>
    .object path.bare (operation.map Operation.bare) (some ⟨Span.dummy, bareAll inner, Span.dummy⟩)

def bareAll : List Statement → List Statement
  | [] => []
  | s :: rest => s.bare :: bareAll rest

end

mutual

def Printable : Statement → Prop
  | .inclusion pattern _ => ∀ c ∈ pattern.toList, c ≠ '"' ∧ c ≠ '\\' ∧ c ≠ '\r'
  | .object path operation none =>
    path.Leads ∧ operation.isSome ∧ ∀ op ∈ operation, op.Printable
  | .object path operation (some ⟨_, inner, _⟩) =>
    path.Leads ∧ (∀ op ∈ operation, op.Printable) ∧ AllPrintable inner

def AllPrintable : List Statement → Prop
  | [] => True
  | s :: rest => s.Printable ∧ AllPrintable rest

end

mutual

def decidePrintable : (s : Statement) → Decidable s.Printable
  | .inclusion pattern _ => inferInstanceAs (Decidable (∀ c ∈ pattern.toList, _))
  | .object _ _ none => inferInstanceAs (Decidable (_ ∧ _ ∧ _))
  | .object _ _ (some ⟨_, inner, _⟩) =>
    have : Decidable (AllPrintable inner) := decideAllPrintable inner
    inferInstanceAs (Decidable (_ ∧ _ ∧ _))

def decideAllPrintable : (ss : List Statement) → Decidable (AllPrintable ss)
  | [] => inferInstanceAs (Decidable True)
  | s :: rest =>
    have : Decidable s.Printable := decidePrintable s
    have : Decidable (AllPrintable rest) := decideAllPrintable rest
    inferInstanceAs (Decidable (_ ∧ _))

end

instance (s : Statement) : Decidable s.Printable := decidePrintable s

instance (ss : List Statement) : Decidable (AllPrintable ss) := decideAllPrintable ss

mutual

def depth : Statement → Nat
  | .inclusion .. | .object _ _ none => 0
  | .object _ _ (some ⟨_, inner, _⟩) => depthAll inner + 1

def depthAll : List Statement → Nat
  | [] => 0
  | s :: rest => max s.depth (depthAll rest)

end

/-- The text is the statements written out. A statement ends with a newline, or with its block. -/
inductive AllWrittenAs : List Statement → List Char → Prop
  | nil {gap : List Char} (hg : Gap true gap) : AllWrittenAs [] gap
  | inclusion {pattern : String} {span : Span} {rest : List Statement}
      {before blanks after text : List Char} (hb : Gap true before)
      (blank : ∀ c ∈ blanks, c = ' ' ∨ c = '\t') (ha : Gap false after)
      (written : AllWrittenAs rest text) :
      AllWrittenAs (.inclusion pattern span :: rest)
        (before ++ (includeKeyword ++
          (blanks ++ ('"' :: (pattern.toList ++ '"' :: (after ++ '\n' :: text))))))
  | object {path : ObjectPath} {op : Operation} {rest : List Statement}
      {before gap opText after text : List Char} (hb : Gap true before) (hg : Gap false gap)
      (operation : op.WrittenAs opText) (ha : Gap false after) (written : AllWrittenAs rest text) :
      AllWrittenAs (.object path (some op) none :: rest)
        (before ++ (path.print ++ (gap ++ (opText ++ (after ++ '\n' :: text)))))
  | block {path : ObjectPath} {op : Option Operation} {openBrace closeBrace : Span}
      {inner rest : List Statement} {before gap opText after innerText text : List Char}
      (hb : Gap true before) (hg : Gap false gap) (operation : Operation.AnyWrittenAs op opText)
      (ha : Gap false after) (inside : AllWrittenAs inner innerText)
      (written : AllWrittenAs rest text) :
      AllWrittenAs (.object path op (some ⟨openBrace, inner, closeBrace⟩) :: rest)
        (before ++ (path.print ++ (gap ++ (opText ++ (after ++
          '\x7b' :: (innerText ++ '\x7d' :: text))))))

/-- Whatever can be written has a written form. -/
theorem exists_writtenAs : (ss : List Statement) → AllPrintable ss → ∃ text, AllWrittenAs ss text
  | [], _ => ⟨[], .nil .nil⟩
  | .inclusion _ _ :: rest, h => by
    obtain ⟨text, written⟩ := exists_writtenAs rest h.2
    exact ⟨_, .inclusion .nil (by simp : ∀ c ∈ [], c = ' ' ∨ c = '\t') .nil written⟩
  | .object _ none none :: _, h => by cases h.1.2.1
  | .object _ (some op) none :: rest, h => by
    obtain ⟨text, written⟩ := exists_writtenAs rest h.2
    obtain ⟨opText, operation⟩ := op.exists_writtenAs
    exact ⟨_, .object .nil .nil operation .nil written⟩
  | .object _ operation (some ⟨_, inner, _⟩) :: rest, h => by
    obtain ⟨innerText, inside⟩ := exists_writtenAs inner h.1.2.2
    obtain ⟨text, written⟩ := exists_writtenAs rest h.2
    obtain ⟨opText, operation⟩ := Operation.exists_anyWrittenAs operation
    exact ⟨_, .block .nil .nil operation .nil inside written⟩

end Statement

end FusionTree
