import FusionTree.Number.Binary64
import FusionTree.Source.Span

/-!
# Statements

The syntax of a source: a list of statements, each of which includes files or says something about
an object path. A block holds statements about paths below its own. Every part knows the span it
was read from.
-/

namespace FusionTree

/-- One step of an object path. -/
inductive PathSegment
  /-- A bare key. -/
  | plain (key : String) (span : Span)
  /-- A key in quotes, with its escapes decoded. -/
  | quoted (key : String) (span : Span)
  /-- A property of the object itself: `@name`. -/
  | metaProperty (name : String) (span : Span)
  /-- An object type as a whole: `prototype(Vendor:Type)`. -/
  | prototype (name : String) (span : Span)
deriving DecidableEq

def PathSegment.span : PathSegment → Span
  | plain _ span | quoted _ span | metaProperty _ span | prototype _ span => span

/-- Segments with dots between them. -/
structure ObjectPath where
  segments : List PathSegment
deriving DecidableEq

namespace ObjectPath

def isSinglePrototype (p : ObjectPath) : Bool :=
  match p.segments with
  | [.prototype ..] => true
  | _ => false

/-- From the first segment to the last. -/
def span (p : ObjectPath) : Span :=
  match p.segments with
  | [] => Span.dummy
  | first :: more =>
    match more.getLast? with
    | none => first.span
    | some last => first.span.join last.span

end ObjectPath

/-- The source side of a copy. With a leading dot it is seen from the parent of the target. -/
structure CopySource where
  path : ObjectPath
  relative : Bool
deriving DecidableEq

/-- What can be assigned. -/
inductive Value
  | string (value : String) (span : Span)
  | int (value : Int64) (span : Span)
  | float (value : Binary64) (span : Span)
  | bool (value : Bool) (span : Span)
  | null (span : Span)
  /-- The type of an object: `Vendor:Type`. -/
  | objectName (name : String) (span : Span)
  /-- The code of an embedded expression. -/
  | eel (code : String) (span : Span)
  /-- Code in another language, and the identifier that names it. -/
  | dsl (identifier : String) (code : String) (span : Span)
deriving DecidableEq

def Value.span : Value → Span
  | string _ span | int _ span | float _ span | bool _ span | null span | objectName _ span
  | eel _ span | dsl _ _ span => span

/-- What a statement does to its path. -/
inductive Operation
  | assign (value : Value)
  | unset (span : Span)
  | copy (source : CopySource)
deriving DecidableEq

/-- The text that an operation was read from, without the signs before it. -/
def Operation.span : Operation → Span
  | assign value => value.span
  | unset span => span
  | copy source => source.path.span

structure Block (α : Type) where
  openBrace : Span
  statements : List α
  closeBrace : Span

inductive Statement
  | inclusion (pattern : String) (span : Span)
  /-- Does something to an object path, and something below it. -/
  | object (path : ObjectPath) (operation : Option Operation) (block : Option (Block Statement))

namespace Statement

/-- The text of an include statement; the path of any other statement. -/
def span : Statement → Span
  | inclusion _ span => span
  | object path _ _ => path.span

end Statement

/-- Whether path and operation have the form `prototype(Foo) < prototype(Bar)`. -/
def isRootPrototypeDeclaration (path : ObjectPath) : Option Operation → Bool
  | some (.copy source) => path.isSinglePrototype && source.path.isSinglePrototype
  | _ => false

/-- A source as a list of statements. No include has been followed. -/
structure Document where
  statements : List Statement
  path : Option Path
  span : Span

/-- The patterns of the include statements that stand in no block. -/
def Document.includes (d : Document) : List String :=
  d.statements.filterMap fun
    | .inclusion pattern _ => some pattern
    | .object .. => none

end FusionTree
