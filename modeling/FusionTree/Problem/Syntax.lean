import FusionTree.Token.Kind

/-!
# Syntax errors

What a statement may lack or have too much of.
-/

namespace FusionTree

/-- How many blocks may be open at once. -/
def maxNesting : Nat := 64

inductive SyntaxError
  | unexpectedToken (expected found : TokenKind)
  | expectedStatement
  | expectedPathSegment
  | expectedValue
  | expectedOperationOrBlock
  | expectedEndOfStatement
  | expectedPrototypeName
  | unclosedBlock
  | malformedDsl (identifier : String)
  | expectedFilePattern
  | nestingTooDeep (max : Nat)
deriving Repr, DecidableEq

namespace SyntaxError

def message : SyntaxError → String
  | unexpectedToken expected found =>
    "Expected token: `" ++ expected.label ++ "`, found `" ++ found.label ++ "`."
  | expectedStatement =>
    "Expected a statement: an object path, `prototype(...)`, `@meta` or `include:`."
  | expectedPathSegment =>
    "Expected an object path segment: an identifier, `prototype(...)`, `@meta` or a quoted key."
  | expectedValue =>
    "Expected a value: a string, number, boolean, null, fusion object name, eel or dsl expression."
  | expectedOperationOrBlock =>
    "Expected an operator (`=`, `<`, `>`) or a block `\x7b` after the object path."
  | expectedEndOfStatement =>
    "Expected the end of a statement, but found more content on this line."
  | expectedPrototypeName =>
    "Expected a fusion object name like `Vendor.Site:Type` inside `prototype(...)`."
  | unclosedBlock =>
    "No closing brace \"\x7d\" matched this starting block. Encountered <EOF>."
  | malformedDsl identifier =>
    "A dsl expression starting with `" ++ identifier ++ "` must be followed by code in backticks."
  | expectedFilePattern => "Expected file pattern in quotes or [a-zA-Z0-9.*:/_-]."
  | nestingTooDeep max => "Blocks are nested deeper than " ++ toString max ++ " levels."

def code? : SyntaxError → Option Nat
  | unexpectedToken .. => some 1646988824
  | expectedStatement => some 1646988828
  | expectedPathSegment => some 1635708755
  | expectedValue => some 1646988841
  | expectedOperationOrBlock => some 1646988835
  | expectedEndOfStatement => some 1635878683
  | expectedPrototypeName => some 1646991578
  | unclosedBlock => some 1646988844
  | malformedDsl _ => some 1490714685
  | expectedFilePattern => some 1646988832
  | nestingTooDeep _ => none

end SyntaxError

end FusionTree
