import FusionTree.Include.Error
import FusionTree.Problem.Syntax
import FusionTree.Source.Span
import FusionTree.Text.Blank

/-!
# Problems in sources

A problem is a cause and the place in a source that shows it. A cause belongs to one of five
classes, may have a number, and has a message; all three are functions of the cause alone.

A warning does not stop a run.
-/

namespace FusionTree

inductive DslError
  | unknown (identifier : String)
  | failed (message : String)
deriving Repr, DecidableEq

def DslError.message : DslError → String
  | unknown identifier => "the fusion dsl `" ++ identifier ++ "` is not registered"
  | failed message => message

/-- The causes for which a run fails. -/
inductive Cause
  /-- No rule of the expected kind matched; `found` is the character there. -/
  | lexical (expected : TokenKind) (found : Option Char)
  | syntactic (error : SyntaxError)
  | reservedKey (key : String)
  | emptyKey
  | newlineInKey (key : String)
  /-- A prototype declared below another path cannot inherit. -/
  | nestedInheritance
  /-- Only one side of a copy is a prototype. -/
  | inheritanceMismatch
  | misplacedPrivate
  /-- The names that an inheritance walk visits, up to the first that it visits twice. -/
  | recursiveInheritance (prototype : String) (walk : List String)
  | dslFailed (identifier : String) (error : DslError)
  /-- The output of a DSL is no valid value: the cause and its place in the output. -/
  | invalidDslOutput (identifier : String) (inner : Cause) (innerSpan : Span)
  | unresolvedInclude (pattern : String) (error : IncludeError)
  | unreadableInclude (pattern : String) (file : Path) (error : IncludeError)
  | includeCycle (file : Path)
  | unreadableEntry (file : Path) (error : IncludeError)

inductive ProblemClass
  | lexical
  | syntactic
  | structural
  | cycle
  | io
deriving Repr, DecidableEq

def ProblemClass.label : ProblemClass → String
  | lexical => "lexical error"
  | syntactic => "syntax error"
  | structural => "structural error"
  | cycle => "cycle error"
  | io => "io error"

def describeFound : Option Char → String
  | none => "<EOF>"
  | some c =>
    if c = '\n' then "newline"
    else if Text.isBlank c then "whitespace"
    else "char `" ++ String.singleton c ++ "`"

namespace Cause

/-- The class of a cause. What is wrong with the output of a DSL keeps its own class. -/
def kind : Cause → ProblemClass
  | lexical .. => .lexical
  | syntactic _ | dslFailed .. => .syntactic
  | invalidDslOutput _ inner _ => inner.kind
  | reservedKey _ | emptyKey | newlineInKey _ | nestedInheritance | inheritanceMismatch
  | misplacedPrivate => .structural
  | recursiveInheritance .. => .cycle
  | unresolvedInclude .. | unreadableInclude .. | includeCycle _ | unreadableEntry .. => .io

/-- The number that tools know the cause by. -/
def code? : Cause → Option Nat
  | lexical .. => some 1646988824
  | syntactic error => error.code?
  | reservedKey _ => some 1437065270
  | emptyKey => some 1646988838
  | newlineInKey _ => some 1644068086
  | nestedInheritance => some 1358418019
  | inheritanceMismatch => some 1358418015
  | misplacedPrivate => some 1677101592
  | recursiveInheritance .. => some 1492801503
  | dslFailed .. | invalidDslOutput .. => some 1180600696
  | unreadableInclude .. => some 1347977017
  | unresolvedInclude .. | includeCycle _ | unreadableEntry .. => none

def message : Cause → String
  | lexical expected found =>
    "Unexpected " ++ describeFound found ++ ". Expected token: `" ++ expected.label ++ "`."
  | syntactic error => error.message
  | reservedKey key => "Reserved key '" ++ key ++ "' used."
  | emptyKey => "A path must not be empty."
  | newlineInKey key =>
    "Key '" ++ String.ofList (key.toList.filter (· ≠ '\n')) ++ "' cannot contain newlines."
  | nestedInheritance =>
    "Cannot inherit, when one of the sides is nested (e.g. foo.prototype(Bar)). " ++
      "Setting up prototype inheritance is only supported at the top level: " ++
      "prototype(Foo) < prototype(Bar)"
  | inheritanceMismatch =>
    "Cannot inherit, when one of the sides is no prototype definition of the form " ++
      "prototype(Foo). It is only allowed to build inheritance chains with prototype objects."
  | misplacedPrivate => "@private can only be declared inside a root prototype declaration."
  | recursiveInheritance prototype walk =>
    "Recursive inheritance found for prototype \"" ++ prototype ++ "\". Prototype chain: " ++
      " < ".intercalate walk
  | dslFailed identifier error =>
    "Error while transpiling dsl `" ++ identifier ++ "`: " ++ error.message
  | invalidDslOutput identifier inner _ =>
    "Code produced by dsl `" ++ identifier ++ "` is invalid: " ++ inner.message
  | unresolvedInclude pattern error =>
    "Could not include files of pattern '" ++ pattern ++ "': " ++ error.message
  | unreadableInclude pattern file error =>
    "Could not read file '" ++ file.text ++ "' of pattern '" ++ pattern ++ "': " ++ error.message
  | includeCycle file =>
    "File '" ++ file.text ++ "' is already being included further up the include chain."
  | unreadableEntry file error =>
    "Could not read '" ++ file.text ++ "': " ++ error.message

end Cause

/-- A cause and the place that shows it. -/
structure Problem where
  cause : Cause
  span : Span

inductive Warning
  | includeMatchedNothing (pattern : String) (span : Span)

def Warning.message : Warning → String
  | includeMatchedNothing pattern _ => "Include pattern `" ++ pattern ++ "` did not match any file."

def Warning.span : Warning → Span
  | includeMatchedNothing _ span => span

end FusionTree
