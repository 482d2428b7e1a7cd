import FusionTree.Log.Pattern
import FusionTree.Log.Record

/-!
# Directives of log filters

A directive concerns the records of a target, or those of them with a field, and lets them pass up
to a threshold. It is written in one of these ways:

* `debug` or `4` for all records,
* `fusion_core` or `fusion_core=debug` for a target and those below it,
* `[{field}]=debug`, with or without a target, for records with a field,
* `[span]=debug` for records in a span, and `[{field=value}]=debug` for those in a span with a value
  that is a truth value, a number or fits a pattern. This program opens no spans.
-/

namespace FusionTree.Log

/-- Which of the records with its target a directive concerns. -/
inductive Scope
  | all
  | withField (name : String)
  | inSpan
deriving Repr, DecidableEq

structure Directive where
  /-- What the target of a record has to start with. -/
  target : String := ""
  scope : Scope := .all
  /-- The greatest detail that passes; with zero nothing does. -/
  threshold : Nat
deriving Repr, DecidableEq

namespace Directive

/-- Whether a directive concerns a record. Every record has its message as a field. -/
def concerns (d : Directive) (r : Record) : Bool :=
  r.target.startsWith d.target &&
    match d.scope with
    | .all => true
    | .withField name => name = "message" || r.fields.any (·.name = name)
    | .inSpan => false

/-- Whether a directive is at least as specific as another that concerns the same record: first
the longer target counts, then the field, and of two fields the one with the later name. -/
def refines (d e : Directive) : Bool :=
  e.target.length < d.target.length ||
    (d.target.length = e.target.length &&
      match d.scope, e.scope with
      | .withField name, .withField other => other ≤ name
      | .all, .withField _ => false
      | _, _ => true)

/-! ## Reading -/

/-- The threshold without a level. -/
def mostDetailed : Nat := Level.trace.detail

def words : List String :=
  ["off", "error", "warn", "info", "debug", "trace"]

def unsigned : List Char → List Char
  | '+' :: rest | '-' :: rest => rest
  | text => text

def areDigits (text : List Char) : Bool :=
  text ≠ [] && text.all Char.isDigit

/-- The number that digits spell, perhaps with a plus sign in front. -/
def number? (s : String) : Option Nat :=
  let digits := if s.startsWith "+" then s.toList.drop 1 else s.toList
  if areDigits digits then
    some (digits.foldl (fun n c => 10 * n + (c.toNat - '0'.toNat)) 0)
  else none

/-- The threshold that a word in any case stands for, or a number from zero to five. -/
def threshold? (s : String) : Option Nat :=
  match number? s with
  | some n => if n ≤ mostDetailed then some n else none
  | none => words.idxOf? s.toLower

/-- Whether a text is a decimal number, with a sign, a fraction and an exponent if need be, or a
word for infinity or for what is no number. -/
def isNumber (text : List Char) : Bool :=
  let text := unsigned text
  let (whole, rest) := text.span Char.isDigit
  let (fraction, rest) := match rest with
    | '.' :: rest => rest.span Char.isDigit
    | rest => ([], rest)
  let power := match rest with
    | [] => true
    | c :: rest => (c = 'e' || c = 'E') && areDigits (unsigned rest)
  ["inf", "infinity", "nan"].contains (String.ofList text).toLower ||
    (areDigits (whole ++ fraction) && power)

/-- Whether a text can be asked for as the value of a field. The truth values are patterns too. -/
def isValue (text : List Char) : Bool :=
  isNumber text || Pattern.isPattern text

/-- The scope that a field in braces means, perhaps of a span with a name. A field is a name, or a
name and a value; what follows a second equals sign is not read. -/
def scopeOfField? (named : Bool) (field : List Char) : Option Scope :=
  match field.span (· ≠ '=') with
  | (name, []) => some (if named then .inSpan else .withField (String.ofList name))
  | (_, _ :: rest) => if isValue (rest.takeWhile (· ≠ '=')) then some .inSpan else none

def opensTarget (c : Char) : Bool :=
  c = '-' || c = ':' || c = '_' || Text.isAlphanumeric c

/-- The text between two byte offsets; `none` if one of them lies inside a character. -/
def slice (start stop : Nat) (text : List Char) : Option (List Char) :=
  (Text.dropBytes start text).bind (Text.takeBytes (stop - start))

def thresholdFrom? (start : Nat) (written : List Char) : Option Nat := do
  let level ← Text.dropBytes start written
  if level = [] then return mostDetailed else threshold? (String.ofList level)

/-- The threshold that follows a target or a scope: all detail without an equals sign. The equals
sign would stand at an offset. -/
def afterTarget? (offset : Nat) (rest written : List Char) : Option Nat :=
  match rest with
  | [] => some mostDetailed
  | '=' :: _ => thresholdFrom? (offset + 1) written
  | _ => none

/-- The scope between brackets, which start at an offset and are open at the head of `rest`, with
the offset behind them and what follows there. A field is in braces, after the name of a span if
there is one; it may hold brackets. -/
def bracketed? (offset : Nat) (rest written : List Char) : Option (Scope × Nat × List Char) :=
  let (name, rest) := (rest.drop 1).span fun c => c ≠ ']' && c ≠ '\x7b'
  let stop := offset + 1 + Text.byteLength name
  match rest with
  | ']' :: rest => some (.inSpan, stop + 1, rest)
  | '\x7b' :: rest =>
    let (field, rest) := rest.span (· ≠ '\x7d')
    let length := Text.byteLength field
    match rest with
    | '\x7d' :: ']' :: rest => do
      if field = [] then none
      let field ← slice (stop + 1) (stop + 1 + length) written
      return (← scopeOfField? (name ≠ []) field, stop + length + 3, rest)
    | _ => none
  | _ => none

/-- Reads one directive. A lone word is a threshold if it can be one, and else a target.

The marks are looked for in the text without the blanks at its ends; what stands between them is cut
out of the text as it was written, at the same offsets. So blanks at the end belong to the last
part, and those at the start shift what every part holds. -/
def ofString? (s : String) : Option Directive := do
  let written := s.toList
  let text := Text.trim written
  let first ← text.head?
  if !(first = '[' || opensTarget first) then none
  let (word, rest) := text.span fun c => c ≠ '=' && c ≠ '['
  let offset := Text.byteLength word
  if rest = [] then
    return match threshold? s with
      | some threshold => { threshold }
      | none => { target := s, threshold := mostDetailed }
  let target := String.ofList (← slice 0 offset written)
  if rest.head? = some '[' then
    let (scope, offset, rest) ← bracketed? offset rest written
    return { target, scope, threshold := ← afterTarget? offset rest written }
  return { target, threshold := ← afterTarget? offset rest written }

end Directive

end FusionTree.Log
