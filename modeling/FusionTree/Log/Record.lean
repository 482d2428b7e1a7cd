import FusionTree.Text.Styled

/-!
# Log records

A record is a message of a certain detail, from a certain part of the program, with named fields.
It is written on one line; grave ones go to the error stream.
-/

namespace FusionTree.Log

/-- The levels of records, from the gravest to the most detailed. -/
inductive Level
  | error
  | warn
  | info
  | debug
  | trace
deriving Repr, DecidableEq

namespace Level

def detail : Level → Nat
  | error => 1
  | warn => 2
  | info => 3
  | debug => 4
  | trace => 5

/-- Whether records of a level go to the error stream. -/
def isGrave : Level → Bool
  | error | warn => true
  | _ => false

end Level

structure Field where
  name : String
  value : String
deriving Repr, DecidableEq

def Field.text (f : Field) : String :=
  " " ++ Text.styled "3" f.name ++ Text.styled "2" "=" ++ f.value

structure Record where
  level : Level
  /-- The part of the program that it comes from. -/
  target : String
  message : String
  fields : List Field := []
deriving Repr, DecidableEq

/-- The line of a record. A message cannot command the terminal; newlines in it are kept. -/
def Record.line (r : Record) : String :=
  String.ofList (Text.disarm r.message.toList) ++ String.join (r.fields.map Field.text) ++ "\n"

end FusionTree.Log
