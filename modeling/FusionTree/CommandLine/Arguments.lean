import FusionTree.Source.Path

/-!
# Arguments

What the program is asked for, read from its arguments. Options may stand before and after the name
of a command; where both places have one, that after the name counts. After `--` nothing is an
option.
-/

namespace FusionTree

/-- What a session does with a file. -/
inductive Command
  /-- Prints the merged tree. -/
  | parse (file : Path) (compact : Bool)
  /-- Tells whether the file can be merged. -/
  | check (file : Path)
  /-- Prints the outline of the file alone. -/
  | outline (file : Path)
deriving Repr, DecidableEq

def Command.file : Command → Path
  | parse file _ | check file | outline file => file

/-- How much a session tells. -/
structure Loudness where
  verbosity : Nat := 0
  silent : Bool := false
deriving Repr, DecidableEq

/-- Why arguments make no request. -/
inductive UsageError
  | noCommand
  | unknownCommand (argument : String)
  | unknownOption (argument : String)
  | repeatedOption (argument : String)
  | noFile
  | surplus (argument : String)
deriving Repr, DecidableEq

def UsageError.message : UsageError → String
  | noCommand => "a command is missing"
  | unknownCommand argument => "there is no command '" ++ argument ++ "'"
  | unknownOption argument => "there is no option '" ++ argument ++ "' here"
  | repeatedOption argument => "'" ++ argument ++ "' repeats an option"
  | noFile => "a file is missing"
  | surplus argument => "'" ++ argument ++ "' is one argument too many"

inductive Request
  | run (command : Command) (loudness : Loudness)
  | version
  | help
  | refused (error : UsageError)
deriving Repr, DecidableEq

namespace Arguments

/-- The options. None has a value. -/
inductive Flag
  | verbose
  | silent
  | compact
  | version
  | help
deriving Repr, DecidableEq

namespace Flag

/-- The option of a name after two hyphens. -/
def ofName? : String → Option Flag
  | "verbose" => some verbose
  | "silent" => some silent
  | "compact" => some compact
  | "version" => some version
  | "help" => some help
  | _ => none

/-- The option of a letter after one hyphen. -/
def ofLetter? : Char → Option Flag
  | 'v' => some verbose
  | 's' => some silent
  | 'V' => some version
  | 'h' => some help
  | _ => none

/-- The options that an argument spells, with nothing for one that there is not. -/
def ofArgument (argument : String) : List (Option Flag) :=
  match argument.toList with
  | '-' :: '-' :: name => [ofName? (String.ofList name)]
  | '-' :: letters => letters.map ofLetter?
  | _ => []

end Flag

/-- Whether an argument spells options. A single hyphen does not. -/
def isOption (argument : String) : Bool :=
  argument.startsWith "-" && argument ≠ "-"

inductive CommandName
  | parse
  | check
  | ast
deriving Repr, DecidableEq

def CommandName.ofString? : String → Option CommandName
  | "parse" => some .parse
  | "check" => some .check
  | "ast" => some .ast
  | _ => none

/-- What has been given in one place: before the name of the command, or after it. -/
structure Given where
  verbosity : Nat := 0
  silent : Bool := false
  compact : Bool := false
  file : Option Path := none

def maxVerbosity : Nat := 255

namespace Given

/-- Adds an option. The version is for the place before the command, compactness for one command
alone. -/
def addFlag (place : Option CommandName) (argument : String) (given : Given) :
    Option Flag → Except Request Given
  | some .verbose => .ok { given with verbosity := min (given.verbosity + 1) maxVerbosity }
  | some .silent =>
    if given.silent then .error (.refused (.repeatedOption argument))
    else .ok { given with silent := true }
  | some .compact =>
    if place ≠ some .parse then .error (.refused (.unknownOption argument))
    else if given.compact then .error (.refused (.repeatedOption argument))
    else .ok { given with compact := true }
  | some .version =>
    .error (if place = none then .version else .refused (.unknownOption argument))
  | some .help => .error .help
  | none => .error (.refused (.unknownOption argument))

def addOptions (place : Option CommandName) (argument : String) (given : Given) :
    Except Request Given :=
  (Flag.ofArgument argument).foldlM (addFlag place argument) given

def addFile (argument : String) (given : Given) : Except Request Given :=
  match given.file with
  | some _ => .error (.refused (.surplus argument))
  | none =>
    if argument = "" then .error (.refused .noFile)
    else .ok { given with file := some ⟨argument⟩ }

end Given

def readCommand (name : CommandName) (given : Given) : List String → Except Request Given
  | [] => .ok given
  | argument :: rest =>
    if argument = "--" then rest.foldlM (fun given file => given.addFile file) given
    else do
      let given ←
        if isOption argument then given.addOptions (some name) argument
        else given.addFile argument
      readCommand name given rest

/-- The request for a command, from what has been given before its name and after it. -/
def request (name : CommandName) (before after : Given) : Request :=
  match after.file with
  | none => .refused .noFile
  | some file =>
    let command := match name with
      | .parse => .parse file after.compact
      | .check => .check file
      | .ast => .outline file
    let verbosity := if after.verbosity = 0 then before.verbosity else after.verbosity
    .run command { verbosity, silent := before.silent || after.silent }

def read (given : Given) : List String → Request
  | [] => .refused .noCommand
  | argument :: rest =>
    if argument = "--" then
      match rest with
      | [] => .refused .noCommand
      | surplus :: _ => .refused (.surplus surplus)
    else if isOption argument then
      match given.addOptions none argument with
      | .ok given => read given rest
      | .error request => request
    else match CommandName.ofString? argument with
      | some name =>
        match readCommand name {} rest with
        | .ok after => request name given after
        | .error request => request
      | none => if argument = "help" then .help else .refused (.unknownCommand argument)

end Arguments

def Request.ofArguments (arguments : List String) : Request :=
  Arguments.read {} arguments

end FusionTree
