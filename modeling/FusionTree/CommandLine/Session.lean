import FusionTree.CommandLine.Arguments
import FusionTree.Log.Event
import FusionTree.Log.Filter
import FusionTree.Merge.Run
import FusionTree.Statement.Outline
import FusionTree.Tree.Json

/-!
# Sessions

One call of the program: what it prints and logs, and whether it succeeds. A session sees the files
as they are at one moment. What is printed goes to the standard output in any case; what is logged
passes the filter, and grave records go to the error stream.
-/

namespace FusionTree

inductive Output
  | printed (text : String)
  | logged (event : Log.Event)

/-- What a session says, in order, and whether it succeeds. -/
structure Session where
  outputs : List Output
  succeeds : Bool

namespace Session

def failing (events : List Log.Event) (reason : String) : Session :=
  { outputs := (events ++ [Log.Event.failed reason]).map .logged, succeeds := false }

def printing (events : List Log.Event) (text : String) : Session :=
  { outputs := events.map .logged ++ [.printed (text ++ "\n")], succeeds := true }

def unparsed (file : Path) : String :=
  "failed to parse " ++ "`" ++ file.text ++ "`"

def settingsDirectory (file : Path) : Path :=
  match file.parent? with
  | some directory => if directory.text.isEmpty then ⟨"."⟩ else directory
  | none => ⟨"."⟩

/-- Merges a file by the settings of its project, and goes on with the tree if no problem has been
reported. -/
def merging (tree : FileTree) (file : Path) (onTree : List Log.Event → Entries → Session) :
    Session :=
  let (skipped, found) := tree.settingsOrDefault (settingsDirectory file)
  let remarks := skipped.map Log.Event.settingSkipped
  match found with
  | .error error => failing remarks error.message
  | .ok settings =>
    let options : RunOptions :=
      { resolver := tree.resolver settings.defaultExtension
        buildHierarchy := settings.buildHierarchy }
    let result := options.runFile file
    let events := remarks ++ [.settingsRead settings] ++
      result.journal.steps.map Log.Event.step ++ result.journal.warnings.map Log.Event.warned ++
      result.journal.problems.map Log.Event.problem
    match result.outcome, result.journal.problems with
    | .ok merged, [] => onTree events merged
    | _, _ => failing events (unparsed file)

def outlining (tree : FileTree) (file : Path) : Session :=
  match tree.read file with
  | .error cause =>
    failing [] ("failed to read " ++ "`" ++ file.text ++ "`\n\nCaused by:\n    " ++ cause.message)
  | .ok text =>
    let events (r : Reading) : List Log.Event :=
      r.patterns.map (fun pattern => .step (.includeRead pattern)) ++ r.problems.map .problem
    match (Source.ofString text (some file)).parse with
    | .ok document r =>
      if r.problems.isEmpty then printing (events r) (document.outline.render 0)
      else failing (events r) (unparsed file)
    | .error _ r => failing (events r) (unparsed file)

def ofCommand (tree : FileTree) : Command → Session
  | .parse file compact =>
    let style := if compact then Json.compact else Json.pretty
    merging tree file fun events merged => printing events ((Node.map merged).toJson style 0)
  | .check file =>
    merging tree file fun events _ =>
      { outputs := (events ++ [Log.Event.accepted file]).map .logged, succeeds := true }
  | .outline file => outlining tree file

end Session

/-- What the program leaves behind. -/
structure Response where
  exitCode : UInt32
  output : String := ""
  errorOutput : String := ""

namespace Response

def outputText (filter : Log.Filter) : Output → String
  | .printed text => text
  | .logged event =>
    let r := event.record
    if filter.admits r && !r.level.isGrave then r.line else ""

def errorText (filter : Log.Filter) : Output → String
  | .printed _ => ""
  | .logged event =>
    let r := event.record
    if filter.admits r && r.level.isGrave then r.line else ""

def ofSession (filter : Log.Filter) (session : Session) : Response :=
  { exitCode := if session.succeeds then 0 else 1
    output := String.join (session.outputs.map (outputText filter))
    errorOutput := String.join (session.outputs.map (errorText filter)) }

def versionText : String := "fusion 0.1.0\n"

def usageText : String :=
  "Usage: fusion [-v]... [-s] parse FILE [--compact]\n" ++
  "       fusion [-v]... [-s] check FILE\n" ++
  "       fusion [-v]... [-s] ast FILE\n"

def ofRequest (tree : FileTree) (filterText : Option String) : Request → Response
  | .run command loudness =>
    ofSession (.choose loudness.verbosity loudness.silent filterText)
      (Session.ofCommand tree command)
  | .version => { exitCode := 0, output := versionText }
  | .help => { exitCode := 0, output := usageText }
  | .refused error =>
    { exitCode := 2, errorOutput := "error: " ++ error.message ++ "\n\n" ++ usageText }

end Response

end FusionTree
