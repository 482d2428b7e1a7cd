import FusionTree.CommandLine.Session

/-!
# The program

Takes in what a session can see of the file system: the settings file of the project, the entry
file, and the files and directories that include statements lead to. The session itself is a
function of that.
-/

namespace FusionTree.Main

/-- Where a link leads that leads nowhere. -/
def nowhere : String := "/nowhere"

/-- The path of a place without links and parent steps. -/
def realPath (p : Path) : IO Path :=
  return ⟨(← IO.FS.realPath p.text).toString⟩

/-- Takes in what is at a path and on the way to it, without the content of directories. A link is
kept as one to where it really leads. What stands for no component of the path is left out, since a
file cannot be entered by `file/.` and yet has to be there for that to be said. -/
partial def take (tree : FileTree) (p : Path) : IO FileTree := do
  let p := Path.ofComponents p.components
  if tree.exists? p then return tree
  let outer := match p.parent? with
    | some outer => if outer.text.isEmpty then none else some outer
    | none => none
  let tree ← match outer with
    | some outer => take tree outer
    | none => pure tree
  try
    let place ← IO.FS.realPath p.text
    let real : Path := ⟨place.toString⟩
    let tree ← if (← place.metadata).type matches .dir then pure (tree.addDirectory real)
      else pure (tree.add real (.file (← IO.FS.readBinFile place)))
    if tree.exists? p then return tree
    match p.components.getLast? with
    | some (.name name) =>
      return tree.add ((← realPath (outer.getD ⟨"."⟩)).join name) (.link real.text)
    | _ => return tree
  catch _ => return tree

/-- Takes in a directory with its files, and with those below it if it is to be `deep`. Links in it
count as files. -/
partial def takeDirectory (tree : FileTree) (p : Path) (deep : Bool) : IO FileTree := do
  try
    let mut tree ← take tree p
    let place ← realPath p
    for entry in ← (← IO.FS.realPath p.text).readDir do
      let child := place.join entry.fileName
      if (← entry.path.symlinkMetadata).type matches .dir then
        tree ← if deep then takeDirectory tree child deep else take tree child
      else
        tree ← take tree child
        unless tree.exists? child do tree := tree.add child (.link nowhere)
    return tree
  catch _ => return tree

def takeSettings (tree : FileTree) (directory : Path) : IO FileTree := do
  try
    let mut tree ← take tree directory
    let mut outer := some (← realPath directory)
    while outer.isSome do
      for p in outer do
        tree ← take tree (p.join Settings.fileName)
        outer := p.parent?
    return tree
  catch _ => return tree

/-- Takes in files, and whatever their include statements lead to. -/
partial def takeSources (extension : String) (tree : FileTree) (taken : List Path) :
    List Path → IO FileTree
  | [] => return tree
  | p :: pending => do
    if taken.any p.same then
      takeSources extension tree taken pending
    else
      let mut tree ← take tree p
      let mut found : List Path := []
      if let .ok text := tree.read p then
        let patterns := match (Source.ofString text (some p)).parse with
          | .ok _ r | .error _ r => r.patterns
        for pattern in patterns do
          if let .ok target := includeTarget pattern (some p) then
            if let some glob := Glob.ofPath? target then
              tree ← takeDirectory tree glob.directory glob.deep
          if let .ok files := (tree.resolver extension).resolve pattern (some p) then
            found := found ++ files
      takeSources extension tree (p :: taken) (found ++ pending)

def takeProject (file : Path) : IO FileTree := do
  let here : Path := ⟨(← IO.currentDir).toString⟩
  let empty := FileTree.empty (here.components.filterMap fun
    | .name s => some s
    | _ => none)
  let directory := Session.settingsDirectory file
  let tree ← takeSettings empty directory
  let extension := match (tree.settingsOrDefault directory).2 with
    | .ok settings => settings.defaultExtension
    | .error _ => Settings.sourceSuffix
  takeSources extension tree [] [file]

end FusionTree.Main

open FusionTree in
def main (arguments : List String) : IO UInt32 := do
  let request := Request.ofArguments arguments
  let tree ← match request with
    | .run command _ => Main.takeProject command.file
    | _ => pure (FileTree.empty [])
  let response := Response.ofRequest tree (← IO.getEnv "RUST_LOG") request
  IO.print response.output
  IO.eprint response.errorOutput
  return response.exitCode
