import FusionTree.FileTree.Lookup
import FusionTree.Toml.Reader

/-!
# Settings

A project may have a file `fusion.toml` with settings for the sources below its directory. What the
file leaves out has a default. Keys that mean nothing are remarked on and skipped, the outermost of
them standing for what it holds; a value of the wrong type makes the file unusable.
-/

namespace FusionTree

namespace Settings

def fileName : String := "fusion.toml"

def sourceSuffix : String := ".fusion"

end Settings

/-- The settings that a run goes by. -/
structure Settings where
  /-- The suffix that globs select if they name none. -/
  defaultExtension : String := Settings.sourceSuffix
  /-- Whether the prototypes of a finished tree are linked to their ancestors. -/
  buildHierarchy : Bool := true
deriving Repr, DecidableEq

structure IncludeOptions where
  defaultExtension : Option String := none
deriving Repr, DecidableEq

structure PrototypeOptions where
  buildHierarchy : Option Bool := none
deriving Repr, DecidableEq

structure Options where
  inclusion : Option IncludeOptions := none
  prototypes : Option PrototypeOptions := none
deriving Repr, DecidableEq

namespace Options

/-- The settings that options stand for. An extension gets a dot in front unless it has one. -/
def settings (o : Options) : Settings :=
  let defaults : Settings := {}
  { defaultExtension :=
      match o.inclusion.bind (·.defaultExtension) with
      | some extension => if extension.startsWith "." then extension else "." ++ extension
      | none => defaults.defaultExtension
    buildHierarchy :=
      (o.prototypes.bind (·.buildHierarchy)).getD defaults.buildHierarchy }

/-- A value with the keys that were skipped on the way to it; nothing where a type is wrong. The
keys stay even then. -/
structure Found (α : Type) where
  skipped : List String
  value : Option α

/-- Reads the one setting `name` from a part of a document. The part may also be an array, whose
first item is the setting, or a date, which counts as a part with a single key of its own. -/
def readPart {α : Type} (part name : String) (read : Toml → Option α) : Toml → Found (Option α)
  | .table _ entries | .inlineTable entries => readEntries entries none
  | .array (item :: _) => { skipped := [], value := some <$> read item }
  | .datetime => { skipped := [part ++ ".?.$__toml_private_datetime"], value := some none }
  | _ => { skipped := [], value := none }
where
  /-- Reads entries one after another, up to the first wrong type. -/
  readEntries : List (String × Toml) → Option α → Found (Option α)
    | [], found => { skipped := [], value := some found }
    | (key, v) :: rest, found =>
      if key = name then
        match read v with
        | some a => readEntries rest (some a)
        | none => { skipped := [], value := none }
      else
        let more := readEntries rest found
        { more with skipped := (part ++ ".?." ++ key) :: more.skipped }

def readDocument : List (String × Toml) → Options → Found Options
  | [], options => { skipped := [], value := some options }
  | (key, v) :: rest, options =>
    if key = "include" then
      let part := readPart "include" "default_extension"
        (fun | .string s => some s | _ => none) v
      match part.value with
      | none => { skipped := part.skipped, value := none }
      | some found =>
        let more := readDocument rest { options with inclusion := some ⟨found⟩ }
        { more with skipped := part.skipped ++ more.skipped }
    else if key = "prototypes" then
      let part := readPart "prototypes" "build_hierarchy"
        (fun | .bool b => some b | _ => none) v
      match part.value with
      | none => { skipped := part.skipped, value := none }
      | some found =>
        let more := readDocument rest { options with prototypes := some ⟨found⟩ }
        { more with skipped := part.skipped ++ more.skipped }
    else
      let more := readDocument rest options
      { more with skipped := key :: more.skipped }

def ofString (text : String) : Found Options :=
  match Toml.ofString text with
  | some entries => readDocument entries {}
  | none => { skipped := [], value := none }

end Options

inductive SettingsError
  | unreadable (file : Path) (cause : FileError)
  /-- The file is no document, or a value in it has the wrong type. -/
  | unusable
  | notFound
deriving Repr, DecidableEq

namespace FileTree

/-- The directories that hold a place, the innermost first. -/
def outwards : Location → List Location
  | [] => [[]]
  | step :: outer => (step :: outer) :: outwards outer

/-- The directory of the first thing of a name that is found at or above a path. The root of the
file system, which a name may mean too, is in no directory and stands for itself. -/
def directoryWith (tree : FileTree) (start : Path) (name : String) : Option Path :=
  match tree.trace start with
  | .ok here =>
    (((outwards here).map fun outer => (pathOf outer).join name).find? tree.exists?).map fun p =>
      p.parent?.getD p
  | .error _ => none

/-- Reads a settings file; the keys that it skips come first. -/
def readOptions (tree : FileTree) (file : Path) : List String × Except SettingsError Options :=
  match tree.read file with
  | .error cause => ([], .error (.unreadable file cause))
  | .ok text =>
    let found := Options.ofString text
    (found.skipped, match found.value with
      | some options => .ok options
      | none => .error .unusable)

def settingsFor (tree : FileTree) (directory : Path) :
    List String × Except SettingsError Settings :=
  match tree.directoryWith directory Settings.fileName with
  | none => ([], .error .notFound)
  | some project =>
    let (skipped, found) := tree.readOptions (project.join Settings.fileName)
    (skipped, found.map Options.settings)

def settingsOrDefault (tree : FileTree) (directory : Path) :
    List String × Except SettingsError Settings :=
  match tree.settingsFor directory with
  | (skipped, .error .notFound) => (skipped, .ok {})
  | found => found

end FileTree

/-- The reason in words. The words for a document that cannot be used are not fixed. -/
def SettingsError.message : SettingsError → String
  | unreadable file cause => "failed to read config at " ++ file.text ++ ": " ++ cause.message
  | unusable => "failed to deserialize config"
  | notFound => "failed to find a `fusion.toml` in the directory or any of its parents"

end FusionTree
