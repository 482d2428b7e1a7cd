import FusionTree.FileTree.Error
import FusionTree.Source.Path

/-!
# Include errors

Why a pattern names no files, or a file that it names cannot be read.
-/

namespace FusionTree

inductive IncludeError
  | emptyPattern
  | absolutePath
  | missingCurrentFile
  | unsupportedGlob (pattern : String)
  | notADirectory (path : Path)
  | notFound (file : Path)
  | unreadable (cause : FileError)
deriving Repr, DecidableEq

def IncludeError.message : IncludeError → String
  | emptyPattern => "the include pattern is empty"
  | absolutePath =>
    "absolute include paths are not supported, use a path relative to the including file"
  | missingCurrentFile => "relative includes need the path of the including file"
  | unsupportedGlob pattern =>
    "the glob `" ++ pattern ++
      "` is not supported, only `<dir>/*<suffix>` and `<dir>/**/*<suffix>` are"
  | notADirectory path => "`" ++ path.text ++ "` does not point to a directory"
  | notFound file => "no such file `" ++ file.text ++ "`"
  | unreadable cause => cause.message

end FusionTree
