import FusionTree.Log.Record
import FusionTree.Merge.Journal
import FusionTree.Report.Drawing
import FusionTree.Settings.Basic
import FusionTree.Text.Quoted

/-!
# What is logged

The events of a session, and the record that each makes. Nearly all that a session tells its user
goes through the log, and so through its filter.
-/

namespace FusionTree.Log

/-- Something that a session may tell. -/
inductive Event
  /-- A key of the settings file means nothing. -/
  | settingSkipped (key : String)
  | settingsRead (settings : Settings)
  | step (s : Step)
  | warned (w : Warning)
  | problem (p : Problem)
  /-- A file has been merged without problems. -/
  | accepted (file : Path)
  | failed (reason : String)

namespace Event

def quotedList (texts : List String) : String :=
  "[" ++ ", ".intercalate (texts.map fun s => Text.quote s.toList) ++ "]"

def settingsText (s : Settings) : String :=
  "BuildConfig \x7b default_extension: " ++ Text.quote s.defaultExtension.toList ++
    ", build_hierarchy: " ++ toString s.buildHierarchy ++ " \x7d"

def ofStep : Step → Record
  | .includeRead pattern =>
    { level := .trace, target := "fusion_parse::parser", message := "parsed include statement"
      fields := [⟨"pattern", pattern⟩] }
  | .objectVisited path =>
    { level := .trace, target := "fusion_core::visitor", message := "object statement"
      fields := [⟨"path", quotedList path⟩] }
  | .fileIncluded file pattern =>
    { level := .debug, target := "fusion_core::visitor", message := "including"
      fields := [⟨"file", file.text⟩, ⟨"pattern", pattern⟩] }
  | .selfSkipped file =>
    { level := .debug, target := "fusion_core::visitor", message := "skipping self include"
      fields := [⟨"file", file.text⟩] }
  | .dslOutputRead identifier =>
    { level := .debug, target := "fusion_core", message := "parsing dsl output"
      fields := [⟨"identifier", Text.quote identifier.toList⟩] }

def rule : String := "\n____\n"

def record : Event → Record
  | settingSkipped key =>
    { level := .error, target := "fusion_tracing"
      message := Text.styled "33" ("  WARNING! found unusable configuration: " ++ key) }
  | settingsRead settings =>
    { level := .debug, target := "fusion", message := "using build config"
      fields := [⟨"config", settingsText settings⟩] }
  | step s => ofStep s
  | warned w =>
    { level := .warn, target := "fusion::diagnostics", message := Drawing.warning w ++ rule }
  | problem p =>
    { level := .error, target := "fusion::diagnostics", message := Drawing.problem p ++ rule }
  | accepted file =>
    { level := .info, target := "fusion_tracing"
      message := Text.styled "32" (file.text ++ " parsed without errors") }
  | failed reason =>
    { level := .error, target := "fusion", message := "Error: " ++ reason }

end Event

end FusionTree.Log
