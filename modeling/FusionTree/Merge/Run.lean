import FusionTree.Merge.Statement
import FusionTree.Parser.Statement
import FusionTree.Tree.Hierarchy

/-!
# Runs

A run parses a source and all sources that it leads to, and merges them into one tree. Afterwards
the prototypes may be linked to their ancestors.
-/

namespace FusionTree

namespace Merge

/-- Reads a source as statements. Notes the include statements read and reports the problems. -/
def parse (source : Source) : Merge Document := fun s =>
  let noted (r : Reading) : MergeState :=
    let read := r.patterns.foldl (fun j pattern => j.note (.includeRead pattern)) s.journal
    { s with journal := r.problems.foldl Journal.report read }
  match source.parse with
  | .ok document r => .ok document (noted r)
  | .error p r => .error (.problem p) (noted r)

/-- Merges a source, with sources nested at most `depth` deep below it. The paths are the files that
lead to it. -/
def source (resolver : Resolver) (dsl : DslRegistry) : (depth : Nat) → Source → List Path →
    Merge Unit
  | 0, _, _ => throw .depthExceeded
  | depth + 1, src, chain => do
    let document ← parse src
    let ctx : Context :=
      { resolver, dsl, enter := source resolver dsl depth
        file := src.path, chain := chain ++ src.path.toList }
    statements ctx document.statements

end Merge

structure RunOptions where
  resolver : Resolver
  dsl : DslRegistry := {}
  /-- Whether the prototypes of the finished tree are linked to their ancestors. -/
  buildHierarchy : Bool := true
  /-- How deep sources may be nested in one another. -/
  depth : Nat := 10000

/-- What a run gives: a tree or the reason for stopping, and the journal. -/
structure RunResult where
  outcome : Except Stop Entries
  journal : Journal

namespace RunResult

def failed (p : Problem) (j : Journal) : RunResult :=
  { outcome := .error (.problem p), journal := j.report p }

/-- What one gets who asks for a tree or else for the first problem reported. A run that fails and
has reported nothing has neither. -/
def settled? (r : RunResult) : Option (Except Problem Entries) :=
  match r.outcome, r.journal.problems with
  | _, p :: _ => some (.error p)
  | .ok tree, [] => some (.ok tree)
  | .error _, [] => none

end RunResult

namespace RunOptions

def runSource (options : RunOptions) (source : Source) : RunResult :=
  match Merge.source options.resolver options.dsl options.depth source [] {} with
  | .error stop s => { outcome := .error stop, journal := s.journal }
  | .ok _ s =>
    match if options.buildHierarchy then s.tree.linkPrototypes else .ok s.tree with
    | .ok tree => { outcome := .ok tree, journal := s.journal }
    | .error p => .failed p s.journal

def runFile (options : RunOptions) (file : Path) : RunResult :=
  match options.resolver.read file with
  | .error error => .failed ⟨.unreadableEntry file error, Span.dummy⟩ {}
  | .ok text => options.runSource (Source.ofString text (some file))

end RunOptions

end FusionTree
