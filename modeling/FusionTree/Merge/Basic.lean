import FusionTree.Include.Resolver
import FusionTree.Merge.Dsl
import FusionTree.Merge.Journal
import FusionTree.Tree.Update

/-!
# Merges

A merge changes the tree statement by statement, and stops at the first problem. Sources may lead to
further sources, by includes and by the output of DSLs; since nothing bounds the latter, every run
has a depth, and one that would have to go deeper stops too.
-/

namespace FusionTree

/-- Why a merge stops before the end. -/
inductive Stop
  | problem (p : Problem)
  /-- Sources lead to further ones deeper than the run may go. -/
  | depthExceeded

/-- The tree that a merge has made so far, and its journal. -/
structure MergeState where
  tree : Entries := []
  journal : Journal := {}

abbrev Merge := EStateM Stop MergeState

/-- Where statements stand: the sources that lead to them, and the blocks around them. -/
structure Context where
  resolver : Resolver
  dsl : DslRegistry
  /-- Merges a source; the paths are the files that lead to it, outermost first. -/
  enter : Source → List Path → Merge Unit
  file : Option Path
  /-- The files being merged, outermost first; the last is the file itself, if there is one. -/
  chain : List Path
  /-- The path of the innermost block around them. -/
  blockPath : List String := []
  /-- Whether that block belongs to a root prototype declaration. -/
  inPrototype : Bool := false

namespace Merge

def record (f : Journal → Journal) : Merge Unit :=
  modify fun s => { s with journal := f s.journal }

def fail {α : Type} (cause : Cause) (span : Span) : Merge α := do
  record (·.report ⟨cause, span⟩)
  throw (.problem ⟨cause, span⟩)

def note (step : Step) : Merge Unit :=
  record (·.note step)

def update (f : Entries → Entries) : Merge Unit :=
  modify fun s => { s with tree := f s.tree }

/-- Runs a merge on an empty tree and with a list of problems of its own. Gives that tree or the
reason for stopping, and the problems. The rest of the journal goes on; the tree and the problems
outside stay as they are. -/
def apart (m : Merge Unit) : Merge (Except Stop Entries × List Problem) := fun s =>
  let outside (inner : MergeState) : MergeState :=
    { tree := s.tree, journal := { inner.journal with problems := s.journal.problems } }
  match m { tree := [], journal := { s.journal with problems := [] } } with
  | .ok _ inner => .ok (.ok inner.tree, inner.journal.problems) (outside inner)
  | .error stop inner => .ok (.error stop, inner.journal.problems) (outside inner)

end Merge

end FusionTree
