import FusionTree.Problem.Basic

/-!
# The journal of a run

What a run remarks on its way, besides the tree that it makes: problems, warnings, the uses of DSLs,
and the steps it takes. All of it stays when the run fails.
-/

namespace FusionTree

/-- A step of a run that a log may show. -/
inductive Step
  | includeRead (pattern : String)
  | objectVisited (path : List String)
  | fileIncluded (file : Path) (pattern : String)
  | selfSkipped (file : Path)
  | dslOutputRead (identifier : String)
deriving Repr, DecidableEq

/-- What a run has remarked, the earliest first. -/
structure Journal where
  problems : List Problem := []
  warnings : List Warning := []
  dslUses : List (String × String) := []
  steps : List Step := []

namespace Journal

def report (j : Journal) (p : Problem) : Journal :=
  { j with problems := j.problems ++ [p] }

def warn (j : Journal) (w : Warning) : Journal :=
  { j with warnings := j.warnings ++ [w] }

def use (j : Journal) (identifier code : String) : Journal :=
  { j with dslUses := j.dslUses ++ [(identifier, code)] }

def note (j : Journal) (s : Step) : Journal :=
  { j with steps := j.steps ++ [s] }

end Journal

end FusionTree
