import FusionTree.Problem.Basic

/-!
# Embedded languages

A registry holds a transpiler for each DSL by its identifier. A transpiler turns code into the text
of a value.
-/

namespace FusionTree

/-- Turns the code of a DSL into the text of a value, or says why it cannot. -/
abbrev Transpiler := String → Except String String

structure DslRegistry where
  transpilers : List (String × Transpiler) := []

namespace DslRegistry

/-- Adds a transpiler, in place of an earlier one of the same identifier. -/
def register (r : DslRegistry) (identifier : String) (t : Transpiler) : DslRegistry :=
  { r with transpilers := (identifier, t) :: r.transpilers.filter (·.1 ≠ identifier) }

def get? (r : DslRegistry) (identifier : String) : Option Transpiler :=
  r.transpilers.lookup identifier

end DslRegistry

end FusionTree
