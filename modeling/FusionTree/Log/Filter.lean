import FusionTree.Log.Directive

/-!
# Log filters

A filter says which records are shown. It is a list of directives, written between commas; the most
specific one that concerns a record decides.
-/

namespace FusionTree.Log

/-- The directives of a filter, in order. What no directive concerns does not pass. -/
structure Filter where
  directives : List Directive
deriving Repr, DecidableEq

namespace Filter

def upTo (threshold : Nat) : Filter :=
  ⟨[{ threshold }]⟩

def ofLevel (level : Level) : Filter :=
  upTo level.detail

/-- The directive that decides on a record; of equally specific ones the last. -/
def decisive? (f : Filter) (r : Record) : Option Directive :=
  (f.directives.filter (·.concerns r)).foldl (fun best d =>
    match best with
    | some b => if d.refines b then some d else some b
    | none => some d) none

def admits (f : Filter) (r : Record) : Bool :=
  match f.decisive? r with
  | some d => r.level.detail ≤ d.threshold
  | none => false

/-- Reads the text of a filter. Empty pieces between commas are skipped. -/
def ofString? (s : String) : Option Filter := do
  let directives ← ((s.splitOn ",").filter (· ≠ "")).mapM Directive.ofString?
  return ⟨directives⟩

/-- The filter of a run. Asking for detail wins over silence, and silence over the text of a
filter; without any of them, or with a text that is no filter, information passes. -/
def choose (verbosity : Nat) (silent : Bool) (text : Option String) : Filter :=
  match verbosity, silent with
  | 0, true => upTo 0
  | 0, false => (text.bind ofString?).getD (ofLevel .info)
  | 1, _ => ofLevel .debug
  | _, _ => ofLevel .trace

end Filter

end FusionTree.Log
