import FusionTree.Proofs.Merge.Reporting

/-!
# What sources perform

A source performs what its statements perform in a context of its own. Every source is steady and
reports what it stops for, at whatever depth, and going deeper never changes what a source performs,
so every context that a run makes is steady.
-/

namespace FusionTree

def Source.statements? (src : Source) : Option (List Statement) :=
  match src.parse with
  | .ok document _ => some document.statements
  | .error .. => none

theorem Source.allReadFrom_of_statements? {src : Source} {ss : List Statement}
    (h : src.statements? = some ss) : Statement.AllReadFrom src ss := by
  have faithful := src.parse_faithful
  unfold Source.statements? at h
  split at h
  · rename_i document r parsed
    rw [parsed] at faithful
    cases h
    exact faithful.2
  · cases h

def Context.ofSource (resolver : Resolver) (dsl : DslRegistry) (depth : Nat) (src : Source)
    (chain : List Path) : Context :=
  { resolver, dsl, enter := Merge.source resolver dsl depth
    file := src.path, chain := chain ++ src.path.toList }

namespace Merge

variable {resolver : Resolver} {dsl : DslRegistry}

theorem source_succ (depth : Nat) (src : Source) (chain : List Path) :
    source resolver dsl (depth + 1) src chain =
      parse src >>= fun document =>
        statements (Context.ofSource resolver dsl depth src chain) document.statements := rfl

theorem performs_parse {src : Source} {document : Document} {r : Reading}
    (h : src.parse = .ok document r) : Performs (parse src) document id := by
  intro s
  rw [parse, h]
  exact ⟨_, rfl⟩

theorem stops_parse {src : Source} {p : Problem} {r : Reading} (h : src.parse = .error p r) :
    Stops (parse src) (.problem p) := by
  intro s
  rw [parse, h]
  exact ⟨_, rfl⟩

/-- How the merge of a source comes to a problem: reading it does, or its statements do, or a source
that they lead to. -/
def Arises (resolver : Resolver) (dsl : DslRegistry) : (depth : Nat) → Source → List Path →
    Problem → Prop
  | 0, _, _, _ => False
  | depth + 1, src, chain, p =>
    (∃ s s', source resolver dsl (depth + 1) src chain s = .error (.problem p) s') ∧
      (Context.ofSource resolver dsl depth src chain).Blames src (Arises resolver dsl depth)
        (src.statements?.getD []) p

/-- A source reports exactly the problem that the merge comes to. -/
theorem reports_source (depth : Nat) (src : Source) (chain : List Path) :
    Reports (source resolver dsl depth src chain) (Arises resolver dsl depth src chain) := by
  induction depth generalizing src chain with
  | zero => exact reports_depthExceeded
  | succ depth ih =>
    have blames : Reports (source resolver dsl (depth + 1) src chain)
        ((Context.ofSource resolver dsl depth src chain).Blames src (Arises resolver dsl depth)
          (src.statements?.getD [])) := by
      rw [source_succ]
      refine ((reports_parse src).mono fun _ => .here).bind_of_ok fun s document s' ok => ?_
      have faithful := src.parse_faithful
      cases h : src.parse with
      | error e r =>
        rw [parse, h] at ok
        cases ok
      | ok read r =>
        rw [parse, h] at ok
        cases ok
        rw [h] at faithful
        rw [Source.statements?, h]
        exact reports_statements ih faithful.2
    exact blames.and_stops.mono fun p ⟨blame, stops⟩ => ⟨stops, blame⟩

theorem steady_source (depth : Nat) (src : Source) (chain : List Path) :
    Steady (source resolver dsl depth src chain) := by
  induction depth generalizing src chain with
  | zero => exact (stops_throw .depthExceeded).steady
  | succ depth ih =>
    rw [source_succ]
    refine Steady.bind ?_ fun document => ?_
    · cases h : src.parse with
      | ok document r => exact (performs_parse h).steady
      | error p r => exact (stops_parse h).steady
    · apply steady_statements
      exact fun src chain =>
        ⟨ih src chain, (reports_source depth src chain).mono fun _ _ => trivial⟩

end Merge

theorem Context.steady_ofSource (resolver : Resolver) (dsl : DslRegistry) (depth : Nat)
    (src : Source) (chain : List Path) :
    (Context.ofSource resolver dsl depth src chain).Steady := fun src chain =>
  ⟨Merge.steady_source depth src chain,
    (Merge.reports_source depth src chain).mono fun _ _ => trivial⟩

namespace Merge

variable {resolver : Resolver} {dsl : DslRegistry}

theorem performs_source_succ_iff {depth : Nat} {src : Source} {chain : List Path}
    {f : Entries → Entries} :
    Performs (source resolver dsl (depth + 1) src chain) () f ↔
      ∃ ss, src.statements? = some ss ∧
        Performs (statements (Context.ofSource resolver dsl depth src chain) ss) () f := by
  have steady (ss : List Statement) :=
    steady_statements (Context.steady_ofSource resolver dsl depth src chain) ss
  rw [source_succ, Source.statements?]
  cases h : src.parse with
  | ok document r =>
    rw [(performs_parse h).performs_bind_iff fun d => steady d.statements]
    simp
  | error p r =>
    simpa using ((stops_parse h).bind _).not_performs

variable {f : Entries → Entries}

/-! ### Going deeper -/

theorem Performs.source_succ {depth : Nat} {src : Source} {chain : List Path}
    (h : Performs (source resolver dsl depth src chain) () f) :
    Performs (source resolver dsl (depth + 1) src chain) () f := by
  induction depth generalizing src chain f with
  | zero => exact absurd h (stops_throw .depthExceeded).not_performs
  | succ depth ih =>
    obtain ⟨ss, read, performs⟩ := performs_source_succ_iff.mp h
    refine performs_source_succ_iff.mpr ⟨ss, read, ?_⟩
    exact performs.statements_of_extends
      (Context.steady_ofSource resolver dsl depth src chain)
      (Context.steady_ofSource resolver dsl (depth + 1) src chain)
      ⟨rfl, rfl, rfl, rfl, fun _ _ _ => ih⟩ rfl rfl

/-- What a source performs does not depend on how deep it may go, once that is deep enough. -/
theorem Performs.source_of_le {depth depth' : Nat} {src : Source} {chain : List Path}
    (h : Performs (source resolver dsl depth src chain) () f) (le : depth ≤ depth') :
    Performs (source resolver dsl depth' src chain) () f := by
  induction le with
  | refl => exact h
  | step _ ih => exact ih.source_succ

end Merge

/-- What makes the tree of a successful run: the merge of its source, and then the linking of
prototypes if that is asked for. -/
theorem RunOptions.exists_of_runSource {options : RunOptions} {src : Source} {tree : Entries}
    (h : (options.runSource src).outcome = .ok tree) :
    ∃ s, Merge.source options.resolver options.dsl options.depth src [] {} = .ok () s ∧
      (if options.buildHierarchy then s.tree.linkPrototypes else .ok s.tree) = .ok tree := by
  unfold RunOptions.runSource at h
  split at h
  · cases h
  · rename_i s merged
    refine ⟨s, merged, ?_⟩
    split at h
    · rename_i linked hl
      cases h
      exact hl
    · cases h

theorem RunOptions.outcome_of_performs {options : RunOptions} {src : Source}
    {f : Entries → Entries}
    (h : Merge.Performs (Merge.source options.resolver options.dsl options.depth src []) () f)
    {tree : Entries}
    (linked : (if options.buildHierarchy then (f []).linkPrototypes else .ok (f [])) = .ok tree) :
    (options.runSource src).outcome = .ok tree := by
  obtain ⟨j, run⟩ := h {}
  simp only [runSource, run, linked]

theorem RunOptions.exists_of_isOk {options : RunOptions} {src : Source}
    (h : (options.runSource src).outcome.isOk = true) :
    ∃ tree, (options.runSource src).outcome = .ok tree := by
  cases ho : (options.runSource src).outcome with
  | ok tree => exact ⟨tree, rfl⟩
  | error stop => rw [ho] at h; cases h

/-- A run that shows something at a path is accepted. -/
theorem RunOptions.exists_of_shown {options : RunOptions} {src : Source} {path : List String}
    (h : ((options.runSource src).outcome.toOption.bind (·.getPath? path)).isSome = true) :
    ∃ tree, (options.runSource src).outcome = .ok tree ∧ (tree.getPath? path).isSome = true := by
  cases ho : (options.runSource src).outcome with
  | ok tree =>
    rw [ho] at h
    exact ⟨tree, rfl, h⟩
  | error stop =>
    rw [ho] at h
    cases h

end FusionTree
