import FusionTree.Proofs.Merge.Source

/-!
# How runs fail

A run that gives a tree has reported no problem, and one that fails has reported exactly the problem
it fails for. Unless the entry file cannot be read or the prototypes cannot be linked, the problem
has its place in a source that the run visits: the one it starts from, or a file that include
statements lead to. The output of a DSL is no such source; what is wrong there is a problem of the
expression.
-/

namespace FusionTree

namespace Merge

variable {resolver : Resolver} {dsl : DslRegistry}

/-- The place of a problem that a merge comes to is a range of the source that it names. -/
theorem Arises.liesIn {depth : Nat} {src : Source} {chain : List Path} {p : Problem}
    (h : Arises resolver dsl depth src chain p) : p.span.LiesIn p.span.source := by
  induction depth generalizing src chain p with
  | zero => cases h
  | succ depth ih =>
    cases h.2 with
    | here own => rw [own.1.source_eq]; exact own.1
    | included _ _ _ _ problem => exact ih problem
    | output _ place => rw [place.source_eq]; exact place

/-- The problem that the output of a DSL comes to is one of the expression. -/
theorem Stops.nodeOf_dsl {ctx : Context} {identifier code text : String} {span : Span}
    {transpiler : Transpiler} {inner : Problem} (steady : ctx.Steady)
    (registered : ctx.dsl.get? identifier = some transpiler)
    (transpiled : transpiler code = .ok text)
    (h : Stops (ctx.enter (Source.ofString ("value = " ++ text) none) ctx.chain)
      (.problem inner)) :
    Stops (nodeOf ctx (.dsl identifier code span))
      (.problem ⟨.invalidDslOutput identifier inner.cause inner.span, span⟩) := by
  have stops : Stops (outputValue ctx identifier text span) _ :=
    (h.apart (steady _ _).2).bind_stops (stops_fail _ span)
  simp only [nodeOf, dslNode, registered, transpiled]
  exact (performs_record _).bind_stops ((performs_note _).bind_stops stops)

/-- An expression goes too deep where its output does. -/
theorem Stops.nodeOf_dsl_deep {ctx : Context} {identifier code text : String} {span : Span}
    {transpiler : Transpiler} (steady : ctx.Steady)
    (registered : ctx.dsl.get? identifier = some transpiler)
    (transpiled : transpiler code = .ok text)
    (h : Stops (ctx.enter (Source.ofString ("value = " ++ text) none) ctx.chain) .depthExceeded) :
    Stops (nodeOf ctx (.dsl identifier code span)) .depthExceeded := by
  have stops : Stops (outputValue ctx identifier text span) .depthExceeded :=
    (h.apart (steady _ _).2).bind_stops (stops_throw .depthExceeded)
  simp only [nodeOf, dslNode, registered, transpiled]
  exact (performs_record _).bind_stops ((performs_note _).bind_stops stops)

end Merge

theorem Entries.recursive_of_linkPrototypes {es : Entries} {p : Problem}
    (h : es.linkPrototypes = .error p) :
    ∃ name walk, p = ⟨.recursiveInheritance name walk, Span.dummy⟩ := by
  unfold linkPrototypes at h
  split at h
  · split at h
    · rename_i name walk _
      exact ⟨name, walk, (Except.error.inj h).symm⟩
    · cases h
  · cases h

/-- The run gives a tree and has reported nothing; or it fails for a problem that has the property
and has reported just that. Either way whoever asks for a tree or the first problem is answered. -/
def RunResult.ReportsOne (result : RunResult) (B : Problem → Prop) : Prop :=
  match result.outcome with
  | .ok tree => result.journal.problems = [] ∧ result.settled? = some (.ok tree)
  | .error (.problem p) =>
    result.journal.problems = [p] ∧ result.settled? = some (.error p) ∧ B p
  | .error .depthExceeded => result.journal.problems = []

theorem RunResult.ReportsOne.mono {result : RunResult} {B C : Problem → Prop}
    (h : result.ReportsOne B) (imp : ∀ p, B p → C p) : result.ReportsOne C := by
  unfold ReportsOne at h ⊢
  split
  · rename_i tree gives
    rwa [gives] at h
  · rename_i p fails
    rw [fails] at h
    exact ⟨h.1, h.2.1, imp p h.2.2⟩
  · rename_i deep
    rwa [deep] at h

namespace RunOptions

/-- The prototypes cannot be linked; or the merge of the source comes to the problem, whose place is
a range of the source that it names. -/
def Explains (options : RunOptions) (src : Source) (p : Problem) : Prop :=
  (∃ name walk, p = ⟨.recursiveInheritance name walk, Span.dummy⟩) ∨
    (p.span.LiesIn p.span.source ∧
      Merge.Arises options.resolver options.dsl options.depth src [] p)

theorem reportsOne_failed {p : Problem} {j : Journal} {B : Problem → Prop} (h : B p)
    (silent : j.problems = []) : (RunResult.failed p j).ReportsOne B := by
  have reported : (j.report p).problems = [p] := by simp [Journal.report, silent]
  refine ⟨reported, ?_, h⟩
  simp only [RunResult.failed, RunResult.settled?, reported]

theorem reportsOne_runSource (options : RunOptions) (src : Source) :
    (options.runSource src).ReportsOne (options.Explains src) := by
  have reports : Merge.Reports (Merge.source options.resolver options.dsl options.depth src []) _ :=
    Merge.reports_source options.depth src []
  have accounted := reports {}
  unfold runSource
  split
  · rename_i stop s merged
    rw [merged] at accounted
    obtain ⟨reported, blame⟩ := accounted
    cases stop with
    | depthExceeded => exact reported
    | problem p =>
      have arises := blame p (by simp [Stop.problems])
      have reported : s.journal.problems = [p] := reported
      refine ⟨reported, ?_, .inr ⟨arises.liesIn, arises⟩⟩
      simp only [RunResult.settled?, reported]
  · rename_i s merged
    rw [merged] at accounted
    have silent : s.journal.problems = [] := accounted
    split
    · refine ⟨silent, ?_⟩
      simp only [RunResult.settled?, silent]
    · rename_i p linked
      refine reportsOne_failed (.inl ?_) silent
      split at linked
      · exact Entries.recursive_of_linkPrototypes linked
      · cases linked

end RunOptions

end FusionTree
