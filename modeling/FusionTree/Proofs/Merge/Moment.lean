import FusionTree.Proofs.Merge.Source

/-!
# The moments of a run

A run that has got past everything before an include statement reaches the files that it names, one
after another. If it enters one, it visits another source, with one more file on the chain of those
that are being merged. What stops the source that is visited stops the run; and without other
languages every source that the run enters is visited.
-/

namespace FusionTree

open Merge

/-- The merge of the statements reaches a file that an include statement names, at any depth of
blocks, and has got past all that stands before. -/
inductive Context.Reaches (pattern : String) (span : Span) (file : Path) :
    Context → List Statement → Prop
  | here {ctx : Context} {before after : List Statement} {earlier later : List Path}
      {g h : Entries → Entries} (past : Performs (statements ctx before) () g)
      (resolved : ctx.resolver.resolve pattern ctx.file = .ok (earlier ++ file :: later))
      (pastFiles : Performs (includeFiles ctx pattern span earlier) () h) :
      Reaches pattern span file ctx (before ++ .inclusion pattern span :: after)
  | inBlock {ctx : Context} {before inner after : List Statement} {path : ObjectPath}
      {operation : Option Operation} {openBrace closeBrace : Span} {g h : Entries → Entries}
      (past : Performs (statements ctx before) () g)
      (pastObject : Performs (object ctx path operation) (ctx.blockPath ++ path.keys) h)
      (reaches : Reaches pattern span file (ctx.inBlock path operation) inner) :
      Reaches pattern span file ctx
        (before ++ .object path operation (some ⟨openBrace, inner, closeBrace⟩) :: after)

/-- At some moment of the run from the source another one is visited, which the files lead to, and
which may be followed as deep as is left. -/
inductive Merge.Visiting (resolver : Resolver) (dsl : DslRegistry) (depth : Nat) (src : Source) :
    Nat → Source → List Path → Prop
  | start : Visiting resolver dsl depth src depth src []
  | file {left : Nat} {holder : Source} {chain : List Path} {ss : List Statement}
      {pattern text : String} {span : Span} {file : Path}
      (visiting : Visiting resolver dsl depth src (left + 1) holder chain)
      (read : holder.statements? = some ss)
      (reaches : Context.Reaches pattern span file
        (Context.ofSource resolver dsl left holder chain) ss)
      (fresh : (chain ++ holder.path.toList).any (resolver.same · file) = false)
      (readable : resolver.read file = .ok text) :
      Visiting resolver dsl depth src left (Source.ofString text (some file))
        (chain ++ holder.path.toList)

namespace Merge

variable {ctx : Context} {pattern : String} {span : Span} {file : Path}

/-! ### One file -/

theorem includeFiles_append (ctx : Context) (pattern : String) (span : Span)
    (earlier later : List Path) :
    includeFiles ctx pattern span (earlier ++ later) =
      includeFiles ctx pattern span earlier >>= fun _ => includeFiles ctx pattern span later := by
  induction earlier with
  | nil => rfl
  | cons file rest ih =>
    rw [List.cons_append, includeFiles_cons, ih, includeFiles_cons, bind_assoc]

theorem stops_includeFile_of_enter {text : String} {stop : Stop}
    (other : ctx.file.any (ctx.resolver.same · file) = false)
    (fresh : ctx.chain.any (ctx.resolver.same · file) = false)
    (readable : ctx.resolver.read file = .ok text)
    (stops : Stops (ctx.enter (Source.ofString text (some file)) ctx.chain) stop) :
    Stops (includeFile ctx pattern span file) stop := by
  rw [includeFile, if_neg (by simp [other]), if_neg (by simp [fresh]), readable]
  exact (performs_note _).bind_stops stops

end Merge

/-! ### What stops the rest -/

/-- A file that is not on the chain of a source is not that of the source. -/
theorem Merge.not_own_of_fresh {resolver : Resolver} {holder : Source} {chain : List Path}
    {file : Path} (fresh : (chain ++ holder.path.toList).any (resolver.same · file) = false) :
    holder.path.any (resolver.same · file) = false := by
  cases own : holder.path with
  | none => rfl
  | some path => simp_all

/-- What stops the statements of a source stops the source. -/
theorem Merge.Stops.source {resolver : Resolver} {dsl : DslRegistry} {left : Nat} {holder : Source}
    {chain : List Path} {ss : List Statement} {stop : Stop} (read : holder.statements? = some ss)
    (h : Stops (statements (Context.ofSource resolver dsl left holder chain) ss) stop) :
    Stops (source resolver dsl (left + 1) holder chain) stop := by
  unfold Source.statements? at read
  split at read
  · rename_i document r parsed
    cases read
    rw [source_succ]
    exact (performs_parse parsed).bind_stops h
  · cases read

/-- What stops a file that the statements reach stops the statements. -/
theorem Context.Reaches.stops {ctx : Context} {pattern : String} {span : Span} {file : Path}
    {ss : List Statement} {stop : Stop} (reaches : Reaches pattern span file ctx ss)
    (h : Stops (includeFile ctx pattern span file) stop) : Stops (statements ctx ss) stop := by
  induction reaches with
  | @here ctx before after earlier later _ _ past resolved pastFiles =>
    have files : Stops (includeFiles ctx pattern span (earlier ++ file :: later)) stop := by
      rw [includeFiles_append, includeFiles_cons]
      exact pastFiles.bind_stops (h.bind _)
    have inclusion : Stops (inclusion ctx pattern span) stop := by
      rw [inclusion_eq, resolved]
      exact (performs_warning _ _).bind_stops files
    rw [statements_append, statements_inclusion]
    exact past.bind_stops (inclusion.bind _)
  | inBlock past pastObject _ ih =>
    rw [statements_append, statements_block]
    exact past.bind_stops (pastObject.bind_stops ((ih h).bind _))

namespace Merge.Visiting

variable {resolver : Resolver} {dsl : DslRegistry} {depth left : Nat} {src holder : Source}
  {chain : List Path} {stop : Stop}

/-- What stops a file that the visited source reaches stops its merge. -/
theorem stops_of_reaches {ss : List Statement} {pattern : String} {span : Span} {file : Path}
    (read : holder.statements? = some ss)
    (reaches : (Context.ofSource resolver dsl left holder chain).Reaches pattern span file ss)
    (h : Stops (includeFile (Context.ofSource resolver dsl left holder chain) pattern span file)
      stop) : Stops (source resolver dsl (left + 1) holder chain) stop :=
  .source read (reaches.stops h)

/-- What stops a visited source stops the run. -/
theorem stops (visiting : Visiting resolver dsl depth src left holder chain)
    (h : Stops (source resolver dsl left holder chain) stop) :
    Stops (source resolver dsl depth src []) stop := by
  induction visiting with
  | start => exact h
  | @file left holder chain ss pattern text span file visiting read reaches fresh readable ih =>
    have other := not_own_of_fresh fresh
    exact ih (stops_of_reaches read reaches (stops_includeFile_of_enter other fresh readable h))

end Merge.Visiting

/-! ### What a run enters -/

/-- The merge of the statements enters the source behind these files: it would do something else if
that source, and no other, were merged differently. -/
def Context.Enters (ctx : Context) (ss : List Statement) (next : Source) (files : List Path) :
    Prop :=
  ∃ enter : Source → List Path → Merge Unit,
    (∀ other chain, (other, chain) ≠ (next, files) → ctx.enter other chain = enter other chain) ∧
    statements { ctx with enter } ss ≠ statements ctx ss

/-- The run from the source enters another one at some moment, or begins with it. -/
inductive Merge.Entering (resolver : Resolver) (dsl : DslRegistry) (depth : Nat) (src : Source) :
    Nat → Source → List Path → Prop
  | start : Entering resolver dsl depth src depth src []
  | enter {left : Nat} {holder next : Source} {chain files : List Path} {ss : List Statement}
      (entering : Entering resolver dsl depth src (left + 1) holder chain)
      (read : holder.statements? = some ss)
      (enters : (Context.ofSource resolver dsl left holder chain).Enters ss next files) :
      Entering resolver dsl depth src left next files

def Context.EntersAlike (ctx : Context) (enter : Source → List Path → Merge Unit) (file : Path) :
    Prop :=
  ∀ text, ctx.chain.any (ctx.resolver.same · file) = false → ctx.resolver.read file = .ok text →
    ctx.enter (Source.ofString text (some file)) ctx.chain =
      enter (Source.ofString text (some file)) ctx.chain

/-- What is reached among some statements is reached behind others, if these are got past. -/
theorem Context.Reaches.behind {ctx : Context} {pattern : String} {span : Span} {file : Path}
    {first rest : List Statement} {g : Entries → Entries}
    (past : Performs (statements ctx first) () g) (reaches : Reaches pattern span file ctx rest) :
    Reaches pattern span file ctx (first ++ rest) := by
  have pastBoth {before : List Statement} {f : Entries → Entries}
      (pastBefore : Performs (statements ctx before) () f) :
      Performs (statements ctx (first ++ before)) () (f ∘ g) := by
    rw [statements_append]
    exact past.bind pastBefore
  cases reaches with
  | here pastBefore resolved pastFiles =>
    rw [← List.append_assoc]
    exact .here (pastBoth pastBefore) resolved pastFiles
  | inBlock pastBefore pastObject reaches =>
    rw [← List.append_assoc]
    exact .inBlock (pastBoth pastBefore) pastObject reaches

namespace Merge

section

variable {ctx : Context} {enter : Source → List Path → Merge Unit}

theorem includeFile_congr {file : Path} (alike : ctx.EntersAlike enter file) (pattern : String)
    (span : Span) :
    includeFile ctx pattern span file = includeFile { ctx with enter } pattern span file := by
  unfold includeFile
  split
  · rfl
  split
  · rfl
  rename_i fresh
  dsimp only
  split
  · rfl
  · rename_i text readable
    rw [alike text (eq_false_of_ne_true fresh) readable]

theorem includeFiles_congr (steady : ctx.Steady) {pattern : String} {span : Span}
    {files : List Path}
    (alike : ∀ earlier file later f, files = earlier ++ file :: later →
      Performs (includeFiles ctx pattern span earlier) () f → ctx.EntersAlike enter file) :
    includeFiles ctx pattern span files = includeFiles { ctx with enter } pattern span files := by
  induction files with
  | nil => rfl
  | cons file rest ih =>
    rw [includeFiles_cons, includeFiles_cons,
      ← includeFile_congr (alike [] file rest id rfl (performs_pure ()))]
    refine (steady_includeFile steady pattern span file).bind_congr fun _ g past => ih ?_
    intro earlier next later f eq pastEarlier
    refine alike (file :: earlier) next later (f ∘ g) (by rw [eq, List.cons_append]) ?_
    rw [includeFiles_cons]
    exact past.bind pastEarlier

theorem extend_congr (path : List String) (segments : List PathSegment) :
    extend ctx path segments = extend { ctx with enter } path segments := by
  induction segments generalizing path with
  | nil => rfl
  | cons segment rest ih =>
    have keys : keysOf ctx segment = keysOf { ctx with enter } segment := by
      cases segment <;> rfl
    simp only [extend, keys, ih]

theorem object_congr (noDsl : ∀ identifier, ctx.dsl.get? identifier = none) (path : ObjectPath)
    (operation : Option Operation) :
    object ctx path operation = object { ctx with enter } path operation := by
  have does (target : List String) : operateAny ctx path target operation =
      operateAny { ctx with enter } path target operation := by
    rcases operation with _ | value | span | source
    · rfl
    · cases value with
      | dsl identifier code span => simp [operateAny, operate, nodeOf, dslNode, noDsl]
      | _ => rfl
    · rfl
    · simp only [operateAny, operate, copy_eq, @extend_congr ctx enter]
  simp only [object_eq, @extend_congr ctx enter, does]

/-- Without other languages a merge of statements enters nothing but the files that it reaches: it
does not matter how anything else is merged. -/
theorem statements_congr_of_reaches {ss : List Statement} (steady : ctx.Steady)
    (noDsl : ∀ identifier, ctx.dsl.get? identifier = none)
    (alike : ∀ pattern span file, ctx.Reaches pattern span file ss → ctx.EntersAlike enter file) :
    statements ctx ss = statements { ctx with enter } ss := by
  induction ss using Statement.induction generalizing ctx with
  | nil => rw [statements_nil, statements_nil]
  | inclusion pattern span rest ih =>
    have files : inclusion ctx pattern span = inclusion { ctx with enter } pattern span := by
      rw [inclusion_eq, inclusion_eq]
      dsimp only
      split
      · rfl
      · rename_i files resolved
        rw [includeFiles_congr steady]
        intro earlier file later f eq past
        exact alike pattern span file (@Context.Reaches.here _ _ _ _ [] rest earlier later id f
          (performs_nothing ctx) (eq ▸ resolved) past)
    rw [statements_inclusion, statements_inclusion, ← files]
    refine (steady_inclusion steady pattern span).bind_congr fun _ g past => ih steady noDsl ?_
    have pastFirst : Performs (statements ctx [.inclusion pattern span]) () (id ∘ g) := by
      rw [statements_inclusion]
      exact past.bind (performs_nothing ctx)
    exact fun _ _ _ reaches => alike _ _ _ (reaches.behind pastFirst)
  | object path operation rest ih =>
    rw [statements_object, statements_object, ← @object_congr ctx enter noDsl]
    refine (steady_object steady path operation).bind_congr fun _ g past => ih steady noDsl ?_
    have pastFirst : Performs (statements ctx [.object path operation none]) () (id ∘ g) := by
      rw [statements_object]
      exact past.bind (performs_nothing ctx)
    exact fun _ _ _ reaches => alike _ _ _ (reaches.behind pastFirst)
  | block path operation openBrace inner closeBrace rest ihInner ih =>
    rw [statements_block, statements_block, ← @object_congr ctx enter noDsl]
    refine (steady_object steady path operation).bind_congr fun target g pastObject => ?_
    obtain ⟨-, rfl, -⟩ := (performs_object_iff steady).mp pastObject
    have inside : statements (ctx.inBlock path operation) inner =
        statements { ctx.inBlock path operation with enter } inner :=
      ihInner steady noDsl fun _ _ _ reaches =>
        alike _ _ _ (@Context.Reaches.inBlock _ _ _ _ [] inner rest path operation openBrace
          closeBrace id g (performs_nothing ctx) pastObject reaches)
    refine Eq.trans ?_ (congrArg (· >>= fun _ => statements { ctx with enter } rest) inside)
    refine (steady_statements (steady.inBlock path operation) inner).bind_congr fun _ h past =>
      ih steady noDsl ?_
    have pastFirst : Performs (statements ctx
        [.object path operation (some ⟨openBrace, inner, closeBrace⟩)]) () (h ∘ g) := by
      rw [statements_block]
      exact pastObject.bind (past.bind (performs_nothing ctx))
    exact fun _ _ _ reaches => alike _ _ _ (reaches.behind pastFirst)

end

end Merge

/-! ### Every source that a run enters is visited -/

/-- Without other languages, what statements enter is a file that they reach, which is not being
merged already. -/
theorem Context.Enters.exists_reaches {ctx : Context} {ss : List Statement} {next : Source}
    {files : List Path} (enters : ctx.Enters ss next files) (steady : ctx.Steady)
    (noDsl : ∀ identifier, ctx.dsl.get? identifier = none) :
    ∃ pattern span file text, ctx.Reaches pattern span file ss ∧
      ctx.chain.any (ctx.resolver.same · file) = false ∧ ctx.resolver.read file = .ok text ∧
      next = Source.ofString text (some file) ∧ files = ctx.chain := by
  obtain ⟨enter, others, differ⟩ := enters
  refine Classical.byContradiction fun unreached => ?_
  refine differ (statements_congr_of_reaches steady noDsl ?_).symm
  intro pattern span file reaches text fresh readable
  refine others _ _ fun same => unreached ?_
  obtain ⟨next_eq, files_eq⟩ := Prod.mk.inj same
  exact ⟨pattern, span, file, text, reaches, fresh, readable, next_eq.symm, files_eq.symm⟩

namespace Merge.Entering

variable {resolver : Resolver} {dsl : DslRegistry} {depth left : Nat} {src holder : Source}
  {chain : List Path}

theorem visiting (noDsl : ∀ identifier, dsl.get? identifier = none)
    (entering : Entering resolver dsl depth src left holder chain) :
    Visiting resolver dsl depth src left holder chain := by
  induction entering with
  | start => exact .start
  | @enter left holder next chain files ss _ read enters ih =>
    have steady := Context.steady_ofSource resolver dsl left holder chain
    obtain ⟨pattern, span, file, text, reaches, fresh, readable, rfl, rfl⟩ :=
      enters.exists_reaches steady noDsl
    exact .file ih read reaches fresh readable

end Merge.Entering

/-- A run ends for what stops its source. -/
theorem RunOptions.outcome_of_stops {options : RunOptions} {src : Source} {stop : Stop}
    (h : Stops (source options.resolver options.dsl options.depth src []) stop) :
    (options.runSource src).outcome = .error stop := by
  obtain ⟨s, hs⟩ := h {}
  rw [runSource, hs]

end FusionTree
