import FusionTree.Proofs.Merge.Failure
import FusionTree.Proofs.Merge.Moment

/-!
# Arrivals

A place in a source is an object statement together with the blocks around it, which are those of
statements further out. A merge arrives there when it has got past all that stands before: at every
level the statements that come first, and path and operation of the statements whose blocks it goes
into. What stops the statement then stops the merge of the source. Conversely a merge of statements
stops at such a place or at an include statement that it reaches.

From the places where it arrives a run enters further sources: the files of an include statement,
and the output of a DSL. Each begins outside of all blocks. What stops an included file stops the
run as it is, and the problem of an output is seen as one of the expression.
-/

namespace FusionTree

open Merge

/-! ### Places -/

/-- A block around a place: the statement that it belongs to, and the statements beside that. -/
structure EnclosingBlock where
  before : List Statement
  path : ObjectPath
  operation : Option Operation
  openBrace : Span
  closeBrace : Span
  after : List Statement

def EnclosingBlock.around (b : EnclosingBlock) (inner : List Statement) : List Statement :=
  b.before ++ .object b.path b.operation (some ⟨b.openBrace, inner, b.closeBrace⟩) :: b.after

/-- An object statement in a source, and everything around it. -/
structure Place where
  /-- The outermost block comes first. -/
  blocks : List EnclosingBlock
  before : List Statement
  path : ObjectPath
  operation : Option Operation
  block : Option (Block Statement)
  after : List Statement

namespace Place

def level (place : Place) : List Statement :=
  place.before ++ .object place.path place.operation place.block :: place.after

def statements (place : Place) : List Statement :=
  place.blocks.foldr EnclosingBlock.around place.level

end Place

namespace Context

def inBlocks (ctx : Context) (blocks : List EnclosingBlock) : Context :=
  blocks.foldl (fun ctx b => ctx.inBlock b.path b.operation) ctx

/-- The merge gets into the blocks, one inside the other. -/
def GetsInto (ctx : Context) : List EnclosingBlock → Prop
  | [] => True
  | b :: inner =>
    (∃ f, Performs (Merge.statements ctx b.before) () f) ∧
    (∃ f, Performs (object ctx b.path b.operation) (ctx.blockPath ++ b.path.keys) f) ∧
    (ctx.inBlock b.path b.operation).GetsInto inner

/-- The merge gets past everything before the statement of the place. -/
structure ArrivesAt (ctx : Context) (place : Place) : Prop where
  inside : ctx.GetsInto place.blocks
  past : ∃ f, Performs (Merge.statements (ctx.inBlocks place.blocks) place.before) () f

variable {ctx : Context}

theorem Steady.inBlocks (steady : ctx.Steady) (blocks : List EnclosingBlock) :
    (ctx.inBlocks blocks).Steady := by
  induction blocks generalizing ctx with
  | nil => exact steady
  | cons b inner ih => exact ih (steady.inBlock b.path b.operation)

/-- Blocks change the context in their paths and in the flag only. All paths add up, and the flag is
that of the innermost block. -/
theorem inBlocks_eq (ctx : Context) (blocks : List EnclosingBlock) :
    ctx.inBlocks blocks = { ctx with
      blockPath := ctx.blockPath ++ blocks.flatMap (·.path.keys)
      inPrototype := blocks.getLast?.elim ctx.inPrototype fun b =>
        isRootPrototypeDeclaration b.path b.operation } := by
  induction blocks generalizing ctx with
  | nil => simp [inBlocks]
  | cons b inner ih =>
    have step : ctx.inBlocks (b :: inner) = (ctx.inBlock b.path b.operation).inBlocks inner := rfl
    rw [step, ih]
    cases inner with
    | nil => simp [inBlock]
    | cons c more => simp [inBlock, List.getLast?_cons]

/-- What stops the statements in the innermost block stops all. -/
theorem GetsInto.stops {blocks : List EnclosingBlock} {inner : List Statement} {stop : Stop}
    (inside : ctx.GetsInto blocks)
    (h : Stops (Merge.statements (ctx.inBlocks blocks) inner) stop) :
    Stops (Merge.statements ctx (blocks.foldr EnclosingBlock.around inner)) stop := by
  induction blocks generalizing ctx with
  | nil => exact h
  | cons b more ih =>
    obtain ⟨⟨_, past⟩, ⟨_, pastObject⟩, inside⟩ := inside
    have block : Stops (Merge.statements (ctx.inBlock b.path b.operation) _) stop := ih inside h
    rw [List.foldr_cons, EnclosingBlock.around, statements_append, statements_block]
    exact past.bind_stops (pastObject.bind_stops (block.bind _))

theorem stops_statements_of_object {path : ObjectPath} {operation : Option Operation} {stop : Stop}
    (h : Stops (object ctx path operation) stop) (block : Option (Block Statement))
    (after : List Statement) :
    Stops (Merge.statements ctx (.object path operation block :: after)) stop := by
  cases block with
  | none =>
    rw [statements_object]
    exact h.bind _
  | some block =>
    obtain ⟨openBrace, inner, closeBrace⟩ := block
    rw [statements_block]
    exact h.bind _

/-- What stops the statement of a place where the merge arrives stops all. -/
theorem ArrivesAt.stops {place : Place} {stop : Stop} (arrives : ctx.ArrivesAt place)
    (h : Stops (object (ctx.inBlocks place.blocks) place.path place.operation) stop) :
    Stops (Merge.statements ctx place.statements) stop := by
  obtain ⟨_, past⟩ := arrives.past
  refine arrives.inside.stops ?_
  rw [Place.level, statements_append]
  exact past.bind_stops (stops_statements_of_object h _ _)

/-- Where all statements are accepted, the merge gets into any of the blocks. -/
theorem GetsInto.of_performs {blocks : List EnclosingBlock} {inner : List Statement}
    {f : Entries → Entries} (steady : ctx.Steady)
    (h : Performs (Merge.statements ctx (blocks.foldr EnclosingBlock.around inner)) () f) :
    ctx.GetsInto blocks ∧ ∃ g, Performs (Merge.statements (ctx.inBlocks blocks) inner) () g := by
  induction blocks generalizing ctx f with
  | nil => exact ⟨trivial, f, h⟩
  | cons b more ih =>
    rw [List.foldr_cons, EnclosingBlock.around, performs_statements_append_iff steady] at h
    obtain ⟨g, _, past, rest, -⟩ := h
    obtain ⟨allowed, _, _, _, does, block, -⟩ := (performs_statements_block_iff steady).mp rest
    obtain ⟨inside, performs⟩ := ih (steady.inBlock b.path b.operation) block
    exact ⟨⟨⟨g, past⟩, ⟨_, (performs_object_iff steady).mpr ⟨allowed, rfl, does⟩⟩, inside⟩,
      performs⟩

/-- Where all statements are accepted, the merge arrives at any of them, and accepts it. -/
theorem ArrivesAt.of_performs {place : Place} {f : Entries → Entries} (steady : ctx.Steady)
    (h : Performs (Merge.statements ctx place.statements) () f) :
    ctx.ArrivesAt place ∧
      place.path.Allowed (ctx.inBlocks place.blocks).inPrototype ∧
      Operation.Allowed (ctx.inBlocks place.blocks).inPrototype place.operation := by
  obtain ⟨inside, g, level⟩ := GetsInto.of_performs steady h
  have steadyInside := steady.inBlocks place.blocks
  obtain ⟨_, _, past, rest, -⟩ := (performs_statements_append_iff steadyInside).mp level
  refine ⟨⟨inside, _, past⟩, ?_⟩
  cases block : place.block with
  | none =>
    rw [block, performs_statements_object_iff steadyInside] at rest
    obtain ⟨allowed, _, _, does, -⟩ := rest
    exact ⟨allowed, does.allowed⟩
  | some =>
    rw [block, performs_statements_block_iff steadyInside] at rest
    obtain ⟨allowed, _, _, _, does, -⟩ := rest
    exact ⟨allowed, does.allowed⟩

end Context

/-- Where a source is accepted, the merge arrives at all of its statements, and their segments are
allowed. -/
theorem Merge.Performs.allowed_of_read {resolver : Resolver} {dsl : DslRegistry} {depth : Nat}
    {holder : Source} {chain : List Path} {f : Entries → Entries} {place : Place}
    (h : Performs (source resolver dsl depth holder chain) () f)
    (read : holder.statements? = some place.statements) :
    ∃ left, depth = left + 1 ∧ (Context.ofSource resolver dsl left holder chain).ArrivesAt place ∧
      ∀ segment : PathSegment, (segment ∈ place.path.segments ∨
          ∃ copied, place.operation = some (.copy copied) ∧ segment ∈ copied.path.segments) →
        segment.Allowed ((Context.ofSource resolver dsl left holder chain).inBlocks
          place.blocks).inPrototype := by
  cases depth with
  | zero => exact absurd h (stops_throw .depthExceeded).not_performs
  | succ left =>
    obtain ⟨ss, read', performs⟩ := performs_source_succ_iff.mp h
    obtain rfl : place.statements = ss := Option.some.inj (read.symm.trans read')
    have steady := Context.steady_ofSource resolver dsl left holder chain
    obtain ⟨arrives, path, operation⟩ := Context.ArrivesAt.of_performs steady performs
    refine ⟨left, rfl, arrives, ?_⟩
    rintro segment (mem | ⟨copied, eq, mem⟩)
    · exact path segment mem
    · rw [eq] at operation
      exact operation segment mem

/-! ### Where merges stop -/

/-- How a merge of statements stops: at a statement about an object path, at a file that it reaches,
or at a pattern that cannot be resolved. -/
inductive Context.StopsAt (ctx : Context) (stop : Stop) (ss : List Statement) : Prop
  | object {place : Place} (eq : place.statements = ss) (arrives : ctx.ArrivesAt place)
      (stops : Stops (object (ctx.inBlocks place.blocks) place.path place.operation) stop)
  | file {pattern : String} {span : Span} {file : Path}
      (reaches : Context.Reaches pattern span file ctx ss)
      (stops : Stops (includeFile ctx pattern span file) stop)
  | pattern {pattern : String} {error : IncludeError} {span : Span}
      (eq : stop = .problem ⟨.unresolvedInclude pattern error, span⟩)

namespace Merge

variable {ctx : Context} {stop : Stop} {f : Entries → Entries}

/-- One of the files of an include statement stops it, after those before it have been merged. -/
theorem exists_of_stops_includeFiles (steady : ctx.Steady) {pattern : String} {span : Span}
    {files : List Path} (h : Stops (includeFiles ctx pattern span files) stop) :
    ∃ earlier file later g, files = earlier ++ file :: later ∧
      Performs (includeFiles ctx pattern span earlier) () g ∧
      Stops (includeFile ctx pattern span file) stop := by
  induction files with
  | nil => exact absurd (performs_pure ()) h.not_performs
  | cons file rest ih =>
    rw [includeFiles_cons, stops_bind_iff (steady_includeFile steady pattern span file) fun _ =>
      steady_includeFiles steady pattern span rest] at h
    rcases h with h | ⟨⟨⟩, g, past, h⟩
    · exact ⟨[], file, rest, id, rfl, performs_pure (), h⟩
    · obtain ⟨earlier, other, later, g', rfl, past', stops⟩ := ih h
      refine ⟨file :: earlier, other, later, g' ∘ g, rfl, ?_, stops⟩
      exact (performs_includeFiles_cons_iff steady).mpr ⟨g, g', past, past', rfl⟩

theorem stopsAt_of_inclusion (steady : ctx.Steady) {before after : List Statement}
    {pattern : String} {span : Span} (past : Performs (statements ctx before) () f)
    (h : Stops (inclusion ctx pattern span) stop) :
    ctx.StopsAt stop (before ++ .inclusion pattern span :: after) := by
  rw [inclusion_eq] at h
  cases resolved : ctx.resolver.resolve pattern ctx.file with
  | error error =>
    rw [resolved] at h
    exact .pattern (h.unique (stops_fail _ _))
  | ok files =>
    rw [resolved] at h
    obtain ⟨earlier, file, later, g, rfl, pastFiles, stops⟩ := exists_of_stops_includeFiles steady
      (h.behind (performs_warning _ _) (steady_includeFiles steady pattern span files))
    exact .file (.here past resolved pastFiles) stops

/-- What stops a merge inside a block stops it there from outside. -/
theorem stopsAt_inBlock {before inner after : List Statement} {path : ObjectPath}
    {operation : Option Operation} {openBrace closeBrace : Span} {g : Entries → Entries}
    (past : Performs (statements ctx before) () f)
    (pastObject : Performs (object ctx path operation) (ctx.blockPath ++ path.keys) g)
    (h : (ctx.inBlock path operation).StopsAt stop inner) :
    ctx.StopsAt stop
      (before ++ .object path operation (some ⟨openBrace, inner, closeBrace⟩) :: after) := by
  cases h with
  | @object place eq arrives stops =>
    let outer : EnclosingBlock := ⟨before, path, operation, openBrace, closeBrace, after⟩
    refine @Context.StopsAt.object _ _ _ { place with blocks := outer :: place.blocks } ?_
      ⟨⟨⟨_, past⟩, ⟨_, pastObject⟩, arrives.inside⟩, arrives.past⟩ stops
    rw [← eq]
    rfl
  | file reaches stops => exact .file (.inBlock past pastObject reaches) stops
  | pattern eq => exact .pattern eq

/-- What stops a statement without a block stops what it says about its path. -/
theorem stops_object_of_statement (steady : ctx.Steady) {path : ObjectPath}
    {operation : Option Operation} (h : Stops (statement ctx (.object path operation none)) stop) :
    Stops (object ctx path operation) stop := by
  rw [← statements_singleton, statements_object] at h
  exact h.before (steady_object steady _ _) fun _ => ⟨_, _, performs_nothing ctx⟩

/-- What stops a statement with a block stops what it says about its path, or its block. -/
theorem stops_of_block (steady : ctx.Steady) {path : ObjectPath} {operation : Option Operation}
    {openBrace closeBrace : Span} {inner : List Statement}
    (h : Stops (statement ctx (.object path operation (some ⟨openBrace, inner, closeBrace⟩)))
      stop) :
    Stops (object ctx path operation) stop ∨
      (∃ g, Performs (object ctx path operation) (ctx.blockPath ++ path.keys) g) ∧
        Stops (statements (ctx.inBlock path operation) inner) stop := by
  have steadyInner (target : List String) : Steady (statements { ctx with
      blockPath := target
      inPrototype := isRootPrototypeDeclaration path operation } inner) := by
    apply steady_statements
    exact steady
  rw [← statements_singleton, statements_block, stops_bind_iff (steady_object steady _ _)
    fun target => (steadyInner target).bind fun _ => steady_statements steady []] at h
  refine h.imp_right fun ⟨target, g, performs, h⟩ => ?_
  obtain ⟨_, rfl, _⟩ := (performs_object_iff steady).mp performs
  exact ⟨⟨g, performs⟩, h.before (steadyInner _) fun _ => ⟨_, _, performs_nothing ctx⟩⟩

/-- The first of the statements stops the merge, or it comes to stand before the rest. -/
theorem stops_statement_or_rest (steady : ctx.Steady) {before rest : List Statement} {s : Statement}
    (past : Performs (statements ctx before) () f) (h : Stops (statements ctx (s :: rest)) stop) :
    Stops (statement ctx s) stop ∨ (∃ g, Performs (statements ctx (before ++ [s])) () g) ∧
      Stops (statements ctx rest) stop := by
  rw [statements, stops_bind_iff (steady_statement steady s) fun _ =>
    steady_statements steady rest] at h
  rcases h with h | ⟨⟨⟩, g, pastStatement, h⟩
  · exact .inl h
  · rw [← statements_singleton] at pastStatement
    have pastBoth := (performs_statements_append_iff steady).mpr ⟨f, g, past, pastStatement, rfl⟩
    exact .inr ⟨⟨_, pastBoth⟩, h⟩

/-- Whatever stops a merge stops it somewhere, behind all that it has got past. -/
theorem stopsAt_of_stops (steady : ctx.Steady) {before ss : List Statement}
    (past : Performs (statements ctx before) () f)
    (h : Stops (statements ctx ss) stop) : ctx.StopsAt stop (before ++ ss) := by
  induction ss using Statement.induction generalizing ctx before f with
  | nil => exact absurd (performs_nothing ctx) h.not_performs
  | inclusion pattern span rest ih =>
    rcases stops_statement_or_rest steady past h with h | ⟨⟨_, past⟩, h⟩
    · rw [statement] at h
      exact stopsAt_of_inclusion steady past h
    · simpa using ih steady past h
  | object path operation rest ih =>
    rcases stops_statement_or_rest steady past h with h | ⟨⟨_, past⟩, h⟩
    · exact @Context.StopsAt.object _ _ _ ⟨[], before, path, operation, none, rest⟩ rfl
        ⟨trivial, _, past⟩ (stops_object_of_statement steady h)
    · simpa using ih steady past h
  | block path operation openBrace inner closeBrace rest ihInner ih =>
    rcases stops_statement_or_rest steady past h with h | ⟨⟨_, past⟩, h⟩
    · rcases stops_of_block steady h with h | ⟨⟨_, pastObject⟩, h⟩
      · exact @Context.StopsAt.object _ _ _
          ⟨[], before, path, operation, some ⟨openBrace, inner, closeBrace⟩, rest⟩ rfl
          ⟨trivial, _, past⟩ h
      · exact stopsAt_inBlock past pastObject
          (ihInner (steady.inBlock path operation) (performs_nothing _) h)
    · simpa using ih steady past h

end Merge

/-! ### Sources that a run enters -/

/-- How a problem of the output of a DSL expression is seen from outside. -/
def Problem.ofOutput (identifier : String) (span : Span) (p : Problem) : Problem :=
  ⟨.invalidDslOutput identifier p.cause p.span, span⟩

/-- How a stop in an inner source is seen from outside, if problems there are seen so. -/
def Stop.seenBy (seen : Problem → Problem) : Stop → Stop
  | .problem p => .problem (seen p)
  | .depthExceeded => .depthExceeded

theorem Stop.seenBy_id (stop : Stop) : stop.seenBy id = stop := by
  cases stop <;> rfl

theorem Stop.seenBy_comp (outer inner : Problem → Problem) (stop : Stop) :
    stop.seenBy (outer ∘ inner) = (stop.seenBy inner).seenBy outer := by
  cases stop <;> rfl

/-- In the course of the run from the source another one is entered, which the files lead to, and
which may be followed as deep as is left. The function tells how the run sees the problems of that
source. -/
inductive Merge.Entered (resolver : Resolver) (dsl : DslRegistry) (depth : Nat) (src : Source) :
    Nat → Source → List Path → (Problem → Problem) → Prop
  | start : Entered resolver dsl depth src depth src [] id
  | file {left : Nat} {holder : Source} {chain : List Path} {seen : Problem → Problem}
      {ss : List Statement} {pattern text : String} {span : Span} {file : Path}
      (entered : Entered resolver dsl depth src (left + 1) holder chain seen)
      (read : holder.statements? = some ss)
      (reaches : Context.Reaches pattern span file
        (Context.ofSource resolver dsl left holder chain) ss)
      (fresh : (chain ++ holder.path.toList).any (resolver.same · file) = false)
      (readable : resolver.read file = .ok text) :
      Entered resolver dsl depth src left (Source.ofString text (some file))
        (chain ++ holder.path.toList) seen
  | output {left : Nat} {holder : Source} {chain : List Path} {seen : Problem → Problem}
      {place : Place} {target : List String} {identifier code text : String} {span : Span}
      {transpiler : Transpiler}
      (entered : Entered resolver dsl depth src (left + 1) holder chain seen)
      (read : holder.statements? = some place.statements)
      (arrives : (Context.ofSource resolver dsl left holder chain).ArrivesAt place)
      (accepted : let ctx := (Context.ofSource resolver dsl left holder chain).inBlocks place.blocks
        Performs (extend ctx ctx.blockPath place.path.segments) target id)
      (assigns : place.operation = some (.assign (.dsl identifier code span)))
      (registered : dsl.get? identifier = some transpiler)
      (transpiled : transpiler code = .ok text) :
      Entered resolver dsl depth src left (Source.ofString ("value = " ++ text) none)
        (chain ++ holder.path.toList) (seen ∘ Problem.ofOutput identifier span)

namespace Merge

variable {resolver : Resolver} {dsl : DslRegistry} {depth left : Nat} {src holder : Source}
  {chain : List Path} {seen : Problem → Problem}

theorem Stops.object {ctx : Context} {path : ObjectPath} {operation : Option Operation}
    {target : List String} {stop : Stop}
    (accepted : Performs (extend ctx ctx.blockPath path.segments) target id)
    (h : Stops (operateAny ctx path target operation) stop) :
    Stops (object ctx path operation) stop := by
  rw [object_eq]
  exact accepted.bind_stops ((performs_note _).bind_stops (h.bind _))

theorem Stops.nodeOf_output {ctx : Context} {identifier code text : String} {span : Span}
    {transpiler : Transpiler} {stop : Stop} (steady : ctx.Steady)
    (registered : ctx.dsl.get? identifier = some transpiler)
    (transpiled : transpiler code = .ok text)
    (h : Stops (ctx.enter (Source.ofString ("value = " ++ text) none) ctx.chain) stop) :
    Stops (nodeOf ctx (.dsl identifier code span)) (stop.seenBy (.ofOutput identifier span)) := by
  cases stop with
  | problem p => exact h.nodeOf_dsl steady registered transpiled
  | depthExceeded => exact h.nodeOf_dsl_deep steady registered transpiled

/-- What stops a source which the run enters stops the run, as the run sees it. -/
theorem Entered.stops {stop : Stop}
    (entered : Entered resolver dsl depth src left holder chain seen)
    (h : Stops (source resolver dsl left holder chain) stop) :
    Stops (source resolver dsl depth src []) (stop.seenBy seen) := by
  induction entered generalizing stop with
  | start => rwa [Stop.seenBy_id]
  | @file left holder chain seen ss pattern text span file entered read reaches fresh readable ih =>
    have other := not_own_of_fresh fresh
    exact ih (.source read (reaches.stops (stops_includeFile_of_enter other fresh readable h)))
  | @output left holder chain seen place target identifier code text span transpiler entered read
      arrives accepted assigns registered transpiled ih =>
    have steady := (Context.steady_ofSource resolver dsl left holder chain).inBlocks place.blocks
    rw [Stop.seenBy_comp]
    refine ih (.source read (arrives.stops (Stops.object accepted ?_)))
    rw [Context.inBlocks_eq] at steady ⊢
    have value : Stops (nodeOf _ (.dsl identifier code span)) _ :=
      Stops.nodeOf_output steady registered transpiled h
    rw [assigns]
    exact value.bind _

/-- An accepted run accepts every source that it enters. -/
theorem Entered.performs {f : Entries → Entries}
    (entered : Entered resolver dsl depth src left holder chain seen)
    (h : Performs (source resolver dsl depth src []) () f) :
    ∃ g, Performs (source resolver dsl left holder chain) () g := by
  rcases steady_source left holder chain with ⟨⟨⟩, g, performs⟩ | ⟨stop, stops⟩
  · exact ⟨g, performs⟩
  · exact absurd h (entered.stops stops).not_performs

end Merge

end FusionTree
