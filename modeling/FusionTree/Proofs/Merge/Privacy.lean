import FusionTree.Proofs.Merge.Arrival
import FusionTree.Proofs.Merge.Inheritance
import FusionTree.Proofs.Parser.Refusals

/-!
# Where `@private` may stand

A property `@private` is accepted in the block of a root prototype declaration, and nowhere else.
Only the innermost block of the source counts: a further block inside of the declaration closes the
property out again, and so does an included file or the output of a DSL. What has been merged
before, beside the blocks or in them, plays no part. Nor does a run fail for a misplaced property
that is not met out of place.

Whether a statement is a declaration is decided by its form. Of that form are copies from a
relative path as well, but no such copy is ever accepted, so that no block of one is gone into.
-/

namespace FusionTree

open Merge

/-- Whether the block belongs to a root prototype declaration, `prototype(X) < prototype(Y)`. -/
def EnclosingBlock.IsRootDeclaration (b : EnclosingBlock) : Prop :=
  ∃ x y span span', b.path = ⟨[.prototype x span]⟩ ∧
    b.operation = some (.copy ⟨⟨[.prototype y span']⟩, false⟩)

/-- Whether the place is in a block and the innermost one belongs to a root prototype
declaration. -/
def Place.IsInDeclaration (place : Place) : Prop :=
  ∃ b, place.blocks.getLast? = some b ∧ b.IsRootDeclaration

/-- The merge of an object statement meets a segment: it has accepted the segments before, which for
the source of a copy are those of the path, too. -/
inductive Context.Meets (ctx : Context) (segment : PathSegment) :
    ObjectPath → Option Operation → Prop
  | inTarget {earlier later : List PathSegment} {operation : Option Operation} {keys : List String}
      (past : Performs (extend ctx ctx.blockPath earlier) keys id) :
      Meets ctx segment ⟨earlier ++ segment :: later⟩ operation
  | inSource {path : ObjectPath} {earlier later : List PathSegment} {relative : Bool}
      {target keys : List String}
      (pastTarget : Performs (extend ctx ctx.blockPath path.segments) target id)
      (past : Performs (extend ctx (if relative then Key.parentPath target else []) earlier) keys
        id) :
      Meets ctx segment path (some (.copy ⟨⟨earlier ++ segment :: later⟩, relative⟩))

variable {ctx : Context} {segment : PathSegment}

/-! ### The property itself -/

theorem PathSegment.eq_of_isPrivate (h : segment.isPrivate = true) :
    segment = .metaProperty Key.privateProperty segment.span := by
  cases segment with
  | metaProperty name span =>
    obtain rfl : name = Key.privateProperty := by simpa [isPrivate] using h
    rfl
  | _ => cases h

namespace Merge

theorem stops_keysOf_private (isPrivate : segment.isPrivate = true)
    (outside : ctx.inPrototype = false) :
    Stops (keysOf ctx segment) (.problem ⟨.misplacedPrivate, segment.span⟩) := by
  refine stops_keysOf ?_
  rw [PathSegment.eq_of_isPrivate isPrivate, PathSegment.refusal?, outside]
  rfl

theorem performs_keysOf_private_iff (isPrivate : segment.isPrivate = true) :
    Performs (keysOf ctx segment) segment.keys id ↔ ctx.inPrototype = true := by
  cases flag : ctx.inPrototype with
  | false =>
    have refused := (stops_keysOf_private isPrivate flag).not_performs (a := segment.keys) (f := id)
    simp [refused]
  | true =>
    have allowed : segment.Allowed ctx.inPrototype := by
      rw [PathSegment.eq_of_isPrivate isPrivate]
      exact fun _ => flag
    exact iff_of_true (performs_keysOf allowed) rfl

theorem extend_append (ctx : Context) (path : List String) (earlier later : List PathSegment) :
    extend ctx path (earlier ++ later) =
      extend ctx path earlier >>= fun keys => extend ctx keys later := by
  induction earlier generalizing path with
  | nil => rfl
  | cons s rest ih => simp only [List.cons_append, extend, ih, bind_assoc]

theorem Stops.extend {earlier : List PathSegment} {path keys : List String} {stop : Stop}
    (past : Performs (extend ctx path earlier) keys id) (h : Stops (keysOf ctx segment) stop)
    (later : List PathSegment) : Stops (extend ctx path (earlier ++ segment :: later)) stop := by
  rw [extend_append]
  exact past.bind_stops (h.bind _)

end Merge

/-- What stops a segment that the merge of a statement meets stops the statement. -/
theorem Context.Meets.stops {path : ObjectPath} {operation : Option Operation} {stop : Stop}
    (meets : ctx.Meets segment path operation) (h : Stops (keysOf ctx segment) stop) :
    Stops (object ctx path operation) stop := by
  cases meets with
  | inTarget past =>
    rw [object_eq]
    exact (Stops.extend past h _).bind _
  | inSource pastTarget past =>
    refine Stops.object pastTarget ?_
    rw [operateAny, operate, copy_eq]
    exact (Stops.extend past h _).bind _

/-! ### Declarations -/

/-- A statement of the form of a root prototype declaration is one, if it is accepted. -/
theorem EnclosingBlock.isRootDeclaration_iff {b : EnclosingBlock} {target : List String}
    {f : Entries → Entries} (steady : ctx.Steady)
    (h : Performs (object ctx b.path b.operation) target f) :
    b.IsRootDeclaration ↔ isRootPrototypeDeclaration b.path b.operation = true := by
  obtain ⟨_, rfl, does⟩ := (performs_object_iff steady).mp h
  unfold IsRootDeclaration
  generalize b.path = path at *
  generalize b.operation = operation at *
  constructor
  · rintro ⟨x, y, span, span', rfl, rfl⟩
    rfl
  · intro form
    rcases operation with _ | value | _ | ⟨source, relative⟩
    iterate 3 cases form
    rw [isRootPrototypeDeclaration, Bool.and_eq_true, ObjectPath.isSinglePrototype_iff,
      ObjectPath.isSinglePrototype_iff] at form
    obtain ⟨⟨x, span, rfl⟩, y, span', rfl⟩ := form
    cases relative with
    | false => exact ⟨x, y, span, span', rfl, rfl⟩
    | true =>
      have prototype : Key.isPrototypePath (ctx.blockPath ++ [Key.prototypes] ++ [x]) = true := by
        rw [Key.isPrototypePath_concat, List.getLast?_concat]
        rfl
      rw [List.append_assoc] at prototype
      obtain ⟨_, _, root, source, -⟩ := Entries.copyOrInherit?_of_prototype does.2 prototype
      rw [root] at source
      have lengths : 3 = 2 := congrArg List.length source
      cases lengths

namespace Context

/-- The statements of blocks that the merge gets into are accepted. -/
theorem GetsInto.performs {blocks : List EnclosingBlock} {b : EnclosingBlock} (steady : ctx.Steady)
    (inside : ctx.GetsInto blocks) (mem : b ∈ blocks) :
    ∃ around : Context, around.Steady ∧
      ∃ target f, Performs (object around b.path b.operation) target f := by
  induction blocks generalizing ctx with
  | nil => cases mem
  | cons c inner ih =>
    obtain ⟨_, ⟨f, object⟩, inside⟩ := inside
    rcases List.mem_cons.mp mem with rfl | mem
    · exact ⟨ctx, steady, _, f, object⟩
    · exact ih (steady.inBlock c.path c.operation) inside mem

/-- In blocks that the merge gets into, the flag tells whether the innermost one belongs to a root
prototype declaration. -/
theorem GetsInto.inPrototype_iff {blocks : List EnclosingBlock} (steady : ctx.Steady)
    (outside : ctx.inPrototype = false) (inside : ctx.GetsInto blocks) :
    (ctx.inBlocks blocks).inPrototype = true ↔
      ∃ b, blocks.getLast? = some b ∧ b.IsRootDeclaration := by
  rw [inBlocks_eq]
  cases last : blocks.getLast? with
  | none => simp [outside]
  | some b =>
    obtain ⟨around, steady, target, f, object⟩ :=
      inside.performs steady (List.mem_of_getLast? last)
    simp [EnclosingBlock.isRootDeclaration_iff steady object]

end Context

theorem PathSegment.Allowed.inPrototype {b : Bool} (h : segment.Allowed b)
    (isPrivate : segment.isPrivate = true) : b = true := by
  rw [PathSegment.eq_of_isPrivate isPrivate] at h
  exact h rfl

/-- A source that is accepted has all its `@private` in declarations. -/
theorem Merge.Performs.isInDeclaration {resolver : Resolver} {dsl : DslRegistry} {depth : Nat}
    {holder : Source} {chain : List Path} {f : Entries → Entries} {place : Place}
    (h : Performs (source resolver dsl depth holder chain) () f)
    (read : holder.statements? = some place.statements)
    (mem : segment ∈ place.path.segments ∨
      ∃ copied, place.operation = some (.copy copied) ∧ segment ∈ copied.path.segments)
    (isPrivate : segment.isPrivate = true) : place.IsInDeclaration := by
  obtain ⟨left, rfl, arrives, allowed⟩ := h.allowed_of_read read
  have steady := Context.steady_ofSource resolver dsl left holder chain
  exact (arrives.inside.inPrototype_iff steady rfl).mp
    ((allowed segment mem).inPrototype isPrivate)

/-! ### Where a property is refused -/

/-- The cause that is no longer one of an output. -/
def Cause.root : Cause → Cause
  | invalidDslOutput _ inner _ => inner.root
  | cause => cause

def Problem.IsMisplaced (p : Problem) : Prop :=
  p.cause.root = .misplacedPrivate

theorem PathSegment.isPrivate_of_refusal? {inPrototype : Bool} {cause : Cause}
    (h : segment.refusal? inPrototype = some cause) (root : cause.root = .misplacedPrivate) :
    segment.isPrivate = true := by
  have keys (key : String) : Key.refusal? key ≠ some cause := by
    intro refused
    unfold Key.refusal? at refused
    split at refused
    · cases refused
      cases root
    split at refused
    · cases refused
      cases root
    split at refused
    · cases refused
      cases root
    · cases refused
  cases segment with
  | plain key span | quoted key span => exact absurd h (keys key)
  | metaProperty name span =>
    rw [refusal?] at h
    split at h
    · rename_i misplaced
      simpa [isPrivate] using misplaced.1
    · cases h
  | prototype => cases h

theorem Cause.IsOfReading.root_ne {cause : Cause} (h : cause.IsOfReading) :
    cause.root ≠ .misplacedPrivate := by
  cases cause with
  | lexical | syntactic => nofun
  | _ => cases h

namespace Merge

variable {p : Problem}

theorem quiet_keysOf (ctx : Context) (segment : PathSegment) : Quiet (keysOf ctx segment) := by
  cases h : segment.refusal? ctx.inPrototype with
  | none => exact (performs_keysOf (PathSegment.refusal?_eq_none_iff.mp h)).quiet
  | some cause => exact (stops_keysOf h).quiet

/-- A segment that is refused for a misplaced property is that property. -/
theorem isPrivate_of_stops_keysOf (h : Stops (keysOf ctx segment) (.problem p))
    (misplaced : p.IsMisplaced) : segment.isPrivate = true ∧ ctx.inPrototype = false := by
  cases refused : segment.refusal? ctx.inPrototype with
  | none =>
    have accepted := performs_keysOf (PathSegment.refusal?_eq_none_iff.mp refused)
    exact absurd accepted h.not_performs
  | some cause =>
    obtain rfl : p = ⟨cause, segment.span⟩ := Stop.problem.inj (h.unique (stops_keysOf refused))
    have isPrivate := PathSegment.isPrivate_of_refusal? refused misplaced
    refine ⟨isPrivate, eq_false_of_ne_true fun inside => ?_⟩
    exact h.not_performs ((performs_keysOf_private_iff isPrivate).mpr inside)

/-- What stops a path stops one of its segments, behind those that are accepted. -/
theorem exists_of_stops_extend {segments : List PathSegment} {path : List String} {stop : Stop}
    (h : Stops (extend ctx path segments) stop) :
    ∃ earlier s later keys, segments = earlier ++ s :: later ∧
      Performs (extend ctx path earlier) keys id ∧ Stops (keysOf ctx s) stop := by
  induction segments generalizing path with
  | nil => exact absurd (performs_pure path) h.not_performs
  | cons s rest ih =>
    rw [extend, stops_bind_iff (quiet_keysOf ctx s).steady fun _ =>
      (quiet_extend _ _ _).steady] at h
    rcases h with h | ⟨keys, g, accepted, h⟩
    · exact ⟨[], s, rest, path, rfl, performs_pure path, h⟩
    · obtain ⟨earlier, s', later, keys', rfl, past, stops⟩ := ih h
      obtain rfl := (quiet_keysOf ctx s).eq_id accepted
      exact ⟨s :: earlier, s', later, keys', rfl, accepted.bind_quiet past, stops⟩

/-- An expression that has output is refused for what the output is refused for. -/
theorem exists_of_stops_output (steady : ctx.Steady) {identifier code text : String} {span : Span}
    {transpiler : Transpiler} (registered : ctx.dsl.get? identifier = some transpiler)
    (transpiled : transpiler code = .ok text)
    (h : Stops (nodeOf ctx (.dsl identifier code span)) (.problem p)) :
    ∃ inner, Stops (ctx.enter (.ofString ("value = " ++ text) none) ctx.chain) (.problem inner) ∧
      p = inner.ofOutput identifier span := by
  rcases (steady (.ofString ("value = " ++ text) none) ctx.chain).1 with
    ⟨⟨⟩, f, performs⟩ | ⟨stop, stops⟩
  · have accepted : Performs (dslNode ctx identifier code span) _ id :=
      (performs_dslNode_iff steady).mpr
        ⟨transpiler, text, f, registered, transpiled, performs, rfl⟩
    exact absurd accepted h.not_performs
  cases stop with
  | problem inner =>
    have seen : Stops (nodeOf ctx (.dsl identifier code span)) _ :=
      stops.nodeOf_dsl steady registered transpiled
    exact ⟨inner, stops, Stop.problem.inj (h.unique seen)⟩
  | depthExceeded =>
    cases h.unique (stops.nodeOf_dsl_deep steady registered transpiled)

/-- A value that is refused for a misplaced property is an expression whose output is. -/
theorem exists_of_stops_nodeOf (steady : ctx.Steady) {value : Value}
    (h : Stops (nodeOf ctx value) (.problem p)) (misplaced : p.IsMisplaced) :
    ∃ identifier code span transpiler text inner, value = .dsl identifier code span ∧
      ctx.dsl.get? identifier = some transpiler ∧ transpiler code = .ok text ∧
      Stops (ctx.enter (.ofString ("value = " ++ text) none) ctx.chain) (.problem inner) ∧
      p = inner.ofOutput identifier span := by
  cases value with
  | dsl identifier code span =>
    cases registered : ctx.dsl.get? identifier with
    | none =>
      have unknown : Stops (nodeOf ctx (.dsl identifier code span))
          (.problem ⟨.dslFailed identifier (.unknown identifier), span⟩) := by
        simp only [nodeOf, dslNode, registered]
        exact stops_fail _ span
      obtain rfl := Stop.problem.inj (h.unique unknown)
      cases misplaced
    | some transpiler =>
      cases transpiled : transpiler code with
      | error message =>
        have failed : Stops (nodeOf ctx (.dsl identifier code span))
            (.problem ⟨.dslFailed identifier (.failed message), span⟩) := by
          simp only [nodeOf, dslNode, registered, transpiled]
          exact (performs_record _).bind_stops (stops_fail _ span)
        obtain rfl := Stop.problem.inj (h.unique failed)
        cases misplaced
      | ok text =>
        obtain ⟨inner, stops⟩ := exists_of_stops_output steady registered transpiled h
        exact ⟨identifier, code, span, transpiler, text, inner, rfl, registered, transpiled, stops⟩
  | _ => exact absurd (performs_pure _) h.not_performs

theorem not_stops_copyBetween {target path : List String} {span : Span}
    (misplaced : p.IsMisplaced) : ¬Stops (copyBetween target path span) (.problem p) := by
  intro h
  have outcome := comesTo_copyBetween target path span
  unfold copyOrRefuse at outcome
  split at outcome
  · exact h.not_performs outcome
  · obtain ⟨_, stops⟩ := outcome
    obtain rfl := Stop.problem.inj (h.unique stops)
    unfold Problem.IsMisplaced at misplaced
    split at misplaced <;> cases misplaced

/-- A statement that is refused for a misplaced property meets that property, or it assigns an
expression whose output is refused for it. -/
theorem cases_of_stops_object (steady : ctx.Steady) {path : ObjectPath}
    {operation : Option Operation} (h : Stops (object ctx path operation) (.problem p))
    (misplaced : p.IsMisplaced) :
    (∃ segment, ctx.Meets segment path operation ∧ Stops (keysOf ctx segment) (.problem p)) ∨
      ∃ target identifier code span transpiler text inner,
        Performs (extend ctx ctx.blockPath path.segments) target id ∧
        operation = some (.assign (.dsl identifier code span)) ∧
        ctx.dsl.get? identifier = some transpiler ∧ transpiler code = .ok text ∧
        Stops (ctx.enter (.ofString ("value = " ++ text) none) ctx.chain) (.problem inner) ∧
        p = inner.ofOutput identifier span := by
  rw [object_eq,
    stops_bind_iff (quiet_extend _ _ _).steady (steady_noted steady path operation)] at h
  rcases h with h | ⟨target, g, accepted, h⟩
  · obtain ⟨earlier, segment, later, keys, split, past, stops⟩ := exists_of_stops_extend h
    obtain rfl : path = ⟨earlier ++ segment :: later⟩ := congrArg ObjectPath.mk split
    exact .inl ⟨segment, .inTarget past, stops⟩
  obtain rfl := (quiet_extend _ _ _).eq_id accepted
  have operates := steady_operateAny steady path target operation
  have operated : Stops (operateAny ctx path target operation) (.problem p) :=
    (h.behind (performs_note _) (operates.bind fun _ => (performs_pure target).steady)).before
      operates fun _ => ⟨_, _, performs_pure target⟩
  rcases operation with _ | value | span | source
  · exact absurd (performs_pure ()) operated.not_performs
  · have refused : Stops (nodeOf ctx value) (.problem p) :=
      Stops.before operated (quiet_nodeOf steady value).steady fun _ => ⟨_, _, performs_update _⟩
    obtain ⟨identifier, code, span, transpiler, text, inner, rfl, stops⟩ :=
      exists_of_stops_nodeOf steady refused misplaced
    exact .inr ⟨target, identifier, code, span, transpiler, text, inner, accepted, rfl, stops⟩
  · exact absurd (performs_update (·.unset target)) operated.not_performs
  · rw [operateAny, operate, copy_eq, stops_bind_iff (quiet_extend _ _ _).steady fun _ =>
      steady_copyBetween _ _ _] at operated
    rcases operated with h | ⟨_, _, _, h⟩
    · obtain ⟨earlier, segment, later, keys, split, past, stops⟩ := exists_of_stops_extend h
      obtain ⟨⟨segments⟩, relative⟩ := source
      obtain rfl : segments = earlier ++ segment :: later := split
      exact .inl ⟨segment, .inSource accepted past, stops⟩
    · exact absurd h (not_stops_copyBetween misplaced)

/-- A file that is refused for a misplaced property is entered. -/
theorem stops_enter_of_includeFile (steady : ctx.Steady) {pattern : String} {span : Span}
    {file : Path} (h : Stops (includeFile ctx pattern span file) (.problem p))
    (misplaced : p.IsMisplaced) :
    ctx.chain.any (ctx.resolver.same · file) = false ∧
      ∃ text, ctx.resolver.read file = .ok text ∧
        Stops (ctx.enter (.ofString text (some file)) ctx.chain) (.problem p) := by
  unfold includeFile at h
  split at h
  · exact absurd (performs_note _) h.not_performs
  split at h
  · obtain rfl := Stop.problem.inj (h.unique (stops_fail _ _))
    cases misplaced
  rename_i fresh
  split at h
  · obtain rfl := Stop.problem.inj (h.unique (stops_fail _ _))
    cases misplaced
  · rename_i text readable
    exact ⟨eq_false_of_ne_true fresh, text, readable,
      h.behind (performs_note _) (steady _ _).1⟩

end Merge

/-! ### Occurrences in a run -/

/-- A segment somewhere in a source that a run enters. -/
structure Occurrence where
  /-- How deep the sources may be nested below this one. -/
  left : Nat
  holder : Source
  chain : List Path
  /-- How the run sees the problems of the source. -/
  seen : Problem → Problem
  place : Place
  segment : PathSegment

def Occurrence.context (o : Occurrence) (options : RunOptions) : Context :=
  (Context.ofSource options.resolver options.dsl o.left o.holder o.chain).inBlocks o.place.blocks

def Occurrence.refusal (o : Occurrence) : Problem :=
  ⟨.misplacedPrivate, o.segment.span⟩

/-- The run from the source meets the segment, having got past all that comes before. -/
structure RunOptions.Meets (options : RunOptions) (src : Source) (o : Occurrence) : Prop where
  entered : Entered options.resolver options.dsl options.depth src (o.left + 1) o.holder o.chain
    o.seen
  read : o.holder.statements? = some o.place.statements
  arrives : (Context.ofSource options.resolver options.dsl o.left o.holder o.chain).ArrivesAt
    o.place
  meets : (o.context options).Meets o.segment o.place.path o.place.operation

namespace RunOptions

variable {options : RunOptions} {src : Source} {p : Problem}

theorem Meets.inPrototype_iff {o : Occurrence} (h : options.Meets src o) :
    (o.context options).inPrototype = true ↔ o.place.IsInDeclaration :=
  h.arrives.inside.inPrototype_iff (Context.steady_ofSource _ _ _ _ _) rfl

/-- Where a source that the run enters is refused for a misplaced property, the run meets one. -/
theorem exists_meets_of_stops {left : Nat} {holder : Source} {chain : List Path}
    {seen : Problem → Problem}
    (entered : Entered options.resolver options.dsl options.depth src left holder chain seen)
    (h : Stops (source options.resolver options.dsl left holder chain) (.problem p))
    (misplaced : p.IsMisplaced) :
    ∃ o, options.Meets src o ∧ o.segment.isPrivate = true ∧ ¬o.place.IsInDeclaration ∧
      seen p = o.seen o.refusal := by
  induction left generalizing holder chain seen p with
  | zero => cases h.unique (stops_throw .depthExceeded)
  | succ left ih =>
    have steady := Context.steady_ofSource options.resolver options.dsl left holder chain
    rw [source_succ] at h
    cases parsed : holder.parse with
    | error q r =>
      obtain rfl := Stop.problem.inj (h.unique ((stops_parse parsed).bind _))
      exact absurd misplaced (Source.isOfReading_of_parse parsed).root_ne
    | ok document r =>
      have read : holder.statements? = some document.statements := by
        rw [Source.statements?, parsed]
      have stops := h.behind (performs_parse parsed) (steady_statements steady _)
      cases stopsAt_of_stops steady (performs_nothing _) stops with
      | pattern eq =>
        obtain rfl := Stop.problem.inj eq
        cases misplaced
      | file reaches stops =>
        obtain ⟨fresh, text, readable, stops⟩ := stops_enter_of_includeFile steady stops misplaced
        exact ih (.file entered read reaches fresh readable) stops misplaced
      | @object place eq arrives stops =>
        have read : holder.statements? = some place.statements := by rw [read, eq, List.nil_append]
        rcases cases_of_stops_object (steady.inBlocks place.blocks) stops misplaced with
          ⟨segment, meets, refused⟩ |
          ⟨target, identifier, code, span, transpiler, text, inner, accepted, assigns, registered,
            transpiled, output, rfl⟩
        · have met : options.Meets src ⟨left, holder, chain, seen, place, segment⟩ :=
            ⟨entered, read, arrives, meets⟩
          obtain ⟨isPrivate, outside⟩ := isPrivate_of_stops_keysOf refused misplaced
          obtain rfl := Stop.problem.inj (refused.unique (stops_keysOf_private isPrivate outside))
          refine ⟨_, met, isPrivate, fun inside => ?_, rfl⟩
          exact Bool.false_ne_true (outside.symm.trans (met.inPrototype_iff.mpr inside))
        · rw [Context.inBlocks_eq] at registered output
          have met := ih (.output entered read arrives accepted assigns registered transpiled)
            output misplaced
          exact met

/-- A run that fails for a misplaced property fails in the merge of its source, and not in the
linking of prototypes. -/
theorem stops_of_outcome (misplaced : p.IsMisplaced)
    (failed : (options.runSource src).outcome = .error (.problem p)) :
    Stops (source options.resolver options.dsl options.depth src []) (.problem p) := by
  rcases steady_source options.depth src [] with ⟨⟨⟩, f, performs⟩ | ⟨stop, stops⟩
  · obtain ⟨_, merged⟩ := performs {}
    unfold runSource at failed
    split at failed
    · rename_i stopped
      cases merged.symm.trans stopped
    split at failed
    · cases failed
    rename_i linked
    split at linked
    · obtain ⟨_, _, rfl⟩ := Entries.recursive_of_linkPrototypes linked
      cases failed
      cases misplaced
    · cases linked
  · obtain rfl := Except.error.inj ((outcome_of_stops stops).symm.trans failed)
    exact stops

/-- Whatever source a run enters, and whatever it has merged before: the merge accepts a segment
`@private` that it meets, in the path of a statement or in the source of a copy, exactly if the
statement is in a block and the innermost block around it in its source belongs to a root prototype
declaration. Otherwise the merge of that source stops there for a misplaced property, and the run
fails for that problem, which it sees as one of the expression if the source is the output of a
DSL. No run fails for a misplaced property but at such a segment. -/
theorem private_only_in_declarations (options : RunOptions) (src : Source) :
    (∀ o, options.Meets src o → o.segment.isPrivate = true →
      (Performs (keysOf (o.context options) o.segment) o.segment.keys id ↔
        o.place.IsInDeclaration) ∧
      (¬o.place.IsInDeclaration →
        Stops (source options.resolver options.dsl (o.left + 1) o.holder o.chain)
          (.problem o.refusal) ∧
        (options.runSource src).outcome = .error (.problem (o.seen o.refusal)))) ∧
    ∀ p : Problem, p.IsMisplaced → (options.runSource src).outcome = .error (.problem p) →
      ∃ o, options.Meets src o ∧ o.segment.isPrivate = true ∧ ¬o.place.IsInDeclaration ∧
        p = o.seen o.refusal := by
  constructor
  · intro o met isPrivate
    refine ⟨(performs_keysOf_private_iff isPrivate).trans met.inPrototype_iff, fun outside => ?_⟩
    have refused : Stops (keysOf (o.context options) o.segment) (.problem o.refusal) :=
      stops_keysOf_private isPrivate (eq_false_of_ne_true (mt met.inPrototype_iff.mp outside))
    have stops := Stops.source met.read (met.arrives.stops (met.meets.stops refused))
    exact ⟨stops, outcome_of_stops (met.entered.stops stops)⟩
  · intro p misplaced failed
    exact exists_meets_of_stops .start (stops_of_outcome misplaced failed) misplaced

/-- A language whose output is a null with a property `@private` in its block. -/
def privateOutput : RunOptions where
  resolver :=
    { resolve := fun _ _ => .ok [], read := fun file => .error (.notFound file), same := (· == ·) }
  dsl := ({} : DslRegistry).register "d" fun _ => .ok "null \x7b @private = 1 \x7d"
  depth := 2

def declaringSource : Source :=
  .ofString "prototype(A:B) < prototype(A:C) \x7b @private = d\x60x\x60 \x7d" none

def privateOutputSource : Source :=
  .ofString ("value = " ++ "null \x7b @private = 1 \x7d") none

def declaringBlock : EnclosingBlock where
  before := []
  path := ⟨[.prototype "A:B" ⟨declaringSource, 0, 14⟩]⟩
  operation := some (.copy ⟨⟨[.prototype "A:C" ⟨declaringSource, 17, 31⟩]⟩, false⟩)
  openBrace := ⟨declaringSource, 32, 33⟩
  closeBrace := ⟨declaringSource, 50, 51⟩
  after := []

def declaredPlace : Place where
  blocks := [declaringBlock]
  before := []
  path := ⟨[.metaProperty "private" ⟨declaringSource, 34, 42⟩]⟩
  operation := some (.assign (.dsl "d" "x" ⟨declaringSource, 45, 49⟩))
  block := none
  after := []

def privateOutputBlock : EnclosingBlock where
  before := []
  path := ⟨[.plain "value" ⟨privateOutputSource, 0, 5⟩]⟩
  operation := some (.assign (.null ⟨privateOutputSource, 8, 12⟩))
  openBrace := ⟨privateOutputSource, 13, 14⟩
  closeBrace := ⟨privateOutputSource, 28, 29⟩
  after := []

def undeclaredPlace : Place where
  blocks := [privateOutputBlock]
  before := []
  path := ⟨[.metaProperty "private" ⟨privateOutputSource, 15, 23⟩]⟩
  operation := some (.assign (.int 1 ⟨privateOutputSource, 26, 27⟩))
  block := none
  after := []

theorem statements_declaringSource :
    declaringSource.statements? = some declaredPlace.statements := by
  with_unfolding_all rfl

theorem statements_privateOutputSource :
    privateOutputSource.statements? = some undeclaredPlace.statements := by
  with_unfolding_all rfl

def declaringContext : Context :=
  .ofSource privateOutput.resolver privateOutput.dsl 1 declaringSource []

def privateOutputContext : Context :=
  .ofSource privateOutput.resolver privateOutput.dsl 0 privateOutputSource []

theorem arrivesAt_declaredPlace : declaringContext.ArrivesAt declaredPlace := by
  have object : Performs (object declaringContext declaringBlock.path declaringBlock.operation)
      _ _ :=
    (performs_object_iff (Context.steady_ofSource _ _ _ _ _)).mpr
      ⟨ObjectPath.refusal?_eq_none_iff.mp (by decide +kernel), rfl,
        ObjectPath.refusal?_eq_none_iff.mp (by decide +kernel), rfl⟩
  exact ⟨⟨⟨id, performs_pure ()⟩, ⟨_, object⟩, trivial⟩, id, performs_pure ()⟩

theorem arrivesAt_undeclaredPlace : privateOutputContext.ArrivesAt undeclaredPlace := by
  have object : Performs (object privateOutputContext privateOutputBlock.path
      privateOutputBlock.operation) _ _ :=
    (performs_object_iff (Context.steady_ofSource _ _ _ _ _)).mpr
      ⟨ObjectPath.refusal?_eq_none_iff.mp (by decide +kernel), rfl, .null, performs_pure _, rfl⟩
  exact ⟨⟨⟨id, performs_pure ()⟩, ⟨_, object⟩, trivial⟩, id, performs_pure ()⟩

def declared : Occurrence where
  left := 1
  holder := declaringSource
  chain := []
  seen := id
  place := declaredPlace
  segment := .metaProperty "private" ⟨declaringSource, 34, 42⟩

def undeclared : Occurrence where
  left := 0
  holder := privateOutputSource
  chain := []
  seen := .ofOutput "d" ⟨declaringSource, 45, 49⟩
  place := undeclaredPlace
  segment := .metaProperty "private" ⟨privateOutputSource, 15, 23⟩

theorem meets_declared : privateOutput.Meets declaringSource declared where
  entered := .start
  read := statements_declaringSource
  arrives := arrivesAt_declaredPlace
  meets := @Context.Meets.inTarget _ _ [] [] _ _ (performs_pure _)

theorem meets_undeclared : privateOutput.Meets declaringSource undeclared where
  entered := .output .start statements_declaringSource arrivesAt_declaredPlace
    (performs_extend_iff.mpr ⟨ObjectPath.refusal?_eq_none_iff.mp (by decide +kernel), rfl⟩)
    rfl rfl rfl
  read := statements_privateOutputSource
  arrives := arrivesAt_undeclaredPlace
  meets := @Context.Meets.inTarget _ _ [] [] _ _ (performs_pure _)

/-- The property of the declaration is accepted, and that of the output, which is merged inside of
the same block, is refused. -/
theorem private_only_in_declarations_of_output :
    Performs (keysOf (declared.context privateOutput) declared.segment)
        [Key.metaProperties, "private"] id ∧
      (privateOutput.runSource declaringSource).outcome =
        .error (.problem ⟨.invalidDslOutput "d" .misplacedPrivate ⟨privateOutputSource, 15, 23⟩,
          ⟨declaringSource, 45, 49⟩⟩) ∧
      ∃ o, privateOutput.Meets declaringSource o ∧ o.segment.isPrivate = true ∧
        ¬o.place.IsInDeclaration ∧ undeclared.seen undeclared.refusal = o.seen o.refusal := by
  obtain ⟨meets, fails⟩ := private_only_in_declarations privateOutput declaringSource
  have outside : ¬undeclared.place.IsInDeclaration := by
    rintro ⟨b, last, x, y, span, span', path, -⟩
    cases last
    cases path
  have failed := ((meets undeclared meets_undeclared rfl).2 outside).2
  exact ⟨(meets declared meets_declared rfl).1.mpr ⟨_, rfl, "A:B", "A:C", _, _, rfl, rfl⟩, failed,
    fails _ rfl failed⟩

end RunOptions

end FusionTree
