import FusionTree.Merge.Run
import FusionTree.Proofs.Merge.Statement
import FusionTree.Proofs.Parser.Reporting

/-!
# Which problems statements report

A merge of statements reports exactly the problem it stops for. That problem has its place among the
statements, and is no problem of the output of a DSL; or it is the problem of a file that one of
them includes; or one of them assigns a DSL expression, and the problem has the place of the
expression and names the problem of its output. -/

namespace FusionTree

/-- The statements, and those in their blocks at any depth. -/
def Statement.withBlocks : List Statement → List Statement
  | [] => []
  | .inclusion pattern span :: rest => .inclusion pattern span :: withBlocks rest
  | .object path operation none :: rest => .object path operation none :: withBlocks rest
  | .object path operation (some ⟨openBrace, inner, closeBrace⟩) :: rest =>
    .object path operation (some ⟨openBrace, inner, closeBrace⟩) ::
      (withBlocks inner ++ withBlocks rest)

/-- How statements of a source come to a problem, when sources that are entered from the context
come to the problems that `B` tells. -/
inductive Context.Blames (ctx : Context) (src : Source)
    (B : Source → List Path → Problem → Prop) (ss : List Statement) : Problem → Prop
  | here {p : Problem} (own : p.IsOf src) : Blames ctx src B ss p
  | included {p : Problem} {pattern : String} {span : Span} {files : List Path} {file : Path}
      {text : String} (mem : .inclusion pattern span ∈ Statement.withBlocks ss)
      (resolved : ctx.resolver.resolve pattern ctx.file = .ok files) (one : file ∈ files)
      (read : ctx.resolver.read file = .ok text)
      (problem : B (Source.ofString text (some file)) ctx.chain p) : Blames ctx src B ss p
  /-- The output of a DSL expression has a problem, and the problem is that of the expression. -/
  | output {path : ObjectPath} {block : Option (Block Statement)} {identifier code text : String}
      {span : Span} {transpiler : Transpiler} {inner : Problem}
      (mem : .object path (some (.assign (.dsl identifier code span))) block ∈
        Statement.withBlocks ss)
      (place : span.LiesIn src) (registered : ctx.dsl.get? identifier = some transpiler)
      (transpiled : transpiler code = .ok text)
      (problem : B (Source.ofString ("value = " ++ text) none) ctx.chain inner) :
      Blames ctx src B ss ⟨.invalidDslOutput identifier inner.cause inner.span, span⟩

variable {ctx : Context} {src : Source} {B : Source → List Path → Problem → Prop}

theorem Context.Blames.of_subset {ss ss' : List Statement} {p : Problem}
    (h : ctx.Blames src B ss p)
    (sub : Statement.withBlocks ss ⊆ Statement.withBlocks ss') : ctx.Blames src B ss' p := by
  cases h with
  | here own => exact .here own
  | included mem resolved one read problem => exact .included (sub mem) resolved one read problem
  | output mem place registered transpiled problem =>
    exact .output (sub mem) place registered transpiled problem

namespace Merge

/-! ### Paths and operations -/

theorem reports_checkKey {key : String} {span : Span} (h : span.LiesIn src) :
    Reports (checkKey key span) (·.IsOf src) := by
  have fails {cause : Cause}
      (plain : ∀ identifier inner s, cause ≠ .invalidDslOutput identifier inner s) :
      Reports (fail cause span : Merge Unit) (·.IsOf src) :=
    reports_fail ⟨h, plain⟩
  exact (fails (by simp)).ite <| (fails (by simp)).ite <| (fails (by simp)).ite <| reports_pure ()

theorem reports_keysOf {segment : PathSegment} (h : segment.ReadFrom src) :
    Reports (keysOf ctx segment) (·.IsOf src) := by
  cases segment with
  | plain key span => exact (reports_checkKey h).bind fun _ => reports_pure _
  | quoted key span => exact (reports_checkKey h).bind fun _ => reports_pure _
  | metaProperty name span =>
    simp only [keysOf]
    split
    · exact (reports_fail ⟨h.1, by simp⟩).bind fun _ => reports_pure _
    · exact reports_pure _
  | prototype name span => exact reports_pure _

theorem reports_extend {path : List String} {segments : List PathSegment}
    (h : ∀ segment ∈ segments, segment.ReadFrom src) :
    Reports (extend ctx path segments) (·.IsOf src) := by
  induction segments generalizing path with
  | nil => exact reports_pure path
  | cons segment rest ih =>
    obtain ⟨hs, hr⟩ := List.forall_mem_cons.mp h
    exact (reports_keysOf hs).bind fun keys => ih hr

theorem reports_copy {target : List String} {source : CopySource} {span : Span}
    (hs : source.path.ReadFrom src) (place : span.LiesIn src) :
    Reports (copy ctx target source span) (·.IsOf src) := by
  refine (reports_extend hs.2).bind fun path => ?_
  split
  · split
    · exact reports_update _
    · exact reports_fail ⟨place, by simp⟩
  · exact reports_update _
  · exact reports_fail ⟨place, by simp⟩

theorem reports_outputValue {C : Problem → Prop} {identifier output : String} {span : Span}
    (h : ctx.Reports B)
    (imp : ∀ inner, B (Source.ofString ("value = " ++ output) none) ctx.chain inner →
      C ⟨.invalidDslOutput identifier inner.cause inner.span, span⟩) :
    Reports (outputValue ctx identifier output span) C := by
  refine (reports_apart _).bind_of_ok fun s ⟨ended, problems⟩ s' ok => ?_
  rcases (h _ _).of_apart ok with ⟨tree, rfl, rfl⟩ | ⟨stop, rfl, rfl, blame⟩
  · exact reports_pure _
  · cases stop with
    | problem p => exact reports_fail (imp p (blame p (by simp [Stop.problems])))
    | depthExceeded => exact reports_depthExceeded

theorem reports_dslNode {ss : List Statement} {path : ObjectPath}
    {block : Option (Block Statement)} {identifier code : String} {span : Span}
    (h : ctx.Reports B) (place : span.LiesIn src)
    (mem : .object path (some (.assign (.dsl identifier code span))) block ∈
      Statement.withBlocks ss) :
    Reports (dslNode ctx identifier code span) (ctx.Blames src B ss) := by
  unfold dslNode
  split
  · exact reports_fail (.here ⟨place, by simp⟩)
  · rename_i transpiler registered
    refine Reports.bind (reports_record fun _ => rfl) fun _ => ?_
    split
    · exact reports_fail (.here ⟨place, by simp⟩)
    · rename_i output transpiled
      refine (reports_note _).bind fun _ => reports_outputValue h fun inner problem => ?_
      exact .output mem place registered transpiled problem

theorem reports_operate {ss : List Statement} {path : ObjectPath}
    {block : Option (Block Statement)} {op : Operation} {target : List String} {span : Span}
    (h : ctx.Reports B) (read : op.ReadFrom src) (place : span.LiesIn src)
    (mem : .object path (some op) block ∈ Statement.withBlocks ss) :
    Reports (operate ctx target span op) (ctx.Blames src B ss) := by
  cases op with
  | assign value =>
    refine Reports.bind ?_ fun _ => reports_update _
    cases value with
    | dsl identifier code span => exact reports_dslNode h read mem
    | _ => exact reports_pure _
  | unset _ => exact reports_update (·.unset target)
  | copy source => exact (reports_copy read place).mono fun _ => .here

theorem reports_object {ss : List Statement} {path : ObjectPath} {operation : Option Operation}
    {block : Option (Block Statement)} (h : ctx.Reports B) (hp : path.ReadFrom src)
    (ho : ∀ op ∈ operation, op.ReadFrom src)
    (mem : .object path operation block ∈ Statement.withBlocks ss) :
    Reports (object ctx path operation) (ctx.Blames src B ss) := by
  rw [object_eq]
  refine ((reports_extend hp.2).mono fun _ => .here).bind fun target => ?_
  refine (reports_note _).bind fun _ => Reports.bind ?_ fun _ => reports_pure target
  cases operation with
  | none => exact reports_pure ()
  | some op =>
    have read := ho op rfl
    exact reports_operate h read (hp.liesIn.join read.liesIn) mem

/-! ### Include statements and lists of statements -/

theorem reports_includeFiles {ss : List Statement} {pattern : String} {span : Span}
    {all files : List Path} (h : ctx.Reports B) (place : span.LiesIn src)
    (mem : .inclusion pattern span ∈ Statement.withBlocks ss)
    (resolved : ctx.resolver.resolve pattern ctx.file = .ok all) (sub : files ⊆ all) :
    Reports (includeFiles ctx pattern span files) (ctx.Blames src B ss) := by
  induction files with
  | nil => exact reports_pure ()
  | cons file rest ih =>
    obtain ⟨one, sub⟩ := List.cons_subset.mp sub
    rw [includeFiles_cons]
    refine Reports.bind ?_ fun _ => ih sub
    unfold includeFile
    split
    · exact reports_note _
    · split
      · exact reports_fail (.here ⟨place, by simp⟩)
      · split
        · exact reports_fail (.here ⟨place, by simp⟩)
        · rename_i text read
          refine (reports_note _).bind fun _ => (h _ _).mono fun p problem => ?_
          exact .included mem resolved one read problem

theorem reports_inclusion {ss : List Statement} {pattern : String} {span : Span}
    (h : ctx.Reports B) (place : span.LiesIn src)
    (mem : .inclusion pattern span ∈ Statement.withBlocks ss) :
    Reports (inclusion ctx pattern span) (ctx.Blames src B ss) := by
  rw [inclusion_eq]
  split
  · exact reports_fail (.here ⟨place, by simp⟩)
  · rename_i files resolved
    refine Reports.bind ?_ fun _ =>
      reports_includeFiles h place mem resolved (List.Subset.refl files)
    exact Reports.ite (reports_record fun _ => rfl) (reports_pure ())

/-- Statements that were read from a source come to a problem there, in an included file, or in the
output of a DSL, and report it. -/
theorem reports_statements {ss : List Statement} (h : ctx.Reports B)
    (read : Statement.AllReadFrom src ss) :
    Reports (statements ctx ss) (ctx.Blames src B ss) := by
  induction ss using Statement.induction generalizing ctx with
  | nil =>
    rw [statements_nil]
    exact reports_pure ()
  | inclusion pattern span rest ih =>
    rw [Statement.AllReadFrom, Statement.ReadFrom] at read
    rw [statements_inclusion]
    refine (reports_inclusion h read.1 (by simp [Statement.withBlocks])).bind fun _ => ?_
    refine (ih h read.2).mono fun p blame => blame.of_subset ?_
    simp [Statement.withBlocks]
  | object path operation rest ih =>
    rw [Statement.AllReadFrom, Statement.ReadFrom] at read
    obtain ⟨⟨hp, ho⟩, hr⟩ := read
    rw [statements_object]
    have mem : .object path operation none ∈
        Statement.withBlocks (.object path operation none :: rest) := by
      simp [Statement.withBlocks]
    refine (reports_object h hp ho mem).bind fun _ => ?_
    refine (ih h hr).mono fun p blame => blame.of_subset ?_
    simp [Statement.withBlocks]
  | block path operation openBrace inner closeBrace rest ihInner ih =>
    rw [Statement.AllReadFrom, Statement.ReadFrom] at read
    obtain ⟨⟨hp, ho, _, hi, _⟩, hr⟩ := read
    rw [statements_block]
    have mem : .object path operation (some ⟨openBrace, inner, closeBrace⟩) ∈
        Statement.withBlocks
          (.object path operation (some ⟨openBrace, inner, closeBrace⟩) :: rest) := by
      simp [Statement.withBlocks]
    refine (reports_object h hp ho mem).bind fun target => ?_
    have inside : Reports (statements { ctx with
        blockPath := target
        inPrototype := isRootPrototypeDeclaration path operation } inner)
          (ctx.Blames src B inner) := by
      refine (ihInner ?_ hi).mono fun p blame => ?_
      · exact h
      · cases blame with
        | here own => exact .here own
        | included mem resolved one read problem => exact .included mem resolved one read problem
        | output mem place registered transpiled problem =>
          exact .output mem place registered transpiled problem
    refine (inside.mono fun p blame => blame.of_subset ?_).bind fun _ => ?_
    · simp only [Statement.withBlocks]
      exact List.subset_cons_of_subset _ (List.subset_append_left _ _)
    · refine (ih h hr).mono fun p blame => blame.of_subset ?_
      simp only [Statement.withBlocks]
      exact List.subset_cons_of_subset _ (List.subset_append_right _ _)

/-! ### Reading a source -/

theorem problems_foldl_report (problems : List Problem) (j : Journal) :
    (problems.foldl Journal.report j).problems = j.problems ++ problems := by
  induction problems generalizing j with
  | nil => simp
  | cons p rest ih =>
    rw [List.foldl_cons, ih]
    simp [Journal.report]

theorem problems_foldl_includeRead (patterns : List String) (j : Journal) :
    (patterns.foldl (fun j pattern => j.note (.includeRead pattern)) j).problems =
      j.problems := by
  induction patterns generalizing j with
  | nil => rfl
  | cons pattern rest ih =>
    rw [List.foldl_cons, ih]
    rfl

theorem reports_parse (src : Source) : Reports (parse src) (·.IsOf src) := by
  intro s
  have faithful := src.parse_faithful
  unfold parse
  split
  · rename_i document r h
    rw [h] at faithful
    simp only [Accounted, problems_foldl_report, problems_foldl_includeRead, faithful.1,
      List.append_nil]
  · rename_i p r h
    rw [h] at faithful
    refine ⟨?_, fun q hq => ?_⟩
    · simp only [problems_foldl_report, problems_foldl_includeRead, faithful.1, Stop.problems]
    · obtain rfl := List.mem_singleton.mp hq
      exact faithful.2

end Merge

end FusionTree
