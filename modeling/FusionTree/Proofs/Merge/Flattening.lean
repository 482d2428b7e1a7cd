import FusionTree.Proofs.Merge.Source

/-!
# Statements without blocks

A block is short for statements about longer paths. Writing them out changes nothing that a merge
does, as long as no `@private` stands in the block: that property is the only thing that depends on
the block a statement stands in other than by its path.
-/

namespace FusionTree

/-! ### Writing out blocks -/

def ObjectPath.operated (path : ObjectPath) (operation : Option Operation) : List Statement :=
  operation.toList.map fun op => .object path (some op) none

mutual

/-- What a statement in a block of the path says, written without blocks. -/
def Statement.flatten (outer : List PathSegment) : Statement → List Statement
  | .inclusion pattern span => [.inclusion pattern span]
  | .object path operation none => [.object ⟨outer ++ path.segments⟩ operation none]
  | .object path operation (some ⟨_, inner, _⟩) =>
    ObjectPath.operated ⟨outer ++ path.segments⟩ operation ++
      Statement.flattenAll (outer ++ path.segments) inner

def Statement.flattenAll (outer : List PathSegment) : List Statement → List Statement
  | [] => []
  | s :: rest => s.flatten outer ++ Statement.flattenAll outer rest

end

theorem Statement.block_eq_none_of_mem_flattenAll {ss : List Statement}
    {outer : List PathSegment} {path : ObjectPath} {operation : Option Operation}
    {block : Option (Block Statement)}
    (h : .object path operation block ∈ Statement.flattenAll outer ss) : block = none := by
  induction ss using Statement.induction generalizing outer with
  | nil =>
    rw [Statement.flattenAll] at h
    cases h
  | inclusion pattern span rest ih =>
    rw [Statement.flattenAll, Statement.flatten] at h
    rcases List.mem_cons.mp h with h | h
    · cases h
    · exact ih h
  | object p op rest ih =>
    rw [Statement.flattenAll, Statement.flatten] at h
    rcases List.mem_cons.mp h with h | h
    · cases h
      rfl
    · exact ih h
  | block p op openBrace inner closeBrace rest ihInner ih =>
    rw [Statement.flattenAll, Statement.flatten] at h
    rcases List.mem_append.mp h with h | h
    · rcases List.mem_append.mp h with h | h
      · obtain ⟨_, _, h⟩ := List.mem_map.mp h
        cases h
        rfl
      · exact ihInner h
    · exact ih h

/-- Whether `@private` stands in the path of an object or of the source of its copy. -/
def ObjectPath.mentionsPrivate (path : ObjectPath) (operation : Option Operation) : Bool :=
  path.segments.any PathSegment.isPrivate ||
    match operation with
    | some (.copy source) => source.path.segments.any PathSegment.isPrivate
    | _ => false

mutual

def Statement.mentionsPrivate : Statement → Bool
  | .inclusion .. => false
  | .object path operation none => path.mentionsPrivate operation
  | .object path operation (some ⟨_, inner, _⟩) =>
    path.mentionsPrivate operation || Statement.anyMentionsPrivate inner

def Statement.anyMentionsPrivate : List Statement → Bool
  | [] => false
  | s :: rest => s.mentionsPrivate || Statement.anyMentionsPrivate rest

end

/-- The second statements are the first ones with one block written out, at any depth. -/
inductive FlattensTo : List Statement → List Statement → Prop
  | here (before : List Statement) (path : ObjectPath) (operation : Option Operation)
      (block : Block Statement) (after : List Statement)
      (noPrivate : Statement.anyMentionsPrivate block.statements = false) :
      FlattensTo (before ++ .object path operation (some block) :: after)
        (before ++ (Statement.object path operation (some block)).flatten [] ++ after)
  | inside (before : List Statement) (path : ObjectPath) (operation : Option Operation)
      (openBrace closeBrace : Span) {inner inner' : List Statement} (after : List Statement)
      (h : FlattensTo inner inner') :
      FlattensTo (before ++ .object path operation (some ⟨openBrace, inner, closeBrace⟩) :: after)
        (before ++ .object path operation (some ⟨openBrace, inner', closeBrace⟩) :: after)

/-- Statements that are nothing but blocks around such statements. -/
inductive Hollow : List Statement → Prop
  | nil : Hollow []
  | cons (path : ObjectPath) (openBrace closeBrace : Span) {inner rest : List Statement}
      (block : Hollow inner) (more : Hollow rest) :
      Hollow (.object path none (some ⟨openBrace, inner, closeBrace⟩) :: rest)

/-! ### Inside and outside a block -/

def Context.below (ctx : Context) (outer : List PathSegment) (inPrototype : Bool) : Context :=
  { ctx with blockPath := ctx.blockPath ++ outer.flatMap PathSegment.keys, inPrototype }

theorem Context.below_inBlock (ctx : Context) (outer : List PathSegment) (b : Bool)
    (path : ObjectPath) (operation : Option Operation) :
    (ctx.below outer b).inBlock path operation =
      ctx.below (outer ++ path.segments) (isRootPrototypeDeclaration path operation) := by
  simp only [Context.below, Context.inBlock, ObjectPath.keys, List.flatMap_append,
    List.append_assoc]

theorem ObjectPath.keys_append (outer : List PathSegment) (path : ObjectPath) :
    ObjectPath.keys ⟨outer ++ path.segments⟩ = outer.flatMap PathSegment.keys ++ path.keys :=
  List.flatMap_append

theorem ObjectPath.Allowed.of_no_private {path : ObjectPath} {b c : Bool} (h : path.Allowed b)
    (noPrivate : path.segments.any PathSegment.isPrivate = false) : path.Allowed c := by
  intro s hs
  have : ¬s.isPrivate = true := List.any_eq_false.mp noPrivate s hs
  exact (h s hs).of_not_isPrivate (eq_false_of_ne_true this)

theorem ObjectPath.Allowed.append {outer : List PathSegment} {path : ObjectPath} {b : Bool}
    (houter : ∀ s ∈ outer, s.Allowed b) (h : path.Allowed b) :
    ObjectPath.Allowed b ⟨outer ++ path.segments⟩ := by
  intro s hs
  rcases List.mem_append.mp hs with hs | hs
  · exact houter s hs
  · exact h s hs

/-- Where `@private` is not mentioned, a path and an operation on it may stand in any block. -/
theorem ObjectPath.allowed_of_no_private {path : ObjectPath} {operation : Option Operation}
    {b : Bool} (c : Bool) (noPrivate : path.mentionsPrivate operation = false)
    (hp : path.Allowed b) (ho : Operation.Allowed b operation) :
    path.Allowed c ∧ Operation.Allowed c operation := by
  obtain ⟨inPath, inSource⟩ := Bool.or_eq_false_iff.mp noPrivate
  refine ⟨hp.of_no_private inPath, ?_⟩
  cases operation with
  | none => trivial
  | some op =>
    cases op with
    | copy source => exact ObjectPath.Allowed.of_no_private ho inSource
    | _ => trivial

namespace Merge

variable {ctx : Context} {f : Entries → Entries}

theorem extends_below (ctx : Context) (outer : List PathSegment) (b : Bool) :
    ctx.Extends (ctx.below outer b) :=
  ⟨rfl, rfl, rfl, rfl, fun _ _ _ h => h⟩

theorem performs_operated (steady : ctx.Steady) {path : ObjectPath} {operation : Option Operation}
    (allowed : path.Allowed ctx.inPrototype)
    (does : Operation.DoesAny ctx (ctx.blockPath ++ path.keys) f operation) :
    Performs (statements ctx (path.operated operation)) () f := by
  cases operation with
  | none =>
    obtain rfl : f = id := does
    exact performs_statements_nil_iff.mpr rfl
  | some op =>
    exact (performs_statements_object_iff steady).mpr
      ⟨allowed, f, id, does, performs_statements_nil_iff.mpr rfl, rfl⟩

/-- What an operation does in a block it also does outside, to the longer path. -/
theorem does_outside (steady : ctx.Steady) {outer : List PathSegment} {b : Bool}
    {path : ObjectPath} {operation : Option Operation}
    (houter : ∀ s ∈ outer, s.Allowed ctx.inPrototype)
    (noPrivate : path.mentionsPrivate operation = false) (allowed : path.Allowed b)
    (does : Operation.DoesAny (ctx.below outer b) ((ctx.below outer b).blockPath ++ path.keys) f
      operation) :
    ObjectPath.Allowed ctx.inPrototype ⟨outer ++ path.segments⟩ ∧
      Operation.DoesAny ctx (ctx.blockPath ++ ObjectPath.keys ⟨outer ++ path.segments⟩) f
        operation := by
  obtain ⟨hp, ho⟩ :=
    ObjectPath.allowed_of_no_private ctx.inPrototype noPrivate allowed does.allowed
  refine ⟨.append houter hp, ?_⟩
  rw [ObjectPath.keys_append, ← List.append_assoc]
  exact does.of_extends steady steady (extends_below ctx outer b) ho

/-- Statements in a block perform outside of it what they perform inside, once they are written
without blocks. The segments around them grow with every block, so they are general here. -/
theorem performs_flattenAll (steady : ctx.Steady) {outer : List PathSegment} {b : Bool}
    {ss : List Statement} (houter : ∀ s ∈ outer, s.Allowed ctx.inPrototype)
    (noPrivate : Statement.anyMentionsPrivate ss = false)
    (h : Performs (statements (ctx.below outer b) ss) () f) :
    Performs (statements ctx (Statement.flattenAll outer ss)) () f := by
  have steadyBelow : (ctx.below outer b).Steady := steady
  induction ss using Statement.induction generalizing outer b f with
  | nil =>
    rw [Statement.flattenAll]
    exact performs_statements_nil_iff.mpr (performs_statements_nil_iff.mp h)
  | inclusion pattern span rest ih =>
    obtain ⟨files, g, k, resolved, hg, hk, rfl⟩ :=
      (performs_statements_inclusion_iff steadyBelow).mp h
    rw [Statement.flattenAll, Statement.flatten]
    exact (performs_statements_inclusion_iff steady).mpr ⟨files, g, k, resolved,
      hg.includeFiles_of_extends steadyBelow steady (extends_below ctx outer b),
      ih houter noPrivate hk steady, rfl⟩
  | object path operation rest ih =>
    obtain ⟨allowed, g, k, does, hk, rfl⟩ := (performs_statements_object_iff steadyBelow).mp h
    obtain ⟨here, later⟩ := Bool.or_eq_false_iff.mp noPrivate
    obtain ⟨hp, hg⟩ := does_outside steady houter here allowed does
    rw [Statement.flattenAll, Statement.flatten]
    exact (performs_statements_object_iff steady).mpr
      ⟨hp, g, k, hg, ih houter later hk steady, rfl⟩
  | block path operation openBrace inner closeBrace rest ihInner ih =>
    obtain ⟨allowed, g, i, k, does, hi, hk, rfl⟩ :=
      (performs_statements_block_iff steadyBelow).mp h
    obtain ⟨here, later⟩ := Bool.or_eq_false_iff.mp noPrivate
    obtain ⟨head, block⟩ := Bool.or_eq_false_iff.mp here
    obtain ⟨hp, hg⟩ := does_outside steady houter head allowed does
    rw [Context.below_inBlock] at hi
    rw [Statement.flattenAll, Statement.flatten, performs_statements_append_iff steady]
    refine ⟨i ∘ g, k, ?_, ih houter later hk steady, rfl⟩
    exact (performs_statements_append_iff steady).mpr
      ⟨g, i, performs_operated steady hp hg, ihInner hp block hi steady, rfl⟩

/-- Writing out one block changes nothing, wherever it stands. -/
theorem Performs.flatten {nested flat : List Statement} (h : FlattensTo nested flat)
    (steady : ctx.Steady) (hf : Performs (statements ctx nested) () f) :
    Performs (statements ctx flat) () f := by
  induction h generalizing ctx f with
  | here before path operation block after noPrivate =>
    obtain ⟨openBrace, inner, closeBrace⟩ := block
    obtain ⟨g, k, hg, hk, rfl⟩ := (performs_statements_append_iff steady).mp hf
    obtain ⟨allowed, o, i, a, does, hi, ha, rfl⟩ := (performs_statements_block_iff steady).mp hk
    have block := performs_flattenAll steady allowed noPrivate hi
    rw [Statement.flatten]
    refine (performs_statements_append_iff steady).mpr ⟨i ∘ o ∘ g, a, ?_, ha, rfl⟩
    refine (performs_statements_append_iff steady).mpr ⟨g, i ∘ o, hg, ?_, rfl⟩
    exact (performs_statements_append_iff steady).mpr
      ⟨o, i, performs_operated steady allowed does, block, rfl⟩
  | inside before path operation openBrace closeBrace after h ih =>
    obtain ⟨g, k, hg, hk, rfl⟩ := (performs_statements_append_iff steady).mp hf
    obtain ⟨allowed, o, i, a, does, hi, ha, rfl⟩ := (performs_statements_block_iff steady).mp hk
    refine (performs_statements_append_iff steady).mpr ⟨g, a ∘ i ∘ o, hg, ?_, rfl⟩
    exact (performs_statements_block_iff steady).mpr
      ⟨allowed, o, i, a, does, ih (steady.inBlock path operation) hi, ha, rfl⟩

theorem Performs.eq_id_of_hollow {ss : List Statement} (h : Hollow ss) (steady : ctx.Steady)
    (hf : Performs (statements ctx ss) () f) : f = id := by
  induction h generalizing ctx f with
  | nil => exact performs_statements_nil_iff.mp hf
  | cons path openBrace closeBrace block more ihBlock ihMore =>
    obtain ⟨_, g, i, k, does, hi, hk, rfl⟩ := (performs_statements_block_iff steady).mp hf
    obtain rfl : g = id := does
    obtain rfl := ihBlock (steady.inBlock path none) hi
    obtain rfl := ihMore steady hk
    rfl

/-- Where statements are accepted, they are accepted with a block written out too, and make the same
tree from every tree. Blocks without operations make none, and what follows a block is merged as if
it stood before it. -/
theorem flatten_preserves_tree (resolver : Resolver) (dsl : DslRegistry) (depth : Nat)
    (src : Source) (chain : List Path) (blockPath : List String) (inPrototype : Bool) :
    let ctx := { Context.ofSource resolver dsl depth src chain with blockPath, inPrototype }
    (∀ nested flat, FlattensTo nested flat → ∀ s s', statements ctx nested s = .ok () s' →
      ∀ t, ∃ u v, statements ctx nested t = .ok () u ∧ statements ctx flat t = .ok () v ∧
        v.tree = u.tree) ∧
    (∀ ss, Hollow ss → ∀ s s', statements ctx ss s = .ok () s' → s'.tree = s.tree) ∧
    ∀ before path operation block after,
      statements ctx (before ++ .object path operation (some block) :: after) = (do
        statements ctx before
        statement ctx (.object path operation (some block))
        statements ctx after) := by
  intro ctx
  have steady : ctx.Steady := Context.steady_ofSource resolver dsl depth src chain
  refine ⟨fun nested flat h s s' accepted t => ?_, fun ss h s s' accepted => ?_,
    fun before path operation block after => ?_⟩
  · obtain ⟨f, hf, _⟩ := (steady_statements steady nested).performs_of_ok accepted
    obtain ⟨j, hj⟩ := hf t
    obtain ⟨j', hj'⟩ := hf.flatten h steady t
    exact ⟨_, _, hj, hj', rfl⟩
  · obtain ⟨f, hf, hs'⟩ := (steady_statements steady ss).performs_of_ok accepted
    rw [hs', hf.eq_id_of_hollow h steady]
    rfl
  · rw [statements_append, statements]

/-- The block of `a = 1 { b < .c { d > } }`, which begins with a copy seen from its target. -/
def sampleBlock : Block Statement where
  openBrace := Span.dummy
  statements := [.object ⟨[.plain "b" Span.dummy]⟩
    (some (.copy { path := ⟨[.plain "c" Span.dummy]⟩, relative := true }))
    (some ⟨Span.dummy, [.object ⟨[.plain "d" Span.dummy]⟩ (some (.unset Span.dummy)) none],
      Span.dummy⟩)]
  closeBrace := Span.dummy

theorem flatten_preserves_tree_of_sampleBlock :
    let resolver : Resolver :=
      { resolve := fun _ _ => .ok [], read := fun _ => .ok "", same := (· == ·) }
    let ctx := Context.ofSource resolver {} 1 Source.nowhere []
    let object := Statement.object ⟨[.plain "a" Span.dummy]⟩ (some (.assign (.int 1 Span.dummy)))
      (some sampleBlock)
    ∃ u v, statements ctx [object] {} = .ok () u ∧
      statements ctx (object.flatten []) {} = .ok () v ∧ v.tree = u.tree := by
  intro resolver ctx object
  obtain ⟨⟨⟩, s', accepted⟩ : ∃ a s', statements ctx [object] {} = .ok a s' :=
    exists_of_succeeds (by decide +kernel)
  have flattened : FlattensTo [object] (object.flatten []) := by
    have := FlattensTo.here [] ⟨[.plain "a" Span.dummy]⟩ (some (.assign (.int 1 Span.dummy)))
      sampleBlock [] rfl
    rwa [List.append_nil] at this
  exact (flatten_preserves_tree resolver {} 1 Source.nowhere [] [] false).1 _ _ flattened _ _
    accepted {}

end Merge

end FusionTree
