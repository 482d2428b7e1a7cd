import FusionTree.Proofs.Merge.Operation

/-!
# What statements perform

When a merge accepts statements, and what they do to the tree then. In a steady context every list
of statements is steady: each does its part, and what follows a block is in the context that the
block is in.
-/

namespace FusionTree

def Context.inBlock (ctx : Context) (path : ObjectPath) (operation : Option Operation) : Context :=
  { ctx with
    blockPath := ctx.blockPath ++ path.keys
    inPrototype := isRootPrototypeDeclaration path operation }

theorem Context.Steady.inBlock {ctx : Context} (h : ctx.Steady) (path : ObjectPath)
    (operation : Option Operation) : (ctx.inBlock path operation).Steady := h

theorem Context.Extends.inBlock {ctx ctx' : Context} (larger : ctx'.Extends ctx) (path : ObjectPath)
    (operation : Option Operation) :
    (ctx'.inBlock path operation).Extends (ctx.inBlock path operation) :=
  ⟨larger.resolver, larger.dsl, larger.file, larger.chain, larger.enter⟩

namespace Merge

variable {ctx : Context} {f : Entries → Entries}

/-! ### Include statements -/

def includeFile (ctx : Context) (pattern : String) (span : Span) (file : Path) : Merge Unit :=
  if ctx.file.any (ctx.resolver.same · file) then note (.selfSkipped file)
  else if ctx.chain.any (ctx.resolver.same · file) then fail (.includeCycle file) span
  else
    match ctx.resolver.read file with
    | .error error => fail (.unreadableInclude pattern file error) span
    | .ok text =>
      note (.fileIncluded file pattern) >>= fun _ =>
        ctx.enter (Source.ofString text (some file)) ctx.chain

theorem fail_bind {α β : Type} (cause : Cause) (span : Span) (k : α → Merge β) :
    fail cause span >>= k = fail cause span := rfl

theorem includeFiles_cons (ctx : Context) (pattern : String) (span : Span) (file : Path)
    (rest : List Path) :
    includeFiles ctx pattern span (file :: rest) =
      includeFile ctx pattern span file >>= fun _ => includeFiles ctx pattern span rest := by
  rw [includeFiles, includeFile]
  cases ctx.file.any (ctx.resolver.same · file) with
  | true => rfl
  | false =>
    simp only [Bool.false_eq_true, if_false]
    cases ctx.chain.any (ctx.resolver.same · file) with
    | true => simp only [if_true, fail_bind]
    | false =>
      simp only [Bool.false_eq_true, if_false]
      cases ctx.resolver.read file with
      | error => simp only [fail_bind]
      | ok text => simp only [bind_assoc]

theorem steady_includeFile (steady : ctx.Steady) (pattern : String) (span : Span) (file : Path) :
    Steady (includeFile ctx pattern span file) := by
  unfold includeFile
  split
  · exact (performs_note _).steady
  · split
    · exact (stops_fail _ _).steady
    · split
      · exact (stops_fail _ _).steady
      · exact (performs_note _).steady.bind fun _ => (steady _ _).1

theorem steady_includeFiles (steady : ctx.Steady) (pattern : String) (span : Span)
    (files : List Path) : Steady (includeFiles ctx pattern span files) := by
  induction files with
  | nil => exact (performs_pure ()).steady
  | cons file rest ih =>
    rw [includeFiles_cons]
    exact (steady_includeFile steady pattern span file).bind fun _ => ih

/-- One file of an include statement is left out if it holds the statement; otherwise it is entered,
which is possible only if it is not being merged already. -/
theorem performs_includeFile_iff (steady : ctx.Steady) {pattern : String} {span : Span}
    {file : Path} :
    Performs (includeFile ctx pattern span file) () f ↔
      if ctx.file.any (ctx.resolver.same · file) then f = id
      else ctx.chain.any (ctx.resolver.same · file) = false ∧ ∃ text,
        ctx.resolver.read file = .ok text ∧
        Performs (ctx.enter (Source.ofString text (some file)) ctx.chain) () f := by
  unfold includeFile
  split
  · constructor
    · intro h
      exact (h.unique (performs_note _)).2
    · rintro rfl
      exact performs_note _
  · split
    · rename_i hc
      constructor
      · intro h
        exact absurd h (stops_fail _ _).not_performs
      · rintro ⟨hc', _⟩
        rw [hc] at hc'
        cases hc'
    · rename_i hc
      cases hr : ctx.resolver.read file with
      | error error =>
        constructor
        · intro h
          exact absurd h (stops_fail _ _).not_performs
        · rintro ⟨_, text, ht, _⟩
          cases ht
      | ok text =>
        change Performs (note (.fileIncluded file pattern) >>= fun _ => _) () f ↔ _
        rw [(performs_note _).performs_bind_iff fun _ => (steady _ _).1]
        constructor
        · intro h
          exact ⟨eq_false_of_ne_true hc, text, rfl, h⟩
        · rintro ⟨_, _, ⟨⟩, h⟩
          exact h

theorem performs_includeFiles_cons_iff (steady : ctx.Steady) {pattern : String} {span : Span}
    {file : Path} {rest : List Path} :
    Performs (includeFiles ctx pattern span (file :: rest)) () f ↔
      ∃ g h, Performs (includeFile ctx pattern span file) () g ∧
        Performs (includeFiles ctx pattern span rest) () h ∧ f = h ∘ g := by
  rw [includeFiles_cons]
  exact performs_seq_iff (steady_includeFile steady pattern span file)
    (steady_includeFiles steady pattern span rest)

theorem inclusion_eq (ctx : Context) (pattern : String) (span : Span) :
    inclusion ctx pattern span =
      match ctx.resolver.resolve pattern ctx.file with
      | .error error => fail (.unresolvedInclude pattern error) span
      | .ok files =>
        (if files.isEmpty then record (·.warn (.includeMatchedNothing pattern span)) else pure ())
          >>= fun _ => includeFiles ctx pattern span files := by
  unfold inclusion
  cases ctx.resolver.resolve pattern ctx.file with
  | error => rfl
  | ok files => cases files <;> rfl

theorem performs_warning (files : List Path) (warning : Warning) :
    Performs (if files.isEmpty then record (·.warn warning) else pure ()) () id := by
  split
  · exact performs_record _
  · exact performs_pure ()

theorem steady_inclusion (steady : ctx.Steady) (pattern : String) (span : Span) :
    Steady (inclusion ctx pattern span) := by
  rw [inclusion_eq]
  split
  · exact (stops_fail _ _).steady
  · exact (performs_warning _ _).steady.bind fun _ => steady_includeFiles steady pattern span _

theorem performs_inclusion_iff (steady : ctx.Steady) {pattern : String} {span : Span} :
    Performs (inclusion ctx pattern span) () f ↔
      ∃ files, ctx.resolver.resolve pattern ctx.file = .ok files ∧
        Performs (includeFiles ctx pattern span files) () f := by
  rw [inclusion_eq]
  cases ctx.resolver.resolve pattern ctx.file with
  | error error => simpa using (stops_fail _ _).not_performs
  | ok files =>
    simp only [Except.ok.injEq, exists_eq_left']
    exact (performs_warning _ _).performs_bind_iff fun _ =>
      steady_includeFiles steady pattern span _

end Merge

/-! ### Lists of statements -/

/-- Induction over a list of statements and the lists in the blocks of its statements. -/
@[elab_as_elim]
theorem Statement.induction {motive : List Statement → Prop} (nil : motive [])
    (inclusion : ∀ pattern span rest, motive rest → motive (.inclusion pattern span :: rest))
    (object : ∀ path operation rest, motive rest → motive (.object path operation none :: rest))
    (block : ∀ path operation openBrace inner closeBrace rest, motive inner → motive rest →
      motive (.object path operation (some ⟨openBrace, inner, closeBrace⟩) :: rest)) :
    (statements : List Statement) → motive statements
  | [] => nil
  | .inclusion pattern span :: rest =>
    inclusion pattern span rest (Statement.induction nil inclusion object block rest)
  | .object path operation none :: rest =>
    object path operation rest (Statement.induction nil inclusion object block rest)
  | .object path operation (some ⟨openBrace, inner, closeBrace⟩) :: rest =>
    block path operation openBrace inner closeBrace rest
      (Statement.induction nil inclusion object block inner)
      (Statement.induction nil inclusion object block rest)

namespace Merge

variable {ctx : Context} {f : Entries → Entries}

theorem statements_nil (ctx : Context) : statements ctx [] = pure () := by
  rw [statements]

theorem statements_inclusion (ctx : Context) (pattern : String) (span : Span)
    (rest : List Statement) :
    statements ctx (.inclusion pattern span :: rest) =
      inclusion ctx pattern span >>= fun _ => statements ctx rest := by
  rw [statements, statement]

theorem statements_object (ctx : Context) (path : ObjectPath) (operation : Option Operation)
    (rest : List Statement) :
    statements ctx (.object path operation none :: rest) =
      object ctx path operation >>= fun _ => statements ctx rest := by
  rw [statements, statement, discard, map_const, Function.comp_apply, bind_map_left]

theorem statements_block (ctx : Context) (path : ObjectPath) (operation : Option Operation)
    (openBrace closeBrace : Span) (inner rest : List Statement) :
    statements ctx (.object path operation (some ⟨openBrace, inner, closeBrace⟩) :: rest) =
      object ctx path operation >>= fun target =>
        statements { ctx with
          blockPath := target
          inPrototype := isRootPrototypeDeclaration path operation } inner >>= fun _ =>
            statements ctx rest := by
  rw [statements, statement, bind_assoc]

theorem statements_append (ctx : Context) (before after : List Statement) :
    statements ctx (before ++ after) =
      statements ctx before >>= fun _ => statements ctx after := by
  induction before with
  | nil => rw [List.nil_append, statements_nil, pure_bind]
  | cons s rest ih => rw [List.cons_append, statements, ih, statements, bind_assoc]

theorem steady_statements (steady : ctx.Steady) (ss : List Statement) :
    Steady (statements ctx ss) := by
  induction ss using Statement.induction generalizing ctx with
  | nil =>
    rw [statements_nil]
    exact (performs_pure ()).steady
  | inclusion pattern span rest ih =>
    rw [statements_inclusion]
    exact (steady_inclusion steady pattern span).bind fun _ => ih steady
  | object path operation rest ih =>
    rw [statements_object]
    exact (steady_object steady path operation).bind fun _ => ih steady
  | block path operation openBrace inner closeBrace rest ihInner ih =>
    have steadyInner (target : List String) : Steady (statements { ctx with
        blockPath := target
        inPrototype := isRootPrototypeDeclaration path operation } inner) := ihInner steady
    rw [statements_block]
    exact (steady_object steady path operation).bind fun target =>
      (steadyInner target).bind fun _ => ih steady

theorem statements_singleton (ctx : Context) (s : Statement) :
    statements ctx [s] = statement ctx s := by
  rw [statements, statements_nil]
  exact bind_pure_unit

theorem steady_statement (steady : ctx.Steady) (s : Statement) : Steady (statement ctx s) := by
  rw [← statements_singleton]
  exact steady_statements steady [s]

theorem performs_statements_nil_iff : Performs (statements ctx []) () f ↔ f = id := by
  rw [statements_nil, performs_pure_iff]
  exact and_iff_right rfl

theorem performs_nothing (ctx : Context) : Performs (statements ctx []) () id := performs_pure ()

theorem performs_statements_append_iff (steady : ctx.Steady) {before after : List Statement} :
    Performs (statements ctx (before ++ after)) () f ↔
      ∃ g h, Performs (statements ctx before) () g ∧ Performs (statements ctx after) () h ∧
        f = h ∘ g := by
  rw [statements_append]
  exact performs_seq_iff (steady_statements steady before) (steady_statements steady after)

theorem performs_statements_inclusion_iff (steady : ctx.Steady) {pattern : String} {span : Span}
    {rest : List Statement} :
    Performs (statements ctx (.inclusion pattern span :: rest)) () f ↔
      ∃ files g h, ctx.resolver.resolve pattern ctx.file = .ok files ∧
        Performs (includeFiles ctx pattern span files) () g ∧
        Performs (statements ctx rest) () h ∧ f = h ∘ g := by
  rw [statements_inclusion, performs_seq_iff (steady_inclusion steady pattern span)
    (steady_statements steady rest)]
  constructor
  · rintro ⟨g, h, hg, hh, rfl⟩
    obtain ⟨files, hf, hg⟩ := (performs_inclusion_iff steady).mp hg
    exact ⟨files, g, h, hf, hg, hh, rfl⟩
  · rintro ⟨files, g, h, hf, hg, hh, rfl⟩
    exact ⟨g, h, (performs_inclusion_iff steady).mpr ⟨files, hf, hg⟩, hh, rfl⟩

theorem performs_statements_object_iff (steady : ctx.Steady) {path : ObjectPath}
    {operation : Option Operation} {rest : List Statement} :
    Performs (statements ctx (.object path operation none :: rest)) () f ↔
      path.Allowed ctx.inPrototype ∧ ∃ g h,
        Operation.DoesAny ctx (ctx.blockPath ++ path.keys) g operation ∧
        Performs (statements ctx rest) () h ∧ f = h ∘ g := by
  rw [statements_object]
  exact performs_object_bind_iff steady fun _ => steady_statements steady rest

/-- The block comes after the operation, and the context after it is the one before it. -/
theorem performs_statements_block_iff (steady : ctx.Steady) {path : ObjectPath}
    {operation : Option Operation} {openBrace closeBrace : Span} {inner rest : List Statement} :
    Performs (statements ctx (.object path operation (some ⟨openBrace, inner, closeBrace⟩) :: rest))
        () f ↔
      path.Allowed ctx.inPrototype ∧ ∃ g i h,
        Operation.DoesAny ctx (ctx.blockPath ++ path.keys) g operation ∧
        Performs (statements (ctx.inBlock path operation) inner) () i ∧
        Performs (statements ctx rest) () h ∧ f = h ∘ i ∘ g := by
  have steadyInner (target : List String) : Steady (statements { ctx with
      blockPath := target
      inPrototype := isRootPrototypeDeclaration path operation } inner) := by
    apply steady_statements
    exact steady
  rw [statements_block]
  exact performs_object_block_iff steady steadyInner (steady_statements steady rest)

/-- A statement alone performs what its operation does. -/
theorem performs_one_object_iff (steady : ctx.Steady) {path : ObjectPath}
    {operation : Option Operation} :
    Performs (statements ctx [.object path operation none]) () f ↔
      path.Allowed ctx.inPrototype ∧
        Operation.DoesAny ctx (ctx.blockPath ++ path.keys) f operation := by
  rw [performs_statements_object_iff steady]
  simp [performs_statements_nil_iff]

/-- A statement alone performs what its block performs after its operation. -/
theorem performs_one_block_iff (steady : ctx.Steady) {path : ObjectPath}
    {operation : Option Operation} {block : Block Statement} :
    Performs (statements ctx [.object path operation (some block)]) () f ↔
      path.Allowed ctx.inPrototype ∧ ∃ g i,
        Operation.DoesAny ctx (ctx.blockPath ++ path.keys) g operation ∧
        Performs (statements (ctx.inBlock path operation) block.statements) () i ∧ f = i ∘ g := by
  obtain ⟨openBrace, inner, closeBrace⟩ := block
  rw [performs_statements_block_iff steady]
  simp [performs_statements_nil_iff]

/-! ### Contexts from which more can be entered -/

variable {ctx' : Context}

theorem Performs.includeFiles_of_extends {pattern : String} {span : Span} {files : List Path}
    (h : Performs (includeFiles ctx pattern span files) () f) (steady : ctx.Steady)
    (steady' : ctx'.Steady) (larger : ctx'.Extends ctx) :
    Performs (includeFiles ctx' pattern span files) () f := by
  induction files generalizing f with
  | nil => exact h
  | cons file rest ih =>
    obtain ⟨g, k, hg, hk, rfl⟩ := (performs_includeFiles_cons_iff steady).mp h
    refine (performs_includeFiles_cons_iff steady').mpr ⟨g, k, ?_, ih hk, rfl⟩
    rw [performs_includeFile_iff steady] at hg
    rw [performs_includeFile_iff steady', larger.resolver, larger.file, larger.chain]
    split at hg
    · rename_i skipped
      rwa [if_pos skipped]
    · rename_i entered
      obtain ⟨fresh, text, read, performs⟩ := hg
      rw [if_neg entered]
      exact ⟨fresh, text, read, larger.enter _ _ _ performs⟩

/-- Statements perform the same in a context from which more can be entered. -/
theorem Performs.statements_of_extends {ss : List Statement}
    (h : Performs (statements ctx ss) () f) (steady : ctx.Steady) (steady' : ctx'.Steady)
    (larger : ctx'.Extends ctx) (path : ctx'.blockPath = ctx.blockPath)
    (flag : ctx'.inPrototype = ctx.inPrototype) : Performs (statements ctx' ss) () f := by
  induction ss using Statement.induction generalizing ctx ctx' f with
  | nil => exact performs_statements_nil_iff.mpr (performs_statements_nil_iff.mp h)
  | inclusion pattern span rest ih =>
    obtain ⟨files, g, k, resolved, hg, hk, rfl⟩ := (performs_statements_inclusion_iff steady).mp h
    refine (performs_statements_inclusion_iff steady').mpr ⟨files, g, k, ?_, ?_, ?_, rfl⟩
    · rw [larger.resolver, larger.file, resolved]
    · exact hg.includeFiles_of_extends steady steady' larger
    · exact ih hk steady steady' larger path flag
  | object p operation rest ih =>
    obtain ⟨allowed, g, k, hg, hk, rfl⟩ := (performs_statements_object_iff steady).mp h
    refine (performs_statements_object_iff steady').mpr ⟨flag ▸ allowed, g, k, ?_, ?_, rfl⟩
    · rw [path]
      exact hg.of_extends steady steady' larger (flag ▸ hg.allowed)
    · exact ih hk steady steady' larger path flag
  | block p operation openBrace inner closeBrace rest ihInner ih =>
    obtain ⟨allowed, g, i, k, hg, hi, hk, rfl⟩ := (performs_statements_block_iff steady).mp h
    refine (performs_statements_block_iff steady').mpr
      ⟨flag ▸ allowed, g, i, k, ?_, ?_, ?_, rfl⟩
    · rw [path]
      exact hg.of_extends steady steady' larger (flag ▸ hg.allowed)
    · exact ihInner hi (steady.inBlock p operation) (steady'.inBlock p operation)
        (larger.inBlock p operation) (by simp only [Context.inBlock, path]) rfl
    · exact ih hk steady steady' larger path flag

end Merge

end FusionTree
