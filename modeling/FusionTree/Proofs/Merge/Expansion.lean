import FusionTree.Proofs.Merge.Source

/-!
# Sources with their includes put in

The expansion of a source has the statements of its files where its include statements stand, in the
order of inclusion and down to any depth. Merging it opens no file, and makes the tree that the
source makes. What is put in for an include belongs to no block, whatever stands around it.
-/

namespace FusionTree

/-- A statement of an expansion: what happens to an object, or a file that has been put in. -/
inductive Expanded
  | object (path : ObjectPath) (operation : Option Operation) (block : Option (List Expanded))
  | file (path : Path) (statements : List Expanded)

def Context.inFile (ctx : Context) (file : Path) : Context :=
  { ctx with
    file := some file, chain := ctx.chain ++ [file], blockPath := [], inPrototype := false }

namespace Expanded

mutual

def merge (ctx : Context) : Expanded → Merge Unit
  | object path operation none => discard (Merge.object ctx path operation)
  | object path operation (some inner) => do
    let target ← Merge.object ctx path operation
    mergeAll { ctx with
      blockPath := target
      inPrototype := isRootPrototypeDeclaration path operation } inner
  | file path inner => mergeAll (ctx.inFile path) inner

def mergeAll (ctx : Context) : List Expanded → Merge Unit
  | [] => pure ()
  | item :: rest => do
    item.merge ctx
    mergeAll ctx rest

end

/-- The files of an include statement with what they hold. The file of the statement itself is left
out. -/
def ofFiles (same : Path → Path → Bool) (holder : Option Path)
    (contents : Path → Option (List Expanded)) : List Path → Option (List Expanded)
  | [] => some []
  | path :: rest =>
    if holder.any (same · path) then ofFiles same holder contents rest
    else do
      let inner ← contents path
      let more ← ofFiles same holder contents rest
      return file path inner :: more

end Expanded

mutual

/-- Puts the contents of files in place of the include statements of a statement. -/
def Statement.expand? (resolver : Resolver) (holder : Option Path)
    (contents : Path → Option (List Expanded)) : Statement → Option (List Expanded)
  | .inclusion pattern _ => do
    let files ← (resolver.resolve pattern holder).toOption
    Expanded.ofFiles resolver.same holder contents files
  | .object path operation none => some [.object path operation none]
  | .object path operation (some ⟨_, inner, _⟩) => do
    let inner ← Statement.expandAll? resolver holder contents inner
    return [.object path operation (some inner)]

def Statement.expandAll? (resolver : Resolver) (holder : Option Path)
    (contents : Path → Option (List Expanded)) : List Statement → Option (List Expanded)
  | [] => some []
  | s :: rest => do
    let first ← s.expand? resolver holder contents
    let more ← Statement.expandAll? resolver holder contents rest
    return first ++ more

end

/-- A source with its includes put in, unless something cannot be read or goes too deep. -/
def Source.expand? (resolver : Resolver) : (depth : Nat) → Source → Option (List Expanded)
  | 0, _ => none
  | depth + 1, src => do
    let ss ← src.statements?
    let contents (file : Path) : Option (List Expanded) := do
      let text ← (resolver.read file).toOption
      Source.expand? resolver depth (Source.ofString text (some file))
    Statement.expandAll? resolver src.path contents ss

mutual

def Statement.isClosed : Statement → Bool
  | .inclusion .. => false
  | .object _ _ none => true
  | .object _ _ (some ⟨_, inner, _⟩) => Statement.allClosed inner

def Statement.allClosed : List Statement → Bool
  | [] => true
  | s :: rest => s.isClosed && Statement.allClosed rest

end

namespace Expanded

/-- Induction over a list of expanded statements and the lists in its blocks and files. -/
@[elab_as_elim]
theorem induction {motive : List Expanded → Prop} (nil : motive [])
    (object : ∀ path operation rest, motive rest → motive (.object path operation none :: rest))
    (block : ∀ path operation inner rest, motive inner → motive rest →
      motive (.object path operation (some inner) :: rest))
    (file : ∀ path inner rest, motive inner → motive rest → motive (.file path inner :: rest)) :
    (items : List Expanded) → motive items
  | [] => nil
  | .object path operation none :: rest =>
    object path operation rest (induction nil object block file rest)
  | .object path operation (some inner) :: rest =>
    block path operation inner rest (induction nil object block file inner)
      (induction nil object block file rest)
  | .file path inner :: rest =>
    file path inner rest (induction nil object block file inner)
      (induction nil object block file rest)

variable {ctx : Context} {f : Entries → Entries}

open Merge

theorem mergeAll_object (ctx : Context) (path : ObjectPath) (operation : Option Operation)
    (rest : List Expanded) :
    mergeAll ctx (.object path operation none :: rest) =
      Merge.object ctx path operation >>= fun _ => mergeAll ctx rest := by
  rw [mergeAll, merge, discard, map_const, Function.comp_apply, bind_map_left]

theorem mergeAll_block (ctx : Context) (path : ObjectPath) (operation : Option Operation)
    (inner rest : List Expanded) :
    mergeAll ctx (.object path operation (some inner) :: rest) =
      Merge.object ctx path operation >>= fun target =>
        mergeAll { ctx with
          blockPath := target
          inPrototype := isRootPrototypeDeclaration path operation } inner >>= fun _ =>
            mergeAll ctx rest := by
  rw [mergeAll, merge, bind_assoc]

theorem mergeAll_file (ctx : Context) (path : Path) (inner rest : List Expanded) :
    mergeAll ctx (.file path inner :: rest) =
      mergeAll (ctx.inFile path) inner >>= fun _ => mergeAll ctx rest := by
  rw [mergeAll, merge]

/-- Where there is nothing to put in, the expansion is merged as the statements themselves are. -/
theorem mergeAll_eq_statements {resolver : Resolver} {holder : Option Path}
    {contents : Path → Option (List Expanded)} {ss : List Statement} {items : List Expanded}
    (closed : Statement.allClosed ss = true)
    (h : Statement.expandAll? resolver holder contents ss = some items) (ctx : Context) :
    mergeAll ctx items = Merge.statements ctx ss := by
  induction ss using Statement.induction generalizing ctx items with
  | nil =>
    rw [Statement.expandAll?] at h
    cases h
    rw [mergeAll, Merge.statements_nil]
  | inclusion pattern span rest => cases closed
  | object path operation rest ih =>
    rw [Statement.expandAll?, Statement.expand?] at h
    simp only [bind, Option.bind_eq_some_iff, pure, Option.some.injEq] at h
    obtain ⟨_, rfl, more, hmore, rfl⟩ := h
    rw [List.singleton_append, mergeAll_object, Merge.statements_object]
    exact bind_congr fun _ => ih closed hmore ctx
  | block path operation openBrace inner closeBrace rest ihInner ih =>
    rw [Statement.expandAll?, Statement.expand?] at h
    simp only [bind, Option.bind_eq_some_iff, pure, Option.some.injEq] at h
    obtain ⟨_, ⟨block, hblock, rfl⟩, more, hmore, rfl⟩ := h
    obtain ⟨closedInner, closedRest⟩ := Bool.and_eq_true_iff.mp closed
    rw [List.singleton_append, mergeAll_block, Merge.statements_block]
    refine bind_congr fun target => ?_
    rw [ihInner closedInner hblock, ih closedRest hmore]

theorem mergeAll_append (ctx : Context) (before after : List Expanded) :
    mergeAll ctx (before ++ after) = mergeAll ctx before >>= fun _ => mergeAll ctx after := by
  induction before with
  | nil => rw [List.nil_append, mergeAll, pure_bind]
  | cons item rest ih => rw [List.cons_append, mergeAll, ih, mergeAll, bind_assoc]

theorem steady_mergeAll (steady : ctx.Steady) (items : List Expanded) :
    Steady (mergeAll ctx items) := by
  induction items using Expanded.induction generalizing ctx with
  | nil =>
    rw [mergeAll]
    exact (performs_pure ()).steady
  | object path operation rest ih =>
    rw [mergeAll_object]
    exact (steady_object steady path operation).bind fun _ => ih steady
  | block path operation inner rest ihInner ih =>
    rw [mergeAll_block]
    refine (steady_object steady path operation).bind fun target => ?_
    refine Steady.bind ?_ fun _ => ih steady
    apply ihInner
    exact steady
  | file path inner rest ihInner ih =>
    rw [mergeAll_file]
    refine Steady.bind ?_ fun _ => ih steady
    apply ihInner
    exact steady

theorem performs_mergeAll_nil_iff : Performs (mergeAll ctx []) () f ↔ f = id := by
  rw [mergeAll, performs_pure_iff]
  exact and_iff_right rfl

theorem performs_mergeAll_append {before after : List Expanded} {g h : Entries → Entries}
    (hg : Performs (mergeAll ctx before) () g) (hh : Performs (mergeAll ctx after) () h) :
    Performs (mergeAll ctx (before ++ after)) () (h ∘ g) := by
  rw [mergeAll_append]
  exact hg.bind hh

theorem performs_mergeAll_object_iff (steady : ctx.Steady) {path : ObjectPath}
    {operation : Option Operation} {rest : List Expanded} :
    Performs (mergeAll ctx (.object path operation none :: rest)) () f ↔
      path.Allowed ctx.inPrototype ∧ ∃ g h,
        Operation.DoesAny ctx (ctx.blockPath ++ path.keys) g operation ∧
        Performs (mergeAll ctx rest) () h ∧ f = h ∘ g := by
  rw [mergeAll_object]
  exact performs_object_bind_iff steady fun _ => steady_mergeAll steady rest

theorem performs_mergeAll_block_iff (steady : ctx.Steady) {path : ObjectPath}
    {operation : Option Operation} {inner rest : List Expanded} :
    Performs (mergeAll ctx (.object path operation (some inner) :: rest)) () f ↔
      path.Allowed ctx.inPrototype ∧ ∃ g i h,
        Operation.DoesAny ctx (ctx.blockPath ++ path.keys) g operation ∧
        Performs (mergeAll (ctx.inBlock path operation) inner) () i ∧
        Performs (mergeAll ctx rest) () h ∧ f = h ∘ i ∘ g := by
  have steadyInner (target : List String) : Steady (mergeAll { ctx with
      blockPath := target
      inPrototype := isRootPrototypeDeclaration path operation } inner) := by
    apply steady_mergeAll
    exact steady
  rw [mergeAll_block]
  exact performs_object_block_iff steady steadyInner (steady_mergeAll steady rest)

theorem performs_mergeAll_file_iff (steady : ctx.Steady) {path : Path}
    {inner rest : List Expanded} :
    Performs (mergeAll ctx (.file path inner :: rest)) () f ↔
      ∃ g h, Performs (mergeAll (ctx.inFile path) inner) () g ∧
        Performs (mergeAll ctx rest) () h ∧ f = h ∘ g := by
  have steadyInner : Steady (mergeAll (ctx.inFile path) inner) := by
    apply steady_mergeAll
    exact steady
  rw [mergeAll_file]
  exact performs_seq_iff steadyInner (steady_mergeAll steady rest)

end Expanded

namespace Merge

variable {ctx ctx' : Context} {f : Entries → Entries}

/-- The contents of a file stand for whatever the context enters there. -/
def HoldContents (ctx ctx' : Context) (contents : Path → Option (List Expanded)) : Prop :=
  ∀ file text g, ctx.resolver.read file = .ok text →
    Performs (ctx.enter (Source.ofString text (some file)) ctx.chain) () g →
      ∃ inner, contents file = some inner ∧
        Performs (Expanded.mergeAll (ctx'.inFile file) inner) () g

theorem performs_ofFiles {contents : Path → Option (List Expanded)} {pattern : String}
    {span : Span} {files : List Path} (steady : ctx.Steady) (steady' : ctx'.Steady)
    (hold : HoldContents ctx ctx' contents)
    (h : Performs (includeFiles ctx pattern span files) () f) :
    ∃ items, Expanded.ofFiles ctx.resolver.same ctx.file contents files = some items ∧
      Performs (Expanded.mergeAll ctx' items) () f := by
  induction files generalizing f with
  | nil => exact ⟨[], rfl, Expanded.performs_mergeAll_nil_iff.mpr (performs_pure_iff.mp h).2⟩
  | cons file rest ih =>
    obtain ⟨g, k, hg, hk, rfl⟩ := (performs_includeFiles_cons_iff steady).mp h
    obtain ⟨more, hmore, performsMore⟩ := ih hk
    rw [performs_includeFile_iff steady] at hg
    rw [Expanded.ofFiles]
    split at hg
    · rename_i skipped
      obtain rfl := hg
      exact ⟨more, by rw [if_pos skipped, hmore], performsMore⟩
    · rename_i entered
      obtain ⟨_, text, read, performs⟩ := hg
      obtain ⟨inner, hinner, performsInner⟩ := hold file text g read performs
      refine ⟨.file file inner :: more, ?_, ?_⟩
      · rw [if_neg entered, hinner, hmore]
        rfl
      · exact (Expanded.performs_mergeAll_file_iff steady').mpr
          ⟨g, k, performsInner, performsMore, rfl⟩

theorem performs_expandAll {contents : Path → Option (List Expanded)} {ss : List Statement}
    (steady : ctx.Steady) (steady' : ctx'.Steady) (larger : ctx'.Extends ctx)
    (path : ctx'.blockPath = ctx.blockPath) (flag : ctx'.inPrototype = ctx.inPrototype)
    (hold : HoldContents ctx ctx' contents) (h : Performs (statements ctx ss) () f) :
    ∃ items, Statement.expandAll? ctx.resolver ctx.file contents ss = some items ∧
      Performs (Expanded.mergeAll ctx' items) () f := by
  induction ss using Statement.induction generalizing ctx ctx' f with
  | nil =>
    obtain rfl := performs_statements_nil_iff.mp h
    exact ⟨[], by rw [Statement.expandAll?], Expanded.performs_mergeAll_nil_iff.mpr rfl⟩
  | inclusion pattern span rest ih =>
    obtain ⟨files, g, k, resolved, hg, hk, rfl⟩ := (performs_statements_inclusion_iff steady).mp h
    obtain ⟨put, hput, performsPut⟩ := performs_ofFiles steady steady' hold hg
    obtain ⟨more, hmore, performsMore⟩ := ih steady steady' larger path flag hold hk
    refine ⟨put ++ more, ?_, Expanded.performs_mergeAll_append performsPut performsMore⟩
    rw [Statement.expandAll?, Statement.expand?, resolved, hmore]
    simp [Except.toOption, hput]
  | object p operation rest ih =>
    obtain ⟨allowed, g, k, does, hk, rfl⟩ := (performs_statements_object_iff steady).mp h
    obtain ⟨more, hmore, performsMore⟩ := ih steady steady' larger path flag hold hk
    refine ⟨.object p operation none :: more, ?_, ?_⟩
    · rw [Statement.expandAll?, Statement.expand?, hmore]
      rfl
    · refine (Expanded.performs_mergeAll_object_iff steady').mpr
        ⟨flag ▸ allowed, g, k, ?_, performsMore, rfl⟩
      rw [path]
      exact does.of_extends steady steady' larger (flag ▸ does.allowed)
  | block p operation openBrace inner closeBrace rest ihInner ih =>
    obtain ⟨allowed, g, i, k, does, hi, hk, rfl⟩ := (performs_statements_block_iff steady).mp h
    obtain ⟨block, hblock, performsBlock⟩ := ihInner (steady.inBlock p operation)
      (steady'.inBlock p operation) (larger.inBlock p operation)
      (by simp only [Context.inBlock, path]) rfl hold hi
    obtain ⟨more, hmore, performsMore⟩ := ih steady steady' larger path flag hold hk
    refine ⟨.object p operation (some block) :: more, ?_, ?_⟩
    · rw [Statement.expandAll?, Statement.expand?, hmore]
      have hblock : Statement.expandAll? ctx.resolver ctx.file contents inner = some block := hblock
      rw [hblock]
      rfl
    · refine (Expanded.performs_mergeAll_block_iff steady').mpr
        ⟨flag ▸ allowed, g, i, k, ?_, performsBlock, performsMore, rfl⟩
      rw [path]
      exact does.of_extends steady steady' larger (flag ▸ does.allowed)

/-- The depth of the merge is that of a whole run, wherever in it the source stands. -/
theorem performs_expand {resolver : Resolver} {dsl : DslRegistry} {depth runDepth : Nat}
    {src : Source} {chain : List Path} (le : depth ≤ runDepth)
    (h : Performs (source resolver dsl depth src chain) () f) :
    ∃ items, src.expand? resolver depth = some items ∧
      Performs (Expanded.mergeAll (Context.ofSource resolver dsl runDepth src chain) items) ()
        f := by
  induction depth generalizing src chain f with
  | zero => exact absurd h (stops_throw .depthExceeded).not_performs
  | succ depth ih =>
    obtain ⟨ss, read, performs⟩ := performs_source_succ_iff.mp h
    have larger : (Context.ofSource resolver dsl runDepth src chain).Extends
        (Context.ofSource resolver dsl depth src chain) :=
      ⟨rfl, rfl, rfl, rfl, fun _ _ _ hg => hg.source_of_le (Nat.le_of_succ_le le)⟩
    have hold : HoldContents (Context.ofSource resolver dsl depth src chain)
        (Context.ofSource resolver dsl runDepth src chain) (fun file => do
          let text ← (resolver.read file).toOption
          Source.expand? resolver depth (Source.ofString text (some file))) := by
      intro file text g hread hg
      obtain ⟨inner, hinner, performsInner⟩ := ih (Nat.le_of_succ_le le) hg
      have hread : resolver.read file = .ok text := hread
      exact ⟨inner, by simp [hread, Except.toOption, hinner], performsInner⟩
    obtain ⟨items, hitems, performsItems⟩ :=
      performs_expandAll (Context.steady_ofSource resolver dsl depth src chain)
        (Context.steady_ofSource resolver dsl runDepth src chain) larger rfl rfl hold performs
    refine ⟨items, ?_, performsItems⟩
    rw [Source.expand?, read]
    exact hitems

end Merge

namespace RunOptions

def context (options : RunOptions) (src : Source) : Context :=
  Context.ofSource options.resolver options.dsl options.depth src []

/-- The source of a successful run has an expansion, and merging that makes the tree that the run
makes, before prototypes are linked. -/
theorem expand_preserves_tree (options : RunOptions) (src : Source) {tree : Entries}
    (accepted : (options.runSource src).outcome = .ok tree) :
    ∃ s items s',
      Merge.source options.resolver options.dsl options.depth src [] {} = .ok () s ∧
      (if options.buildHierarchy then s.tree.linkPrototypes else .ok s.tree) = .ok tree ∧
      src.expand? options.resolver options.depth = some items ∧
      Expanded.mergeAll (options.context src) items {} = .ok () s' ∧
      s'.tree = s.tree := by
  obtain ⟨s, merged, linked⟩ := exists_of_runSource accepted
  obtain ⟨f, hf, hs⟩ := (Merge.steady_source options.depth src []).performs_of_ok merged
  obtain ⟨items, hitems, performs⟩ := Merge.performs_expand (Nat.le_refl options.depth) hf
  obtain ⟨j, hj⟩ := performs {}
  exact ⟨s, items, _, merged, linked, hitems, hj, hs.symm⟩

/-- Two files, the first of which includes the second in a block. -/
def sampleFiles : Resolver where
  resolve pattern _ := .ok [⟨pattern⟩]
  read file := if file = ⟨"inner"⟩ then .ok "c.d = 2" else .error (.notFound file)
  same := (· == ·)

theorem expand_preserves_tree_of_sampleFiles :
    let options : RunOptions := { resolver := sampleFiles }
    let src := Source.ofString "a \x7b\ninclude: inner\nb = 1\n\x7d" (some ⟨"outer"⟩)
    ∃ items s', src.expand? sampleFiles options.depth = some items ∧
      Expanded.mergeAll (options.context src) items {} = .ok () s' := by
  intro options src
  obtain ⟨tree, accepted⟩ : ∃ tree, (options.runSource src).outcome = .ok tree :=
    exists_of_isOk (by decide +kernel)
  obtain ⟨_, items, s', _, _, hitems, merged, _⟩ := expand_preserves_tree options src accepted
  exact ⟨items, s', hitems, merged⟩

end RunOptions

end FusionTree
