import FusionTree.Proofs.Merge.Provenance
import Mathlib.Logic.Relation

/-!
# What the sources of a run make

A source leads to the files that it includes and to the outputs of the languages in it, and these to
further sources. What every single operation keeps of a tree, if the paths in these sources are of
some kind, a whole run keeps: such a property is `Sustained`.

If no property `@name` in any of the sources has the name of a key of the tree's own, then a run can
only make trees that are `Made`: by writes to paths that end in a name, by copies of something that
is no prototype, and by naming the parent of a prototype at the root.
-/

namespace FusionTree

/-! ### The sources of a run -/

/-- A statement of the first source, at any depth, includes the second one, or assigns an expression
whose output it is. -/
inductive Source.LeadsTo (resolver : Resolver) (dsl : DslRegistry) (src : Source) : Source → Prop
  | file {ss : List Statement} {pattern : String} {span : Span} {files : List Path} {file : Path}
      {text : String} (read : src.statements? = some ss)
      (mem : .inclusion pattern span ∈ Statement.withBlocks ss)
      (resolved : resolver.resolve pattern src.path = .ok files) (one : file ∈ files)
      (other : src.path.any (resolver.same · file) = false)
      (readable : resolver.read file = .ok text) :
      LeadsTo resolver dsl src (Source.ofString text (some file))
  | output {ss : List Statement} {path : ObjectPath} {block : Option (Block Statement)}
      {identifier code text : String} {span : Span} {transpiler : Transpiler}
      (read : src.statements? = some ss)
      (mem : .object path (some (.assign (.dsl identifier code span))) block ∈
        Statement.withBlocks ss)
      (registered : dsl.get? identifier = some transpiler)
      (transpiled : transpiler code = .ok text) :
      LeadsTo resolver dsl src (Source.ofString ("value = " ++ text) none)

/-- A run from the first source visits the second one, if it gets that far. -/
def Source.Visits (resolver : Resolver) (dsl : DslRegistry) : Source → Source → Prop :=
  Relation.ReflTransGen (Source.LeadsTo resolver dsl)

/-- Whether all object paths of the source are of the kind, those of copy sources as well. -/
def Source.Paths (C : ObjectPath → Prop) (src : Source) : Prop :=
  ∀ ss, src.statements? = some ss → ∀ path operation block,
    .object path operation block ∈ Statement.withBlocks ss →
      C path ∧ ∀ source, operation = some (.copy source) → C source.path

/-- Whether no property in the path has the name of a key of the tree's own. -/
def ObjectPath.Unforged (p : ObjectPath) : Prop :=
  ∀ name span, .metaProperty name span ∈ p.segments → Key.isReserved name = false

def Source.Unforged (src : Source) : Prop :=
  ∀ ss, src.statements? = some ss → ∀ path operation block,
    .object path operation block ∈ Statement.withBlocks ss →
      path.Unforged ∧ ∀ source, operation = some (.copy source) → source.path.Unforged

/-! ### Paths of a source -/

/-- The keys of a path that a block accepts. -/
theorem ObjectPath.named_keys {p : ObjectPath} {b : Bool} {src : Source} (read : p.ReadFrom src)
    (allowed : p.Allowed b) (unforged : p.Unforged) : Key.Named p.keys := by
  refine PathSegment.named_allKeys read.1 fun s hs => ?_
  rcases (allowed s hs).checked (read.2 s hs) with h | ⟨name, span, rfl⟩
  · exact h
  · exact unforged name span hs

/-! ### The trees that they make -/

/-- The trees that writes, unsets and copies make, when no key of the tree's own is forged. -/
inductive Entries.Made : Entries → Prop
  | empty : Made []
  | assign {es : Entries} {path : List String} {value : Value} {n : Node} (made : Made es)
      (target : Key.Named path) (node : value.node? = some n) : Made (es.set path n)
  /-- What another tree holds under a key is assigned. -/
  | output {es inner : Entries} {path : List String} (made : Made es) (output : Made inner)
      (target : Key.Named path) : Made (es.set path ((inner.get? "value").getD .null))
  | unset {es : Entries} {path : List String} (made : Made es) (target : Key.Named path) :
      Made (es.unset path)
  | copy {es : Entries} {path source : List String} (made : Made es) (target : Key.Named path)
      (named : Key.Named source) (part : Key.isPrototypePath source = false) :
      Made (es.copy path source)
  | inherit {es : Entries} {name parent : String} (made : Made es)
      (target : Key.Named [Key.prototypes, name]) :
      Made (es.set (Key.linkPath name) (.string parent))

theorem Entries.Made.copyOrInherit {es : Entries} {f : Entries → Entries}
    {target source : List String} (made : Made es) (ht : Key.Named target) (hs : Key.Named source)
    (h : copyOrInherit? target source = some f) : Made (f es) := by
  cases prototype : Key.isPrototypePath target with
  | true =>
    obtain ⟨name, parent, rfl, rfl, rfl⟩ := copyOrInherit?_of_prototype h prototype
    exact made.inherit ht
  | false =>
    obtain ⟨part, rfl⟩ := copyOrInherit?_of_no_prototype h prototype
    exact made.copy ht hs part

/-! ### What a run keeps -/

/-- The keys that a run comes to from object paths with the property `C` have the property `T`. -/
structure Key.Targets (C : ObjectPath → Prop) (T : List String → Prop) : Prop where
  target {src : Source} {path : ObjectPath} {b : Bool} {q : List String} (read : path.ReadFrom src)
    (allowed : path.Allowed b) (clear : C path) (block : q = [] ∨ T q) : T (q ++ path.keys)
  source {src : Source} {source : CopySource} {b : Bool} {target : List String}
    (read : source.path.ReadFrom src) (allowed : source.path.Allowed b) (clear : C source.path)
    (ht : T target) : T (source.keys target)

/-- The property `I` of trees is kept by every operation, if the paths in the source have the
property `C`. -/
structure Entries.Sustained (C : ObjectPath → Prop) (T : List String → Prop) (I : Entries → Prop) :
    Prop extends Key.Targets C T where
  empty : I []
  assign {es : Entries} {path : List String} {value : Value} {n : Node} (h : I es) (ht : T path)
    (node : value.node? = some n) : I (es.set path n)
  output {es inner : Entries} {path : List String} (h : I es) (ht : T path) (output : I inner) :
    I (es.set path ((inner.get? "value").getD .null))
  unset {es : Entries} {path : List String} (h : I es) (ht : T path) : I (es.unset path)
  copy {es : Entries} {path source : List String} {f : Entries → Entries} (h : I es) (ht : T path)
    (hs : T source) (copies : Entries.copyOrInherit? path source = some f) : I (f es)

namespace Entries.Sustained

open Merge

variable {C : ObjectPath → Prop} {T : List String → Prop} {I : Entries → Prop}
variable {ctx : Context} {f : Entries → Entries} {src : Source} {all ss : List Statement}

def Kept (I : Entries → Prop) (f : Entries → Entries) : Prop :=
  ∀ es, I es → I (f es)

theorem Kept.comp {f g : Entries → Entries} (hg : Kept I g) (hf : Kept I f) : Kept I (g ∘ f) :=
  fun es h => hg _ (hf es h)

/-- The context is that of a source with the statements, and merges of whatever the source leads to
keep the property. -/
structure Keeps (C : ObjectPath → Prop) (I : Entries → Prop) (ctx : Context) (src : Source)
    (all : List Statement) : Prop where
  steady : ctx.Steady
  file : ctx.file = src.path
  parsed : src.statements? = some all
  clear : src.Paths C
  enter : ∀ next, src.LeadsTo ctx.resolver ctx.dsl next → ∀ chain g,
    Performs (ctx.enter next chain) () g → Kept I g

theorem includeFiles {pattern : String} {span : Span} {files found : List Path}
    (keeps : Keeps C I ctx src all) (mem : .inclusion pattern span ∈ Statement.withBlocks all)
    (resolved : ctx.resolver.resolve pattern ctx.file = .ok found) (sub : files ⊆ found)
    (performs : Performs (includeFiles ctx pattern span files) () f) : Kept I f := by
  induction files generalizing f with
  | nil =>
    obtain rfl := (performs_pure_iff.mp performs).2
    exact fun _ => id
  | cons file rest ih =>
    obtain ⟨one, sub⟩ := List.cons_subset.mp sub
    obtain ⟨g, k, hg, hk, rfl⟩ := (performs_includeFiles_cons_iff keeps.steady).mp performs
    refine (ih sub hk).comp ?_
    rw [performs_includeFile_iff keeps.steady] at hg
    split at hg
    · rw [hg]
      exact fun _ => id
    · rename_i other
      obtain ⟨_, text, readable, hg⟩ := hg
      rw [keeps.file] at resolved other
      have next : src.LeadsTo ctx.resolver ctx.dsl _ :=
        .file keeps.parsed mem resolved one (eq_false_of_ne_true other) readable
      exact keeps.enter _ next _ g hg

variable (sustained : Sustained C T I)

include sustained

theorem doesAny {path : ObjectPath} {operation : Option Operation} {target : List String}
    {block : Option (Block Statement)} (keeps : Keeps C I ctx src all)
    (mem : .object path operation block ∈ Statement.withBlocks all)
    (read : ∀ op ∈ operation, op.ReadFrom src) (ht : T target)
    (does : Operation.DoesAny ctx target f operation) : Kept I f := by
  intro es h
  cases operation with
  | none =>
    obtain rfl : f = id := does
    exact h
  | some op =>
    cases op with
    | assign value =>
      obtain ⟨n, hn, rfl⟩ := does
      cases node : value.node? with
      | some m =>
        obtain rfl := ((performs_nodeOf node).unique hn).1
        exact sustained.assign h ht node
      | none =>
        cases value with
        | dsl identifier code span =>
          obtain ⟨transpiler, text, g, registered, transpiled, hg, rfl⟩ :=
            (performs_dslNode_iff keeps.steady).mp hn
          have next : src.LeadsTo ctx.resolver ctx.dsl _ :=
            .output keeps.parsed mem registered transpiled
          exact sustained.output h ht (keeps.enter _ next _ g hg [] sustained.empty)
        | _ => cases node
    | unset span =>
      obtain rfl : f = (·.unset target) := does
      exact sustained.unset h ht
    | copy source =>
      obtain ⟨allowed, hf⟩ := does
      have from_source : source.path.ReadFrom src := read _ rfl
      have clear := (keeps.clear all keeps.parsed _ _ _ mem).2 source rfl
      exact sustained.copy h ht (sustained.source from_source allowed clear ht) hf

theorem statements (keeps : Keeps C I ctx src all)
    (sub : Statement.withBlocks ss ⊆ Statement.withBlocks all) (read : Statement.AllReadFrom src ss)
    (block : ctx.blockPath = [] ∨ T ctx.blockPath) (performs : Performs (statements ctx ss) () f) :
    Kept I f := by
  have clear {path : ObjectPath} {operation : Option Operation} {block : Option (Block Statement)}
      (mem : .object path operation block ∈ Statement.withBlocks all) : C path :=
    (keeps.clear all keeps.parsed _ _ _ mem).1
  induction ss using Statement.induction generalizing ctx f with
  | nil =>
    obtain rfl := performs_statements_nil_iff.mp performs
    exact fun _ => id
  | inclusion pattern span rest ih =>
    rw [Statement.withBlocks, List.cons_subset] at sub
    obtain ⟨files, g, k, resolved, hg, hk, rfl⟩ :=
      (performs_statements_inclusion_iff keeps.steady).mp performs
    exact (ih keeps sub.2 read.2 block hk).comp
      (includeFiles keeps sub.1 resolved (List.Subset.refl files) hg)
  | object path operation rest ih =>
    rw [Statement.withBlocks, List.cons_subset] at sub
    rw [Statement.AllReadFrom, Statement.ReadFrom] at read
    obtain ⟨⟨hp, ho⟩, hr⟩ := read
    obtain ⟨allowed, g, k, does, hk, rfl⟩ :=
      (performs_statements_object_iff keeps.steady).mp performs
    have target := sustained.target hp allowed (clear sub.1) block
    exact (ih keeps sub.2 hr block hk).comp (sustained.doesAny keeps sub.1 ho target does)
  | block path operation openBrace inner closeBrace rest ihInner ih =>
    rw [Statement.withBlocks, List.cons_subset, List.append_subset] at sub
    obtain ⟨mem, subInner, subRest⟩ := sub
    rw [Statement.AllReadFrom, Statement.ReadFrom] at read
    obtain ⟨⟨hp, ho, _, hi, _⟩, hr⟩ := read
    obtain ⟨allowed, g, i, k, does, hg, hk, rfl⟩ :=
      (performs_statements_block_iff keeps.steady).mp performs
    have target := sustained.target hp allowed (clear mem) block
    have keepsInner : Keeps C I (ctx.inBlock path operation) src all :=
      ⟨keeps.steady.inBlock path operation, keeps.file, keeps.parsed, keeps.clear, keeps.enter⟩
    exact (ih keeps subRest hr block hk).comp
      ((ihInner keepsInner subInner hi (.inr target) hg).comp
        (sustained.doesAny keeps mem ho target does))

/-- A run keeps the property if the paths in all its sources are of the kind. -/
theorem kept_of_performs {resolver : Resolver} {dsl : DslRegistry} {depth : Nat} {chain : List Path}
    (clear : ∀ visited, src.Visits resolver dsl visited → visited.Paths C)
    (performs : Performs (Merge.source resolver dsl depth src chain) () f) : Kept I f := by
  induction depth generalizing src chain f with
  | zero => exact absurd performs (stops_throw .depthExceeded).not_performs
  | succ depth ih =>
    obtain ⟨all, parsed, hf⟩ := performs_source_succ_iff.mp performs
    have keeps : Keeps C I (Context.ofSource resolver dsl depth src chain) src all := by
      refine ⟨Context.steady_ofSource resolver dsl depth src chain, rfl, parsed,
        clear src .refl, fun next leads chain g hg => ?_⟩
      exact ih (fun visited visits => clear visited (.head leads visits)) hg
    exact sustained.statements keeps (List.Subset.refl _) (Source.allReadFrom_of_statements? parsed)
      (.inl rfl) hf

/-- The tree of an accepted run is one with the property, perhaps with its prototypes linked. -/
theorem exists_of_accepted {options : RunOptions} {tree : Entries}
    (accepted : (options.runSource src).outcome = .ok tree)
    (clear : ∀ visited, src.Visits options.resolver options.dsl visited → visited.Paths C) :
    ∃ es : Entries, I es ∧ (tree = es ∨ es.linkPrototypes = .ok tree) := by
  obtain ⟨s, merged, linked⟩ := RunOptions.exists_of_runSource accepted
  obtain ⟨f, hf, hs⟩ := (Merge.steady_source options.depth src []).performs_of_ok merged
  have holds : I s.tree := by
    rw [hs]
    exact sustained.kept_of_performs clear hf _ sustained.empty
  refine ⟨s.tree, holds, ?_⟩
  split at linked
  · exact .inr linked
  · exact .inl (Except.ok.inj linked).symm

end Entries.Sustained

theorem Key.targets_named : Targets ObjectPath.Unforged Named where
  target read allowed clear block := by
    refine .append ?_ (ObjectPath.named_keys read allowed clear)
    rcases block with rfl | named
    · exact nofun
    · exact named.placed
  source read allowed clear ht :=
    CopySource.named_keys ht (ObjectPath.named_keys read allowed clear)

theorem Entries.Made.sustained : Sustained ObjectPath.Unforged Key.Named Made where
  toTargets := Key.targets_named
  empty := .empty
  assign made ht node := made.assign ht node
  output made ht inner := made.output inner ht
  unset made ht := made.unset ht
  copy made ht hs copies := made.copyOrInherit ht hs copies

/-- The tree of an accepted run without forged keys is one that is made, perhaps with its prototypes
linked. -/
theorem RunOptions.exists_made {options : RunOptions} {src : Source} {tree : Entries}
    (accepted : (options.runSource src).outcome = .ok tree)
    (unforged : ∀ visited, src.Visits options.resolver options.dsl visited → visited.Unforged) :
    ∃ es : Entries, es.Made ∧ (tree = es ∨ es.linkPrototypes = .ok tree) :=
  Entries.Made.sustained.exists_of_accepted accepted unforged

end FusionTree
