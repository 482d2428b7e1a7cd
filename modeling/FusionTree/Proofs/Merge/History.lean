import FusionTree.Proofs.Merge.Expansion
import FusionTree.Proofs.Parser.Paths
import FusionTree.Proofs.Tree.Linking

/-!
# The history of a run

A run visits operations one after another, each with the path from the root that it is for. The
visits can be read off the expansion of the source. Where no other language takes part, the tree is
what the visits make of the empty one.
-/

namespace FusionTree

/-- An operation at its turn in a run, with the path from the root. -/
structure Visit where
  path : List String
  operation : Operation
deriving DecidableEq

/-- The node that a value stands for by itself; code in another language does not. -/
def Value.node? : Value → Option Node
  | string s _ => some (.string s)
  | int n _ => some (.int n)
  | float x _ => some (.float x)
  | bool b _ => some (.bool b)
  | null _ => some .null
  | objectName name _ => some (Node.objectType name)
  | eel code _ => some (Node.eelExpression (String.ofList (code.toList.filter (· ≠ '\n'))))
  | dsl .. => none

namespace Visit

def isPlain (v : Visit) : Bool :=
  match v.operation with
  | .assign value => value.node?.isSome
  | _ => true

/-- What the visit makes of a tree; nothing if a run would not get past it. -/
def apply (v : Visit) (tree : Entries) : Entries :=
  match v.operation with
  | .assign value =>
    match value.node? with
    | some n => tree.set v.path n
    | none => tree
  | .unset _ => tree.unset v.path
  | .copy source =>
    match Entries.copyOrInherit? v.path (source.keys v.path) with
    | some f => f tree
    | none => tree

def applyAll (visits : List Visit) (tree : Entries) : Entries :=
  visits.foldl (fun tree v => v.apply tree) tree

@[simp] theorem applyAll_nil (tree : Entries) : applyAll [] tree = tree := rfl

@[simp] theorem applyAll_cons (v : Visit) (rest : List Visit) (tree : Entries) :
    applyAll (v :: rest) tree = applyAll rest (v.apply tree) := rfl

@[simp] theorem applyAll_append (before after : List Visit) (tree : Entries) :
    applyAll (before ++ after) tree = applyAll after (applyAll before tree) :=
  List.foldl_append

def ofOperation (path : List String) (operation : Option Operation) : List Visit :=
  operation.toList.map fun op => ⟨path, op⟩

theorem path_eq_of_mem_ofOperation {path : List String} {operation : Option Operation} {v : Visit}
    (h : v ∈ ofOperation path operation) : v.path = path := by
  obtain ⟨op, _, rfl⟩ := List.mem_map.mp h
  rfl

end Visit

namespace Expanded

mutual

def visits (blockPath : List String) : Expanded → List Visit
  | object path operation none => Visit.ofOperation (blockPath ++ path.keys) operation
  | object path operation (some inner) =>
    Visit.ofOperation (blockPath ++ path.keys) operation ++
      visitsAll (blockPath ++ path.keys) inner
  | file _ inner => visitsAll [] inner

def visitsAll (blockPath : List String) : List Expanded → List Visit
  | [] => []
  | item :: rest => item.visits blockPath ++ visitsAll blockPath rest

end

theorem visitsAll_append (blockPath : List String) (before after : List Expanded) :
    visitsAll blockPath (before ++ after) =
      visitsAll blockPath before ++ visitsAll blockPath after := by
  induction before with
  | nil => rw [List.nil_append, visitsAll, List.nil_append]
  | cons item rest ih => rw [List.cons_append, visitsAll, visitsAll, ih, List.append_assoc]

end Expanded

/-- The visits of a run from the source, unless something cannot be read or goes too deep. -/
def Source.visits? (resolver : Resolver) (depth : Nat) (src : Source) : Option (List Visit) :=
  (src.expand? resolver depth).map (Expanded.visitsAll [])

/-! ### What visits do -/

namespace Merge

variable {ctx : Context} {f : Entries → Entries}

theorem performs_nodeOf {value : Value} {n : Node} (h : value.node? = some n) :
    Performs (nodeOf ctx value) n id := by
  cases value with
  | dsl => cases h
  | _ => cases h; exact performs_pure _

theorem eq_applyAll_of_does {target : List String} {operation : Option Operation}
    (does : Operation.DoesAny ctx target f operation)
    (plain : ∀ v ∈ Visit.ofOperation target operation, v.isPlain = true) (tree : Entries) :
    f tree = Visit.applyAll (Visit.ofOperation target operation) tree := by
  cases operation with
  | none =>
    obtain rfl : f = id := does
    rfl
  | some op =>
    have one : Visit.applyAll (Visit.ofOperation target (some op)) tree =
      Visit.apply ⟨target, op⟩ tree := rfl
    rw [one, Visit.apply]
    cases op with
    | assign value =>
      obtain ⟨n, hn, rfl⟩ := does
      have hv : value.node?.isSome := plain ⟨target, .assign value⟩ (by simp [Visit.ofOperation])
      obtain ⟨m, hm⟩ := Option.isSome_iff_exists.mp hv
      obtain rfl : n = m := (hn.unique (performs_nodeOf hm)).1
      simp only [hm]
    | unset =>
      obtain rfl : f = (·.unset target) := does
      rfl
    | copy source =>
      simp only [does.2]

end Merge

namespace Expanded

variable {ctx : Context} {f : Entries → Entries}

open Merge

theorem eq_applyAll_of_performs {items : List Expanded} (steady : ctx.Steady)
    (h : Performs (mergeAll ctx items) () f)
    (plain : ∀ v ∈ visitsAll ctx.blockPath items, v.isPlain = true) (tree : Entries) :
    f tree = Visit.applyAll (visitsAll ctx.blockPath items) tree := by
  induction items using Expanded.induction generalizing ctx f tree with
  | nil =>
    rw [performs_mergeAll_nil_iff.mp h, visitsAll]
    rfl
  | object path operation rest ih =>
    obtain ⟨_, g, k, does, hk, rfl⟩ := (performs_mergeAll_object_iff steady).mp h
    rw [visitsAll, visits] at plain ⊢
    simp only [List.forall_mem_append] at plain
    rw [Visit.applyAll_append, ← eq_applyAll_of_does does plain.1, ← ih steady hk plain.2]
    rfl
  | block path operation inner rest ihInner ih =>
    obtain ⟨_, g, i, k, does, hi, hk, rfl⟩ := (performs_mergeAll_block_iff steady).mp h
    rw [visitsAll, visits] at plain ⊢
    simp only [List.forall_mem_append] at plain
    have block := ihInner (steady.inBlock path operation) hi plain.1.2
    rw [Visit.applyAll_append, Visit.applyAll_append, ← eq_applyAll_of_does does plain.1.1,
      ← ih steady hk plain.2]
    exact congrArg k (block (g tree))
  | file path inner rest ihInner ih =>
    obtain ⟨g, k, hg, hk, rfl⟩ := (performs_mergeAll_file_iff steady).mp h
    rw [visitsAll, visits] at plain ⊢
    simp only [List.forall_mem_append] at plain
    have steadyInner : (ctx.inFile path).Steady := steady
    have file := ihInner steadyInner hg plain.1
    rw [Visit.applyAll_append, ← ih steady hk plain.2]
    exact congrArg k (file tree)

/-! ### The paths of visits -/

theorem spelled_of_performs {items : List Expanded} (steady : ctx.Steady)
    (h : Performs (mergeAll ctx items) () f) (block : Key.Spelled ctx.blockPath) :
    ∀ v ∈ visitsAll ctx.blockPath items, Key.Spelled v.path := by
  induction items using Expanded.induction generalizing ctx f with
  | nil => simp [visitsAll]
  | object path operation rest ih =>
    obtain ⟨allowed, g, k, _, hk, rfl⟩ := (performs_mergeAll_object_iff steady).mp h
    intro v hv
    rw [visitsAll, visits] at hv
    rcases List.mem_append.mp hv with hv | hv
    · rw [Visit.path_eq_of_mem_ofOperation hv]
      exact block.append allowed.spelled_keys
    · exact ih steady hk block v hv
  | block path operation inner rest ihInner ih =>
    obtain ⟨allowed, g, i, k, _, hi, hk, rfl⟩ := (performs_mergeAll_block_iff steady).mp h
    have target : Key.Spelled (ctx.blockPath ++ path.keys) := block.append allowed.spelled_keys
    intro v hv
    rw [visitsAll, visits] at hv
    rcases List.mem_append.mp hv with hv | hv
    · rcases List.mem_append.mp hv with hv | hv
      · rw [Visit.path_eq_of_mem_ofOperation hv]
        exact target
      · exact ihInner (steady.inBlock path operation) hi target v hv
    · exact ih steady hk block v hv
  | file path inner rest ihInner ih =>
    obtain ⟨g, k, hg, hk, rfl⟩ := (performs_mergeAll_file_iff steady).mp h
    have steadyInner : (ctx.inFile path).Steady := steady
    intro v hv
    rw [visitsAll, visits] at hv
    rcases List.mem_append.mp hv with hv | hv
    · exact ihInner steadyInner hg trivial v hv
    · exact ih steady hk block v hv

end Expanded

theorem ObjectPath.Named.keys_ne_nil {path : ObjectPath} (h : path.Named) : path.keys ≠ [] := by
  obtain ⟨segments⟩ := path
  cases segments with
  | nil => exact absurd rfl h
  | cons s rest => cases s <;> exact List.cons_ne_nil _ _

theorem Visit.path_ne_nil_of_mem_ofOperation {blockPath : List String} {path : ObjectPath}
    {operation : Option Operation} (named : path.Named) {v : Visit}
    (h : v ∈ ofOperation (blockPath ++ path.keys) operation) : v.path ≠ [] := by
  rw [path_eq_of_mem_ofOperation h]
  exact List.append_ne_nil_of_right_ne_nil _ named.keys_ne_nil

namespace Expanded

def AllNamed (items : List Expanded) : Prop :=
  ∀ blockPath, ∀ v ∈ visitsAll blockPath items, v.path ≠ []

theorem AllNamed.append {before after : List Expanded} (hb : AllNamed before)
    (ha : AllNamed after) : AllNamed (before ++ after) := by
  intro blockPath v hv
  rw [visitsAll_append] at hv
  rcases List.mem_append.mp hv with hv | hv
  · exact hb blockPath v hv
  · exact ha blockPath v hv

theorem allNamed_of_ofFiles {same : Path → Path → Bool} {holder : Option Path}
    {contents : Path → Option (List Expanded)} {files : List Path} {items : List Expanded}
    (inFiles : ∀ file inner, contents file = some inner → AllNamed inner)
    (h : ofFiles same holder contents files = some items) : AllNamed items := by
  induction files generalizing items with
  | nil => cases h; simp [AllNamed, visitsAll]
  | cons path rest ih =>
    rw [ofFiles] at h
    split at h
    · exact ih h
    · simp only [bind, Option.bind_eq_some_iff, pure, Option.some.injEq] at h
      obtain ⟨inner, hinner, more, hmore, rfl⟩ := h
      intro blockPath v hv
      rw [visitsAll, visits] at hv
      rcases List.mem_append.mp hv with hv | hv
      · exact inFiles path inner hinner [] v hv
      · exact ih hmore blockPath v hv

theorem allNamed_of_expandAll {resolver : Resolver} {holder : Option Path}
    {contents : Path → Option (List Expanded)} {ss : List Statement} {items : List Expanded}
    (named : Statement.AllNamed ss)
    (inFiles : ∀ file inner, contents file = some inner → AllNamed inner)
    (h : Statement.expandAll? resolver holder contents ss = some items) : AllNamed items := by
  induction ss using Statement.induction generalizing items with
  | nil =>
    rw [Statement.expandAll?] at h
    cases h
    simp [AllNamed, visitsAll]
  | inclusion pattern span rest ih =>
    rw [Statement.expandAll?, Statement.expand?] at h
    simp only [bind, Option.bind_eq_some_iff, pure, Option.some.injEq] at h
    obtain ⟨first, ⟨files, _, hfiles⟩, more, hmore, rfl⟩ := h
    exact (allNamed_of_ofFiles inFiles hfiles).append (ih named.2 hmore)
  | object path operation rest ih =>
    rw [Statement.expandAll?, Statement.expand?] at h
    simp only [bind, Option.bind_eq_some_iff, pure, Option.some.injEq] at h
    obtain ⟨_, rfl, more, hmore, rfl⟩ := h
    obtain ⟨hp, hrest⟩ := named
    rw [Statement.Named] at hp
    refine AllNamed.append (fun blockPath v hv => ?_) (ih hrest hmore)
    rw [visitsAll, visits, visitsAll, List.append_nil] at hv
    exact Visit.path_ne_nil_of_mem_ofOperation hp hv
  | block path operation openBrace inner closeBrace rest ihInner ih =>
    rw [Statement.expandAll?, Statement.expand?] at h
    simp only [bind, Option.bind_eq_some_iff, pure, Option.some.injEq] at h
    obtain ⟨_, ⟨block, hblock, rfl⟩, more, hmore, rfl⟩ := h
    obtain ⟨hp, hrest⟩ := named
    rw [Statement.Named] at hp
    refine AllNamed.append (fun blockPath v hv => ?_) (ih hrest hmore)
    rw [visitsAll, visits, visitsAll, List.append_nil] at hv
    rcases List.mem_append.mp hv with hv | hv
    · exact Visit.path_ne_nil_of_mem_ofOperation hp.1 hv
    · exact ihInner hp.2 hblock _ v hv

end Expanded

theorem Source.allNamed_of_expand {resolver : Resolver} {depth : Nat} {src : Source}
    {items : List Expanded} (h : src.expand? resolver depth = some items) :
    Expanded.AllNamed items := by
  induction depth generalizing src items with
  | zero => cases h
  | succ depth ih =>
    rw [Source.expand?] at h
    simp only [bind, Option.bind_eq_some_iff] at h
    obtain ⟨ss, hss, hitems⟩ := h
    have named : Statement.AllNamed ss := by
      unfold Source.statements? at hss
      split at hss
      · rename_i document r parsed
        cases hss
        exact Source.allNamed_of_parse parsed
      · cases hss
    refine Expanded.allNamed_of_expandAll named (fun file inner hinner => ?_) hitems
    obtain ⟨text, _, hinner⟩ := Option.bind_eq_some_iff.mp hinner
    exact ih hinner

/-- A visit of an accepted run has a path, and one that can be spelled out. -/
def Visit.Sound (v : Visit) : Prop := v.path ≠ [] ∧ Key.Spelled v.path

theorem RunOptions.exists_visits {options : RunOptions} {src : Source} {tree : Entries}
    (accepted : (options.runSource src).outcome = .ok tree) :
    ∃ visits, src.visits? options.resolver options.depth = some visits := by
  obtain ⟨s, merged, _⟩ := exists_of_runSource accepted
  obtain ⟨f, hf, _⟩ := (Merge.steady_source options.depth src []).performs_of_ok merged
  obtain ⟨items, hitems, _⟩ := Merge.performs_expand (Nat.le_refl options.depth) hf
  exact ⟨_, by rw [Source.visits?, hitems]; rfl⟩

/-- The tree of a successful run without other languages is what its visits make of the empty tree,
with prototypes linked if that is asked for. -/
theorem RunOptions.history {options : RunOptions} {src : Source} {tree : Entries}
    (accepted : (options.runSource src).outcome = .ok tree) {visits : List Visit}
    (read : src.visits? options.resolver options.depth = some visits)
    (plain : ∀ v ∈ visits, v.isPlain = true) :
    (∀ v ∈ visits, v.Sound) ∧
      (if options.buildHierarchy then (Visit.applyAll visits []).linkPrototypes
        else .ok (Visit.applyAll visits [])) = .ok tree := by
  obtain ⟨s, merged, linked⟩ := exists_of_runSource accepted
  obtain ⟨f, hf, hs⟩ := (Merge.steady_source options.depth src []).performs_of_ok merged
  obtain ⟨items, hitems, performs⟩ := Merge.performs_expand (Nat.le_refl options.depth) hf
  obtain rfl : Expanded.visitsAll [] items = visits := by
    simpa [Source.visits?, hitems] using read
  have steady := Context.steady_ofSource options.resolver options.dsl options.depth src []
  have spelled := Expanded.spelled_of_performs steady performs trivial
  refine ⟨fun v hv => ⟨Source.allNamed_of_expand hitems [] v hv, spelled v hv⟩, ?_⟩
  rw [hs, Expanded.eq_applyAll_of_performs steady performs plain] at linked
  exact linked

/-- What stands at a path that can be spelled out still stands there when prototypes are linked, if
they are, but for a chain of ancestors. -/
theorem RunOptions.exists_linkedTo {options : RunOptions} {merged tree : Entries}
    (linked : (if options.buildHierarchy then merged.linkPrototypes else .ok merged) = .ok tree)
    {path : List String} (hp : path ≠ []) (spelled : Key.Spelled path) {n : Node}
    (hn : (Node.map merged).at? path = some n) :
    ∃ m, tree.getPath? path = some m ∧ n.LinkedTo m := by
  rw [Entries.getPath?_eq_at? tree hp]
  split at linked
  · refine Entries.at?_linkPrototypes linked hn hp ?_ ?_
    · rintro rfl
      exact absurd (show Key.isReserved Key.prototypes = false from spelled) (by decide)
    · rintro name rest rfl
      have inside : Key.Spelled (Key.chain :: rest) :=
        Key.Spelled.of_append (p := [Key.prototypes, name]) trivial spelled
      exact inside.head_ne (by decide) (by decide) (by decide) rfl
  · cases linked
    exact ⟨n, hn, .refl n⟩

end FusionTree
