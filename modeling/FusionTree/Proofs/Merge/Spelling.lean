import FusionTree.Proofs.Merge.Nesting

/-!
# Visits as they are spelled

A visit keeps the keys of its path; here it also keeps the segments that spell them. Every segment
of an accepted run was read from some source and passed the check of its kind, so none of them
names a key of the tree's own, except that nothing checks the name of a property `@name`.
-/

namespace FusionTree

/-- The keys that the source of a copy is seen from. -/
def CopySource.start (source : CopySource) (target : List String) : List String :=
  if source.relative then Key.parentPath target else []

theorem CopySource.keys_eq (source : CopySource) (target : List String) :
    source.keys target = source.start target ++ PathSegment.allKeys source.path.segments := rfl

/-- A visit with the segments that spell its path from the root. -/
structure SpelledVisit where
  segments : List PathSegment
  operation : Operation
deriving DecidableEq

namespace SpelledVisit

def visit (v : SpelledVisit) : Visit :=
  ⟨PathSegment.allKeys v.segments, v.operation⟩

/-- The rows of segments in the visit, each with the keys that it goes on from: the path, and the
source of a copy. -/
def rows (v : SpelledVisit) : List (List String × List PathSegment) :=
  ([], v.segments) ::
    match v.operation with
    | .copy source => [(source.start v.visit.path, source.path.segments)]
    | _ => []

def ofOperation (segments : List PathSegment) (operation : Option Operation) :
    List SpelledVisit :=
  operation.toList.map fun op => ⟨segments, op⟩

theorem map_visit_ofOperation (segments : List PathSegment) (operation : Option Operation) :
    (ofOperation segments operation).map visit =
      Visit.ofOperation (PathSegment.allKeys segments) operation := by
  cases operation <;> rfl

end SpelledVisit

namespace Expanded

mutual

def spelled (block : List PathSegment) : Expanded → List SpelledVisit
  | object path operation none => SpelledVisit.ofOperation (block ++ path.segments) operation
  | object path operation (some inner) =>
    SpelledVisit.ofOperation (block ++ path.segments) operation ++
      spelledAll (block ++ path.segments) inner
  | file _ inner => spelledAll [] inner

def spelledAll (block : List PathSegment) : List Expanded → List SpelledVisit
  | [] => []
  | item :: rest => item.spelled block ++ spelledAll block rest

end

/-- Spelled visits are the visits. -/
theorem map_visit_spelledAll (block : List PathSegment) (items : List Expanded) :
    (spelledAll block items).map SpelledVisit.visit =
      visitsAll (PathSegment.allKeys block) items := by
  have below (path : ObjectPath) : PathSegment.allKeys (block ++ path.segments) =
      PathSegment.allKeys block ++ path.keys := by
    rw [PathSegment.allKeys_append, ObjectPath.keys_eq_allKeys]
  induction items using Expanded.induction generalizing block with
  | nil => rw [spelledAll, visitsAll, List.map_nil]
  | object path operation rest ih =>
    rw [spelledAll, spelled, visitsAll, visits, List.map_append, ih block below,
      SpelledVisit.map_visit_ofOperation, below]
  | block path operation inner rest ihInner ih =>
    have belowInner (p : ObjectPath) :
        PathSegment.allKeys (block ++ path.segments ++ p.segments) =
          PathSegment.allKeys (block ++ path.segments) ++ p.keys := by
      rw [PathSegment.allKeys_append, ObjectPath.keys_eq_allKeys]
    rw [spelledAll, spelled, visitsAll, visits, List.map_append, List.map_append, ih block below,
      ihInner _ belowInner, SpelledVisit.map_visit_ofOperation, below]
  | file path inner rest ihInner ih =>
    have belowInner (p : ObjectPath) : PathSegment.allKeys ([] ++ p.segments) =
        PathSegment.allKeys [] ++ p.keys := by
      rw [PathSegment.allKeys_append, ObjectPath.keys_eq_allKeys]
    rw [spelledAll, spelled, visitsAll, visits, List.map_append, ih block below,
      ihInner [] belowInner, PathSegment.allKeys_nil]

end Expanded

def Source.spelledVisits? (resolver : Resolver) (depth : Nat) (src : Source) :
    Option (List SpelledVisit) :=
  (src.expand? resolver depth).map (Expanded.spelledAll [])

theorem Source.visits?_eq_some {resolver : Resolver} {depth : Nat} {src : Source}
    {visits : List SpelledVisit} (h : src.spelledVisits? resolver depth = some visits) :
    src.visits? resolver depth = some (visits.map SpelledVisit.visit) := by
  obtain ⟨items, hitems, rfl⟩ := Option.map_eq_some_iff.mp h
  rw [Source.visits?, hitems, Option.map_some, Expanded.map_visit_spelledAll,
    PathSegment.allKeys_nil]

/-! ### What has been read -/

namespace Expanded

def objects : List Expanded → List (ObjectPath × Option Operation)
  | [] => []
  | .object path operation none :: rest => (path, operation) :: objects rest
  | .object path operation (some inner) :: rest =>
    (path, operation) :: (objects inner ++ objects rest)
  | .file _ inner :: rest => objects inner ++ objects rest

theorem objects_append (before after : List Expanded) :
    objects (before ++ after) = objects before ++ objects after := by
  induction before with
  | nil => simp [objects]
  | cons item rest ih =>
    cases item with
    | object path operation block => cases block <;> simp [objects, ih]
    | file path inner => simp [objects, ih]

def WereRead (items : List Expanded) : Prop :=
  ∀ o ∈ objects items, ∃ src, o.1.ReadFrom src ∧ ∀ op ∈ o.2, op.ReadFrom src

theorem WereRead.append {before after : List Expanded} (hb : WereRead before)
    (ha : WereRead after) : WereRead (before ++ after) := by
  intro o ho
  rw [objects_append] at ho
  rcases List.mem_append.mp ho with h | h
  · exact hb o h
  · exact ha o h

theorem wereRead_of_ofFiles {same : Path → Path → Bool} {holder : Option Path}
    {contents : Path → Option (List Expanded)} {files : List Path} {items : List Expanded}
    (inFiles : ∀ file inner, contents file = some inner → WereRead inner)
    (h : ofFiles same holder contents files = some items) : WereRead items := by
  induction files generalizing items with
  | nil => cases h; simp [WereRead, objects]
  | cons path rest ih =>
    rw [ofFiles] at h
    split at h
    · exact ih h
    · simp only [bind, Option.bind_eq_some_iff, pure, Option.some.injEq] at h
      obtain ⟨inner, hinner, more, hmore, rfl⟩ := h
      intro o ho
      rw [objects] at ho
      rcases List.mem_append.mp ho with ho | ho
      · exact inFiles path inner hinner o ho
      · exact ih hmore o ho

theorem wereRead_of_expandAll {resolver : Resolver} {holder : Option Path}
    {contents : Path → Option (List Expanded)} {src : Source} {ss : List Statement}
    {items : List Expanded} (read : Statement.AllReadFrom src ss)
    (inFiles : ∀ file inner, contents file = some inner → WereRead inner)
    (h : Statement.expandAll? resolver holder contents ss = some items) : WereRead items := by
  induction ss using Statement.induction generalizing items with
  | nil =>
    rw [Statement.expandAll?] at h
    cases h
    simp [WereRead, objects]
  | inclusion pattern span rest ih =>
    rw [Statement.expandAll?, Statement.expand?] at h
    simp only [bind, Option.bind_eq_some_iff, pure, Option.some.injEq] at h
    obtain ⟨first, ⟨files, _, hfiles⟩, more, hmore, rfl⟩ := h
    exact (wereRead_of_ofFiles inFiles hfiles).append (ih read.2 hmore)
  | object path operation rest ih =>
    rw [Statement.expandAll?, Statement.expand?] at h
    simp only [bind, Option.bind_eq_some_iff, pure, Option.some.injEq] at h
    obtain ⟨_, rfl, more, hmore, rfl⟩ := h
    rw [Statement.AllReadFrom, Statement.ReadFrom] at read
    refine WereRead.append ?_ (ih read.2 hmore)
    simpa [WereRead, objects] using ⟨src, read.1⟩
  | block path operation openBrace inner closeBrace rest ihInner ih =>
    rw [Statement.expandAll?, Statement.expand?] at h
    simp only [bind, Option.bind_eq_some_iff, pure, Option.some.injEq] at h
    obtain ⟨_, ⟨block, hblock, rfl⟩, more, hmore, rfl⟩ := h
    rw [Statement.AllReadFrom, Statement.ReadFrom] at read
    obtain ⟨⟨hp, ho, _, hi, _⟩, hr⟩ := read
    refine WereRead.append (fun o mem => ?_) (ih hr hmore)
    rw [objects, objects, List.append_nil] at mem
    rcases List.mem_cons.mp mem with rfl | mem
    · exact ⟨src, hp, ho⟩
    · exact ihInner hi hblock o mem

end Expanded

theorem Source.wereRead_of_expand {resolver : Resolver} {depth : Nat} {src : Source}
    {items : List Expanded} (h : src.expand? resolver depth = some items) :
    Expanded.WereRead items := by
  induction depth generalizing src items with
  | zero => cases h
  | succ depth ih =>
    rw [Source.expand?] at h
    simp only [bind, Option.bind_eq_some_iff] at h
    obtain ⟨ss, hss, hitems⟩ := h
    have read := Source.allReadFrom_of_statements? hss
    refine Expanded.wereRead_of_expandAll read (fun file inner hinner => ?_) hitems
    obtain ⟨text, _, hinner⟩ := Option.bind_eq_some_iff.mp hinner
    exact ih hinner

/-! ### Names that are no keys of the tree's own -/

theorem Key.isReserved_eq_false_of_colon {name : String} (h : ':' ∈ name.toList) :
    isReserved name = false := by
  have none : ∀ key ∈ reserved, ':' ∉ key.toList := by decide
  rw [isReserved, Bool.eq_false_iff]
  exact fun mem => none name (List.elem_iff.mp mem) h

/-- Only the name of a property may be a key of the tree's own. -/
def PathSegment.Checked (s : PathSegment) : Prop :=
  Key.isReserved s.name = false ∨ ∃ name span, s = .metaProperty name span

theorem PathSegment.Allowed.checked {s : PathSegment} {b : Bool} {src : Source}
    (h : s.Allowed b) (read : s.ReadFrom src) : s.Checked := by
  cases s with
  | plain key span => exact .inl h.2.1
  | quoted key span => exact .inl h.2.1
  | metaProperty name span => exact .inr ⟨name, span, rfl⟩
  | prototype name span => exact .inl (Key.isReserved_eq_false_of_colon read.2.1)

/-- A visit of an accepted run: every row of segments has a segment and passes the check, and a copy
is one that the paths allow. -/
structure SpelledVisit.Sound (v : SpelledVisit) : Prop where
  rows : ∀ row ∈ v.rows, row.2 ≠ [] ∧ ∀ s ∈ row.2, s.Checked
  copies : ∀ source, v.operation = .copy source →
    (Entries.copyOrInherit? v.visit.path (source.keys v.visit.path)).isSome

namespace Expanded

variable {ctx : Context} {f : Entries → Entries}

open Merge

theorem sound_of_does {path : ObjectPath} {operation : Option Operation} {src : Source}
    {block : List PathSegment} (hblock : ∀ s ∈ block, s.Checked)
    (keys : ctx.blockPath = PathSegment.allKeys block) (allowed : path.Allowed ctx.inPrototype)
    (does : Operation.DoesAny ctx (ctx.blockPath ++ path.keys) f operation)
    (hp : path.ReadFrom src) (ho : ∀ op ∈ operation, op.ReadFrom src) :
    ∀ v ∈ SpelledVisit.ofOperation (block ++ path.segments) operation, v.Sound := by
  intro v hv
  obtain ⟨op, hop, rfl⟩ := List.mem_map.mp hv
  obtain rfl : operation = some op := by simpa using hop
  have target : block ++ path.segments ≠ [] ∧ ∀ s ∈ block ++ path.segments, s.Checked :=
    ⟨List.append_ne_nil_of_right_ne_nil _ hp.1, List.forall_mem_append.mpr
      ⟨hblock, fun s hs => (allowed s hs).checked (hp.2 s hs)⟩⟩
  have same : PathSegment.allKeys (block ++ path.segments) = ctx.blockPath ++ path.keys := by
    rw [PathSegment.allKeys_append, keys, ObjectPath.keys_eq_allKeys]
  cases op with
  | copy source =>
    obtain ⟨sourceAllowed, hf⟩ := does
    have read : source.path.ReadFrom src := ho _ rfl
    constructor
    · intro row mem
      rcases List.mem_cons.mp mem with rfl | mem
      · exact target
      · obtain rfl := List.mem_singleton.mp mem
        exact ⟨read.1, fun s hs => (sourceAllowed s hs).checked (read.2 s hs)⟩
    · rintro _ ⟨⟩
      rw [SpelledVisit.visit, same, hf]
      rfl
  | _ =>
    constructor
    · intro row mem
      obtain rfl := List.mem_singleton.mp mem
      exact target
    · rintro _ ⟨⟩

theorem sound_of_performs {items : List Expanded} {block : List PathSegment} (steady : ctx.Steady)
    (h : Performs (mergeAll ctx items) () f) (read : WereRead items)
    (hblock : ∀ s ∈ block, s.Checked) (keys : ctx.blockPath = PathSegment.allKeys block) :
    ∀ v ∈ spelledAll block items, v.Sound := by
  induction items using Expanded.induction generalizing ctx f block with
  | nil => simp [spelledAll]
  | object path operation rest ih =>
    obtain ⟨allowed, g, k, does, hk, rfl⟩ := (performs_mergeAll_object_iff steady).mp h
    rw [WereRead, objects] at read
    obtain ⟨⟨src, hp, ho⟩, hr⟩ := List.forall_mem_cons.mp read
    rw [spelledAll, spelled, List.forall_mem_append]
    exact ⟨sound_of_does hblock keys allowed does hp ho, ih steady hk hr hblock keys⟩
  | block path operation inner rest ihInner ih =>
    obtain ⟨allowed, g, i, k, does, hi, hk, rfl⟩ := (performs_mergeAll_block_iff steady).mp h
    rw [WereRead, objects] at read
    obtain ⟨⟨src, hp, ho⟩, hr⟩ := List.forall_mem_cons.mp read
    obtain ⟨readInner, readRest⟩ := List.forall_mem_append.mp hr
    have target : ∀ s ∈ block ++ path.segments, s.Checked := List.forall_mem_append.mpr
      ⟨hblock, fun s hs => (allowed s hs).checked (hp.2 s hs)⟩
    have below : (ctx.inBlock path operation).blockPath =
        PathSegment.allKeys (block ++ path.segments) := by
      rw [PathSegment.allKeys_append, ← keys, ← ObjectPath.keys_eq_allKeys, Context.inBlock]
    rw [spelledAll, spelled, List.forall_mem_append, List.forall_mem_append]
    exact ⟨⟨sound_of_does hblock keys allowed does hp ho,
      ihInner (steady.inBlock path operation) hi readInner target below⟩,
      ih steady hk readRest hblock keys⟩
  | file path inner rest ihInner ih =>
    obtain ⟨g, k, hg, hk, rfl⟩ := (performs_mergeAll_file_iff steady).mp h
    rw [WereRead, objects] at read
    obtain ⟨readInner, readRest⟩ := List.forall_mem_append.mp read
    have steadyInner : (ctx.inFile path).Steady := steady
    rw [spelledAll, spelled, List.forall_mem_append]
    exact ⟨ihInner steadyInner hg readInner (by simp) rfl, ih steady hk readRest hblock keys⟩

end Expanded

/-- Every visit of a successful run is sound. -/
theorem RunOptions.sound_of_spelledVisits {options : RunOptions} {src : Source} {tree : Entries}
    (accepted : (options.runSource src).outcome = .ok tree) {visits : List SpelledVisit}
    (read : src.spelledVisits? options.resolver options.depth = some visits) :
    ∀ v ∈ visits, v.Sound := by
  obtain ⟨s, merged, _⟩ := exists_of_runSource accepted
  obtain ⟨f, hf, _⟩ := (Merge.steady_source options.depth src []).performs_of_ok merged
  obtain ⟨items, hitems, performs⟩ := Merge.performs_expand (Nat.le_refl options.depth) hf
  obtain rfl : Expanded.spelledAll [] items = visits := by
    simpa [Source.spelledVisits?, hitems] using read
  have steady := Context.steady_ofSource options.resolver options.dsl options.depth src []
  exact Expanded.sound_of_performs steady performs (Source.wereRead_of_expand hitems) (by simp) rfl

end FusionTree
