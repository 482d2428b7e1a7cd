import FusionTree.Proofs.Merge.History

/-!
# Paths inside blocks

Inside a block a path goes on from that of the block. `Context.Within` says which segments have been
passed on the way, so that the keys of a path inside are those of the whole row of segments.

A tree keeps a prototype, and a property `@name`, one step further down than a key. Whether keys are
those of a prototype is read off the last but one, which tells it as long as no name is the key that
holds the prototypes, and no key is put beside a prototype.
-/

namespace FusionTree

namespace PathSegment

/-- Whether the segment is a key of its own, bare or in quotes. -/
def isKey : PathSegment → Bool
  | plain .. | quoted .. => true
  | _ => false

def isPrototype : PathSegment → Bool
  | prototype .. => true
  | _ => false

def name : PathSegment → String
  | plain key _ | quoted key _ => key
  | metaProperty name _ | prototype name _ => name

/-- The keys that lead from an object to where it keeps the segment. -/
def place : PathSegment → List String
  | plain .. | quoted .. => []
  | metaProperty .. => [Key.metaProperties]
  | prototype .. => [Key.prototypes]

theorem keys_eq (s : PathSegment) : s.keys = s.place ++ [s.name] := by
  cases s <;> rfl

theorem keys_ne_nil (s : PathSegment) : s.keys ≠ [] := by
  cases s <;> exact List.cons_ne_nil _ _

def allKeys (segments : List PathSegment) : List String :=
  segments.flatMap keys

@[simp] theorem allKeys_nil : allKeys [] = [] := rfl

@[simp] theorem allKeys_cons (s : PathSegment) (rest : List PathSegment) :
    allKeys (s :: rest) = s.keys ++ allKeys rest := List.flatMap_cons

@[simp] theorem allKeys_append (before after : List PathSegment) :
    allKeys (before ++ after) = allKeys before ++ allKeys after := List.flatMap_append

theorem allKeys_eq_nil_iff {segments : List PathSegment} :
    allKeys segments = [] ↔ segments = [] := by
  cases segments with
  | nil => simp
  | cons s rest => simp [s.keys_ne_nil]

/-- Keys end in the name of the last segment. -/
theorem getLast?_allKeys (segments : List PathSegment) :
    (allKeys segments).getLast? = segments.getLast?.map name := by
  rcases List.eq_nil_or_concat segments with rfl | ⟨before, last, rfl⟩
  · rfl
  · simp [last.keys_eq]

end PathSegment

namespace ObjectPath

theorem keys_eq_allKeys (p : ObjectPath) : p.keys = PathSegment.allKeys p.segments := rfl

/-- Whether the path is that of an object type as a whole, wherever it is declared. -/
def endsInPrototype (p : ObjectPath) : Bool :=
  p.segments.getLast?.any PathSegment.isPrototype

def isSingleKey (p : ObjectPath) : Bool :=
  match p.segments with
  | [s] => s.isKey
  | _ => false

theorem isSinglePrototype_iff {p : ObjectPath} :
    p.isSinglePrototype = true ↔ ∃ name span, p = ⟨[.prototype name span]⟩ := by
  obtain ⟨segments⟩ := p
  unfold isSinglePrototype
  split
  · rename_i name span h
    simp only at h
    subst h
    exact ⟨fun _ => ⟨name, span, rfl⟩, fun _ => rfl⟩
  · rename_i h
    constructor
    · intro h'
      cases h'
    · rintro ⟨name, span, hp⟩
      cases hp
      exact absurd rfl (h name span)

end ObjectPath

/-- Whether the copy is one from a key to a prototype beside it: `prototype(X) < .key`. -/
def CopySource.isBesidePrototype (source : CopySource) (path : ObjectPath) : Bool :=
  path.endsInPrototype && source.relative && source.path.isSingleKey

/-! ### Keys of prototypes -/

namespace Key

theorem isPrototypePath_concat (place : List String) (name : String) :
    isPrototypePath (place ++ [name]) = (place.getLast? == some prototypes) := by
  rw [isPrototypePath, List.dropLast_concat]

/-- The keys of a path are those of a prototype if the path is, wherever it goes on from. -/
theorem isPrototypePath_append (start : List String) {p : ObjectPath} (named : p.Named)
    (unlike : ∀ s ∈ p.segments, s.name ≠ prototypes)
    (beside : start.getLast? = some prototypes → p.isSingleKey = false) :
    isPrototypePath (start ++ p.keys) = p.endsInPrototype := by
  obtain ⟨segments⟩ := p
  obtain rfl | ⟨before, last, rfl⟩ := List.eq_nil_or_concat segments
  · exact absurd rfl named
  rw [List.concat_eq_append] at *
  have keys : start ++ ObjectPath.keys ⟨before ++ [last]⟩ =
      start ++ PathSegment.allKeys before ++ last.place ++ [last.name] := by
    simp [ObjectPath.keys_eq_allKeys, last.keys_eq]
  have ends : ObjectPath.endsInPrototype ⟨before ++ [last]⟩ = last.isPrototype := by
    simp [ObjectPath.endsInPrototype]
  -- a key ends up as a prototype only behind the key that holds the prototypes
  have no_prototype (key : last.isKey = true) :
      (start ++ PathSegment.allKeys before).getLast? ≠ some prototypes := by
    obtain rfl | ⟨more, latest, rfl⟩ := List.eq_nil_or_concat before
    · intro h
      have := beside (by simpa using h)
      simp [ObjectPath.isSingleKey, key] at this
    · have := unlike latest (by simp)
      rw [List.getLast?_append, PathSegment.getLast?_allKeys]
      simpa using this
  rw [keys, isPrototypePath_concat, ends]
  cases last with
  | plain | quoted => simpa [PathSegment.place, PathSegment.isPrototype] using no_prototype rfl
  | metaProperty name span =>
    rw [PathSegment.place, List.getLast?_concat]
    rfl
  | prototype name span =>
    rw [PathSegment.place, List.getLast?_concat]
    rfl

/-- A name may hide what a path is: the key behind the property `@__prototypes` passes for a
prototype. -/
example : isPrototypePath (ObjectPath.keys
    ⟨[.metaProperty prototypes Span.dummy, .plain "x" Span.dummy]⟩) = true := by
  decide

/-- Only a prototype at the root has the keys of one. -/
theorem exists_of_allKeys_eq {segments : List PathSegment} {name : String}
    (allowed : ∀ s ∈ segments, ∃ b, s.Allowed b)
    (h : PathSegment.allKeys segments = [prototypes, name]) :
    ∃ span, segments = [.prototype name span] := by
  cases segments with
  | nil => cases h
  | cons s rest =>
    obtain ⟨_, free⟩ := allowed s (by simp)
    rw [PathSegment.allKeys_cons] at h
    cases s with
    | plain key span | quoted key span =>
      obtain ⟨rfl, _⟩ := List.cons.inj h
      have : isReserved prototypes = false := free.2.1
      exact absurd this (by decide)
    | metaProperty =>
      exact absurd (List.cons.inj h).1 (by decide)
    | prototype n span =>
      obtain ⟨rfl, nothing⟩ := List.cons.inj (List.cons.inj h).2
      rw [PathSegment.allKeys_eq_nil_iff.mp nothing]
      exact ⟨span, rfl⟩

end Key

/-! ### Paths without forged keys -/

/-- The only keys of the tree's own among these are those that hold properties and prototypes. -/
def Key.Placed (path : List String) : Prop :=
  ∀ k ∈ path, isReserved k = true → k = metaProperties ∨ k = prototypes

/-- The keys of segments that name no key of the tree's own. -/
structure Key.Named (path : List String) : Prop where
  placed : Placed path
  last : ∃ start name, path = start ++ [name] ∧ isReserved name = false

namespace Key

theorem Placed.append {p q : List String} (hp : Placed p) (hq : Placed q) : Placed (p ++ q) :=
  List.forall_mem_append.mpr ⟨hp, hq⟩

theorem Placed.dropLast {p : List String} (h : Placed p) : Placed p.dropLast :=
  fun k mem => h k (List.dropLast_subset p mem)

/-- The other keys of the tree's own are not among the keys. -/
theorem Placed.avoids {p own : List String} (h : Placed p)
    (others : ∀ k ∈ own, isReserved k = true ∧ k ≠ metaProperties ∧ k ≠ prototypes) :
    ∀ k ∈ p, k ∉ own := by
  intro k mem hk
  obtain ⟨reserved, notMeta, notPrototypes⟩ := others k hk
  rcases h k mem reserved with same | same
  · exact notMeta same
  · exact notPrototypes same

theorem Named.append {p q : List String} (hp : Placed p) (hq : Named q) : Named (p ++ q) where
  placed := hp.append hq.placed
  last := by
    obtain ⟨start, name, rfl, own⟩ := hq.last
    exact ⟨p ++ start, name, (List.append_assoc ..).symm, own⟩

theorem Named.ne_nil {p : List String} (h : Named p) : p ≠ [] := by
  obtain ⟨start, name, rfl, _⟩ := h.last
  simp

theorem Named.of_concat {p : List String} {name : String} (h : Named (p ++ [name])) :
    isReserved name = false := by
  obtain ⟨start, last, eq, own⟩ := h.last
  rwa [List.singleton_inj.mp (List.append_inj' eq rfl).2]

end Key

theorem PathSegment.placed_allKeys {segments : List PathSegment}
    (names : ∀ s ∈ segments, Key.isReserved s.name = false) : Key.Placed (allKeys segments) := by
  intro k mem own
  obtain ⟨s, hs, hk⟩ := List.mem_flatMap.mp mem
  rw [s.keys_eq] at hk
  rcases List.mem_append.mp hk with hk | hk
  · cases s with
    | plain | quoted => cases hk
    | metaProperty => exact .inl (List.mem_singleton.mp hk)
    | prototype => exact .inr (List.mem_singleton.mp hk)
  · rw [List.mem_singleton.mp hk, names s hs] at own
    cases own

theorem PathSegment.named_allKeys {segments : List PathSegment} (ne_nil : segments ≠ [])
    (names : ∀ s ∈ segments, Key.isReserved s.name = false) : Key.Named (allKeys segments) := by
  refine ⟨placed_allKeys names, ?_⟩
  obtain ⟨before, last, eq⟩ := (List.eq_nil_or_concat segments).resolve_left ne_nil
  rw [List.concat_eq_append] at eq
  refine ⟨allKeys before ++ last.place, last.name, ?_, names last (by simp [eq])⟩
  simp [eq, last.keys_eq]

theorem CopySource.named_keys {source : CopySource} {target : List String} (ht : Key.Named target)
    (hs : Key.Named source.path.keys) : Key.Named (source.keys target) := by
  refine .append ?_ hs
  split
  · exact ht.placed.dropLast
  · intro k mem
    cases mem

/-! ### Contexts inside blocks -/

/-- The contexts inside the blocks of statements, with the segments of the paths of the blocks, the
outermost first. -/
inductive Context.Within (root : Context) : List PathSegment → Context → Prop
  | root : Within root [] root
  | block {outer : List PathSegment} {ctx : Context} (inside : Within root outer ctx)
      {path : ObjectPath} (allowed : path.Allowed ctx.inPrototype) (operation : Option Operation) :
      Within root (outer ++ path.segments) (ctx.inBlock path operation)

namespace Context.Within

variable {root ctx : Context} {outer : List PathSegment}

theorem blockPath (h : Within root outer ctx) :
    ctx.blockPath = root.blockPath ++ PathSegment.allKeys outer := by
  induction h with
  | root => simp
  | block inside allowed operation ih => simp [inBlock, ih, ObjectPath.keys_eq_allKeys]

theorem steady (h : Within root outer ctx) (steady : root.Steady) : ctx.Steady := by
  induction h with
  | root => exact steady
  | block inside allowed operation ih => exact ih.inBlock _ _

theorem allowed (h : Within root outer ctx) : ∀ s ∈ outer, ∃ b, s.Allowed b := by
  induction h with
  | root => simp
  | block inside allowed operation ih =>
    intro s hs
    rcases List.mem_append.mp hs with hs | hs
    · exact ih s hs
    · exact ⟨_, allowed s hs⟩

theorem spelled (h : Within root outer ctx) (start : Key.Spelled root.blockPath) :
    Key.Spelled ctx.blockPath := by
  induction h with
  | root => exact start
  | block inside allowed operation ih => exact ih.append allowed.spelled_keys

end Context.Within

/-- The root of a source that no other can be entered from. -/
def Context.alone : Context :=
  Context.ofSource { resolve := fun _ _ => .ok [], read := fun _ => .ok "", same := (· == ·) } {} 0
    Source.nowhere []

end FusionTree
