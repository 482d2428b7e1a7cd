import FusionTree.Merge.Statement
import FusionTree.Proofs.Merge.Effect

/-!
# From segments to keys

Which segments a merge accepts, why it refuses the others, and what their keys look like. Since a
reserved key comes from a segment only together with the name after it, the keys of a path tell
where its segments begin: what goes on after them is made of whole segments again.
-/

namespace FusionTree

/-- A key that a source may spell out. -/
def Key.Speakable (key : String) : Prop :=
  key.isEmpty = false ∧ Key.isReserved key = false ∧ '\n' ∉ key.toList

instance (key : String) : Decidable (Key.Speakable key) :=
  inferInstanceAs (Decidable (_ ∧ _))

/-- Whether keys can be those of segments: every key of the tree's own stands before a name. -/
def Key.Spelled : List String → Prop
  | [] => True
  | [key] => isReserved key = false
  | key :: name :: rest =>
    if key = metaProperties ∨ key = prototypes then Spelled rest
    else isReserved key = false ∧ Spelled (name :: rest)

namespace Key

theorem spelled_cons_iff {key : String} (h : isReserved key = false) (rest : List String) :
    Spelled (key :: rest) ↔ Spelled rest := by
  cases rest with
  | nil => simp [Spelled, h]
  | cons name rest =>
    have : ¬(key = metaProperties ∨ key = prototypes) := by
      rintro (rfl | rfl) <;> exact absurd h (by decide)
    simp [Spelled, this, h]

theorem Spelled.append {p q : List String} (hp : Spelled p) (hq : Spelled q) :
    Spelled (p ++ q) := by
  fun_induction Spelled p with
  | case1 => exact hq
  | case2 key => exact (spelled_cons_iff hp q).mpr hq
  | case3 key name rest owned ih =>
    rw [List.cons_append, List.cons_append, Spelled, if_pos owned]
    exact ih hp
  | case4 key name rest owned ih => exact (spelled_cons_iff hp.1 _).mpr (ih hp.2)

/-- Segments begin where the keys before them end. -/
theorem Spelled.of_append {p q : List String} (hp : Spelled p) (h : Spelled (p ++ q)) :
    Spelled q := by
  fun_induction Spelled p with
  | case1 => exact h
  | case2 key => exact (spelled_cons_iff hp q).mp h
  | case3 key name rest owned ih =>
    rw [List.cons_append, List.cons_append, Spelled, if_pos owned] at h
    exact ih hp h
  | case4 key name rest owned ih => exact ih hp.2 ((spelled_cons_iff hp.1 _).mp h)

/-- The only keys of the tree's own that segments begin with. -/
theorem Spelled.head {key : String} {rest : List String} (h : Spelled (key :: rest)) :
    key = metaProperties ∨ key = prototypes ∨ isReserved key = false := by
  cases rest with
  | nil => exact .inr (.inr h)
  | cons name rest =>
    rw [Spelled] at h
    split at h
    · rename_i owned
      exact owned.imp_right .inl
    · exact .inr (.inr h.1)

/-- No segment begins with any other key of the tree's own. -/
theorem Spelled.head_ne {key own : String} {rest : List String} (h : Spelled (key :: rest))
    (reserved : isReserved own = true) (notMeta : own ≠ metaProperties)
    (notPrototypes : own ≠ prototypes) : key ≠ own := by
  rintro rfl
  rcases h.head with hm | hp | hr
  · exact notMeta hm
  · exact notPrototypes hp
  · rw [reserved] at hr
    cases hr

end Key

namespace PathSegment

def keys : PathSegment → List String
  | plain key _ | quoted key _ => [key]
  | metaProperty name _ => [Key.metaProperties, name]
  | prototype name _ => [Key.prototypes, name]

def isPrivate : PathSegment → Bool
  | metaProperty name _ => name = Key.privateProperty
  | _ => false

/-- Whether a segment may stand in a block, if the block belongs to a root prototype declaration
or not. -/
def Allowed (inPrototype : Bool) : PathSegment → Prop
  | plain key _ | quoted key _ => Key.Speakable key
  | metaProperty name _ => name = Key.privateProperty → inPrototype = true
  | prototype .. => True

theorem Allowed.of_not_isPrivate {s : PathSegment} {b c : Bool} (h : s.Allowed b)
    (hs : s.isPrivate = false) : s.Allowed c := by
  cases s with
  | plain | quoted => exact h
  | metaProperty name => intro hn; simp [isPrivate, hn] at hs
  | prototype => trivial

end PathSegment

namespace ObjectPath

def keys (p : ObjectPath) : List String :=
  p.segments.flatMap PathSegment.keys

def Allowed (inPrototype : Bool) (p : ObjectPath) : Prop :=
  ∀ s ∈ p.segments, s.Allowed inPrototype

end ObjectPath

def Key.refusal? (key : String) : Option Cause :=
  if key.isEmpty then some .emptyKey
  else if isReserved key then some (.reservedKey key)
  else if '\n' ∈ key.toList then some (.newlineInKey key)
  else none

def PathSegment.refusal? (inPrototype : Bool) : PathSegment → Option Cause
  | plain key _ | quoted key _ => Key.refusal? key
  | metaProperty name _ =>
    if name = Key.privateProperty ∧ !inPrototype then some .misplacedPrivate else none
  | prototype .. => none

/-- Why a path is refused: the cause is that of the first segment that is. -/
def ObjectPath.refusal? (inPrototype : Bool) (p : ObjectPath) : Option Cause :=
  p.segments.findSome? (·.refusal? inPrototype)

theorem Key.refusal?_eq_none_iff {key : String} : refusal? key = none ↔ Speakable key := by
  unfold refusal? Speakable
  split
  · simp [*]
  · split
    · simp [*]
    · split <;> simp [*]

theorem PathSegment.refusal?_eq_none_iff {s : PathSegment} {b : Bool} :
    s.refusal? b = none ↔ s.Allowed b := by
  cases s with
  | plain | quoted => exact Key.refusal?_eq_none_iff
  | metaProperty name span => simp [refusal?, Allowed]
  | prototype => simp [refusal?, Allowed]

/-- Where a segment stands matters to `@private` alone. -/
theorem PathSegment.refusal?_of_not_isPrivate {s : PathSegment} (h : s.isPrivate = false)
    (b c : Bool) : s.refusal? b = s.refusal? c := by
  cases s with
  | metaProperty name span =>
    have : name ≠ Key.privateProperty := by simpa [isPrivate] using h
    simp [refusal?, this]
  | _ => rfl

namespace ObjectPath

theorem refusal?_eq_none_iff {p : ObjectPath} {b : Bool} :
    p.refusal? b = none ↔ p.Allowed b := by
  rw [refusal?, List.findSome?_eq_none_iff]
  exact forall₂_congr fun _ _ => PathSegment.refusal?_eq_none_iff

theorem refusal?_append (before after : List PathSegment) (b : Bool) :
    refusal? b ⟨before ++ after⟩ = (refusal? b ⟨before⟩).or (refusal? b ⟨after⟩) :=
  List.findSome?_append

theorem refusal?_of_not_isPrivate {p : ObjectPath} (h : ∀ s ∈ p.segments, s.isPrivate = false)
    (b c : Bool) : p.refusal? b = p.refusal? c := by
  obtain ⟨segments⟩ := p
  induction segments with
  | nil => rfl
  | cons s rest ih =>
    have head := PathSegment.refusal?_of_not_isPrivate (h s (by simp)) b c
    have tail := ih fun s hs => h s (List.mem_cons_of_mem _ hs)
    simp only [refusal?, List.findSome?_cons] at tail ⊢
    rw [head, tail]

end ObjectPath

theorem PathSegment.Allowed.spelled_keys {s : PathSegment} {b : Bool} (h : s.Allowed b) :
    Key.Spelled s.keys := by
  cases s with
  | plain | quoted => exact h.2.1
  | metaProperty | prototype => trivial

theorem ObjectPath.Allowed.spelled_keys {p : ObjectPath} {b : Bool} (h : p.Allowed b) :
    Key.Spelled p.keys := by
  obtain ⟨segments⟩ := p
  induction segments with
  | nil => trivial
  | cons s rest ih =>
    have head : s.Allowed b := h s (by simp)
    have tail : Key.Spelled (ObjectPath.keys ⟨rest⟩) :=
      ih fun s hs => h s (List.mem_cons_of_mem _ hs)
    exact head.spelled_keys.append tail

namespace Merge

open Key

theorem performs_checkKey {key : String} (h : Speakable key) (span : Span) :
    Performs (checkKey key span) () id := by
  obtain ⟨notEmpty, notReserved, noNewline⟩ := h
  simp only [checkKey, notEmpty, notReserved, noNewline, Bool.false_eq_true, if_false]
  exact performs_pure ()

theorem stops_checkKey {key : String} {cause : Cause} (h : Key.refusal? key = some cause)
    (span : Span) : Stops (checkKey key span) (.problem ⟨cause, span⟩) := by
  unfold Key.refusal? at h
  unfold checkKey
  split at h
  · cases h
    simpa [*] using stops_fail _ span
  · split at h
    · cases h
      simpa [*] using stops_fail _ span
    · split at h
      · cases h
        simpa [*] using stops_fail _ span
      · cases h

theorem performs_keysOf {ctx : Context} {s : PathSegment} (h : s.Allowed ctx.inPrototype) :
    Performs (keysOf ctx s) s.keys id := by
  cases s with
  | plain key span | quoted key span =>
    exact (performs_checkKey h span).bind_quiet (performs_pure [key])
  | metaProperty name span =>
    have : ¬(name = privateProperty ∧ (!ctx.inPrototype) = true) := by
      rintro ⟨hn, hp⟩
      simp [h hn] at hp
    simp only [keysOf, this, if_false]
    exact performs_pure _
  | prototype => exact performs_pure _

/-- A segment is refused at its own place. -/
theorem stops_keysOf {ctx : Context} {s : PathSegment} {cause : Cause}
    (h : s.refusal? ctx.inPrototype = some cause) :
    Stops (keysOf ctx s) (.problem ⟨cause, s.span⟩) := by
  cases s with
  | plain key span | quoted key span => exact (stops_checkKey h span).bind _
  | metaProperty name span =>
    simp only [PathSegment.refusal?] at h
    split at h
    · rename_i misplaced
      cases h
      simp only [keysOf, misplaced, and_self, if_true]
      exact (stops_fail _ _).bind _
    · cases h
  | prototype => cases h

theorem performs_extend {ctx : Context} {segments : List PathSegment}
    (h : ∀ s ∈ segments, s.Allowed ctx.inPrototype) (path : List String) :
    Performs (extend ctx path segments) (path ++ segments.flatMap PathSegment.keys) id := by
  induction segments generalizing path with
  | nil => simpa [extend] using performs_pure path
  | cons s rest ih =>
    have head := performs_keysOf (h s (by simp))
    have tail := ih (fun s hs => h s (by simp [hs])) (path ++ s.keys)
    rw [List.append_assoc] at tail
    exact head.bind_quiet tail

/-- A path is refused for the cause of its first segment that is. -/
theorem stopsFor_extend {ctx : Context} {p : ObjectPath} {cause : Cause}
    (h : p.refusal? ctx.inPrototype = some cause) (path : List String) :
    StopsFor (extend ctx path p.segments) cause := by
  obtain ⟨segments⟩ := p
  induction segments generalizing path with
  | nil => cases h
  | cons s rest ih =>
    rw [ObjectPath.refusal?, List.findSome?_cons] at h
    split at h
    · rename_i hs
      cases h
      exact ⟨_, (stops_keysOf hs).bind _⟩
    · rename_i hs
      exact (performs_keysOf (PathSegment.refusal?_eq_none_iff.mp hs)).bind_stopsFor (ih _ h)

theorem quiet_extend (ctx : Context) (path : List String) (segments : List PathSegment) :
    Quiet (extend ctx path segments) := by
  cases h : ObjectPath.refusal? ctx.inPrototype ⟨segments⟩ with
  | none => exact (performs_extend (ObjectPath.refusal?_eq_none_iff.mp h) path).quiet
  | some cause =>
    obtain ⟨_, hstop⟩ := stopsFor_extend h path
    exact hstop.quiet

theorem performs_extend_iff {ctx : Context} {path target : List String} {p : ObjectPath} :
    Performs (extend ctx path p.segments) target id ↔
      p.Allowed ctx.inPrototype ∧ target = path ++ p.keys := by
  cases h : p.refusal? ctx.inPrototype with
  | none =>
    have allowed : p.Allowed ctx.inPrototype := ObjectPath.refusal?_eq_none_iff.mp h
    constructor
    · intro ht
      exact ⟨allowed, (ht.unique (performs_extend allowed path)).1⟩
    · rintro ⟨_, rfl⟩
      exact performs_extend allowed path
  | some cause =>
    constructor
    · intro ht
      obtain ⟨_, hstop⟩ := stopsFor_extend h path
      exact absurd ht hstop.not_performs
    · intro ⟨allowed, _⟩
      rw [ObjectPath.refusal?_eq_none_iff.mpr allowed] at h
      cases h

end Merge

end FusionTree
