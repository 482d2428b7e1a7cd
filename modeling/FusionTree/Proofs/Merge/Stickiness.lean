import FusionTree.Proofs.Merge.LastAssignment
import FusionTree.Proofs.Tree.Copying

/-!
# Objects that inherit nothing

An unset marks its object, and the mark is an entry like any other. Later assignments and copies
around the object, to it and below it merge with that entry, so the object stays marked. It loses
the mark only when it is removed, or when a copy brings something else than a map in its place.
-/

namespace FusionTree

open Entries

def Visit.removes (v : Visit) : Bool :=
  match v.operation with
  | .unset _ | .assign (.null _) => true
  | _ => false

/-- What the visit copies to its path; between prototypes nothing is copied. -/
def Visit.brings? (v : Visit) (tree : Entries) : Option Node :=
  match v.operation with
  | .copy source =>
    if Key.isPrototypePath v.path then none
    else some (tree.materialize (source.keys v.path)).1
  | _ => none

/-- Whether everything that visits copy to an object, or to one around it, spares the mark of the
object. -/
def Visit.AllSpare (path : List String) : List Visit → (tree : Entries) → Prop
  | [], _ => True
  | v :: rest, tree =>
    (∀ n, v.brings? tree = some n → ∀ below, path = v.path ++ below →
      n.Spares (below ++ [Key.stop]) (.bool true)) ∧
    AllSpare path rest (v.apply tree)

/-- Whether an unset has marked the object at a path. -/
def Entries.Marked (tree : Entries) (path : List String) : Prop :=
  (Node.map tree).at? (path ++ [Key.stop]) = some (.bool true)

/-! ### The path of a mark -/

namespace Key

theorem Spelled.stop_not_head {rest : List String} : ¬Spelled (stop :: rest) :=
  fun h => h.head_ne (by decide) (by decide) (by decide) rfl

/-- A path that does not lead to an object does not lead to its mark, nor past it. -/
theorem Spelled.incomparable_mark {path other : List String} (spelled : Spelled path)
    (spelledOther : Spelled other) (aside : ¬other <+: path) :
    ¬other <+: path ++ [stop] ∧ ¬path ++ [stop] <+: other := by
  constructor
  · intro h
    rcases List.prefix_concat_iff.mp h with rfl | h
    · exact stop_not_head (spelled.of_append spelledOther)
    · exact aside h
  · rintro ⟨rest, rfl⟩
    rw [List.append_assoc] at spelledOther
    exact stop_not_head (spelled.of_append spelledOther)

/-- A key of the tree's own below another object does not lead to a mark, nor past it. -/
theorem Spelled.own_incomparable_mark {path other : List String} (spelled : Spelled path)
    (spelledOther : Spelled other) {own : String} (reserved : isReserved own = true)
    (notMeta : own ≠ metaProperties) (notPrototypes : own ≠ prototypes)
    (aside : own = stop → other ≠ path) :
    ¬other ++ [own] <+: path ++ [stop] ∧ ¬path ++ [stop] <+: other ++ [own] := by
  have not_same : other ++ [own] ≠ path ++ [stop] := by
    intro h
    obtain ⟨hp, ho⟩ := List.append_inj' h rfl
    exact aside (List.singleton_inj.mp ho) hp
  constructor
  · intro h
    rcases List.prefix_concat_iff.mp h with h | ⟨rest, rfl⟩
    · exact not_same h
    · rw [List.append_assoc] at spelled
      exact (spelledOther.of_append spelled).head_ne reserved notMeta notPrototypes rfl
  · intro h
    rcases List.prefix_concat_iff.mp h with h | ⟨rest, rfl⟩
    · exact not_same h.symm
    · rw [List.append_assoc] at spelledOther
      exact stop_not_head (spelled.of_append spelledOther)

/-- The way from an object to the mark of one below it, or to its own, begins with no tag. -/
theorem Spelled.exists_cons_mark {path rest : List String} (spelled : Spelled path)
    (below : Spelled (path ++ rest)) :
    ∃ key more, rest ++ [stop] = key :: more ∧ key ∉ tags := by
  cases rest with
  | nil => exact ⟨stop, [], rfl, by decide⟩
  | cons key more => exact ⟨key, more ++ [stop], rfl, (spelled.of_append below).head_not_tag⟩

end Key

/-! ### Through one visit -/

theorem Value.distinct {value : Value} {n : Node} (h : value.node? = some n) : n.Distinct := by
  have null : Node.null.Distinct := Node.distinct_of_entries?_eq_none rfl
  cases value with
  | objectName name span =>
    cases h
    have text : (Node.string name).Distinct := Node.distinct_of_entries?_eq_none rfl
    exact ((Distinct.nil.insert Key.objectType text).insert Key.value null).insert Key.eel null
  | eel code span =>
    cases h
    have text : (Node.string (String.ofList (code.toList.filter (· ≠ '\n')))).Distinct :=
      Node.distinct_of_entries?_eq_none rfl
    exact ((Distinct.nil.insert Key.eel text).insert Key.value null).insert Key.objectType null
  | dsl => cases h
  | _ => cases h; exact Node.distinct_of_entries?_eq_none rfl

theorem Visit.distinct_apply (v : Visit) {tree : Entries} (h : tree.Distinct) :
    (v.apply tree).Distinct := by
  obtain ⟨path, operation⟩ := v
  cases operation with
  | assign value =>
    cases hv : value.node? with
    | none => simpa only [Visit.apply, hv] using h
    | some n => simpa only [Visit.apply, hv] using h.set path (Value.distinct hv)
  | unset span => exact h.unset path
  | copy source =>
    simp only [Visit.apply]
    split
    · rename_i f hf
      obtain ⟨_, rfl⟩ | ⟨parent, rfl⟩ := copyOrInherit?_eq_some hf
      · exact h.copy path _
      · exact h.set _ (Node.distinct_of_entries?_eq_none rfl)
    · exact h

theorem Visit.distinct_applyAll (visits : List Visit) {tree : Entries} (h : tree.Distinct) :
    (Visit.applyAll visits tree).Distinct := by
  induction visits generalizing tree with
  | nil => exact h
  | cons v rest ih => exact ih (v.distinct_apply h)

namespace Entries.Marked

variable {tree : Entries} {path : List String}

theorem set_aside (h : tree.Marked path) (spelled : Key.Spelled path) {other : List String}
    (spelledOther : Key.Spelled other) (aside : ¬other <+: path) (n : Node) :
    (tree.set other n).Marked path := by
  obtain ⟨above, below⟩ := spelled.incomparable_mark spelledOther aside
  exact at?_set_of_incomparable above below h

theorem set_own (h : tree.Marked path) (spelled : Key.Spelled path) {other : List String}
    (spelledOther : Key.Spelled other) {own : String} (reserved : Key.isReserved own = true)
    (notMeta : own ≠ Key.metaProperties) (notPrototypes : own ≠ Key.prototypes)
    (aside : own = Key.stop → other ≠ path) (n : Node) :
    (tree.set (other ++ [own]) n).Marked path := by
  obtain ⟨above, below⟩ :=
    spelled.own_incomparable_mark spelledOther reserved notMeta notPrototypes aside
  exact at?_set_of_incomparable above below h

/-- What is written to the object or to one around it leaves the mark if it spares it. -/
theorem set_around {object rest : List String} (h : tree.Marked (object ++ rest))
    (ho : object ≠ []) (spelled : Key.Spelled (object ++ rest))
    (spelledObject : Key.Spelled object) {n : Node} (distinct : n.Distinct)
    (spares : n.Spares (rest ++ [Key.stop]) (.bool true)) :
    (tree.set object n).Marked (object ++ rest) := by
  obtain ⟨key, more, hr, hk⟩ := spelledObject.exists_cons_mark spelled
  rw [Entries.Marked, List.append_assoc, hr] at h ⊢
  exact at?_set_of_spares ho hk distinct rfl (hr ▸ spares) h

theorem assign (h : tree.Marked path) (spelled : Key.Spelled path) {other : List String}
    (ho : other ≠ []) (spelledOther : Key.Spelled other) {n : Node} (fact : n.IsFact)
    (kept : other <+: path → n.isNull = false) : (tree.set other n).Marked path := by
  by_cases around : other <+: path
  · have something := kept around
    obtain ⟨rest, rfl⟩ := around
    obtain ⟨key, more, hr, hk⟩ := spelledOther.exists_cons_mark spelled
    rw [Entries.Marked, List.append_assoc, hr] at h ⊢
    exact at?_set_above ho hk fact something h
  · exact h.set_aside spelled spelledOther around n

theorem unset (h : tree.Marked path) (spelled : Key.Spelled path) {other : List String}
    (spelledOther : Key.Spelled other) (kept : ¬other <+: path) :
    (tree.unset other).Marked path := by
  have removed : (tree.set other .null).Marked path := h.set_aside spelled spelledOther kept .null
  refine removed.set_own spelled spelledOther (by decide) (by decide) (by decide) ?_ _
  rintro - rfl
  exact kept (List.prefix_refl other)

theorem copy (h : tree.Marked path) (distinct : tree.Distinct) (spelled : Key.Spelled path)
    {target : List String} (ht : target ≠ []) (spelledTarget : Key.Spelled target)
    (source : List String)
    (brought : ∀ rest, path = target ++ rest →
      (tree.materialize source).1.Spares (rest ++ [Key.stop]) (.bool true)) :
    (tree.copy target source).Marked path := by
  have looked : (tree.materialize source).2.Marked path := at?_materialize source rfl rfl h
  rw [copy_eq]
  by_cases around : target <+: path
  · obtain ⟨rest, rfl⟩ := around
    exact looked.set_around ht spelled spelledTarget (distinct.materialize source).1
      (brought rest rfl)
  · exact looked.set_aside spelled spelledTarget around _

/-- The visit leaves the mark, unless it removes the object or one around it, or copies something
there that does not spare the mark. -/
theorem apply (h : tree.Marked path) (distinct : tree.Distinct) (spelled : Key.Spelled path)
    {v : Visit} (sound : v.Sound) (plain : v.isPlain = true)
    (kept : v.path <+: path → v.removes = false)
    (brought : ∀ n, v.brings? tree = some n → ∀ rest, path = v.path ++ rest →
      n.Spares (rest ++ [Key.stop]) (.bool true)) : (v.apply tree).Marked path := by
  obtain ⟨target, operation⟩ := v
  obtain ⟨ht, spelledTarget⟩ := sound
  cases operation with
  | assign value =>
    obtain ⟨n, hn⟩ := Option.isSome_iff_exists.mp plain
    simp only [Visit.apply, hn]
    refine h.assign spelled ht spelledTarget (Value.isFact hn) fun around => ?_
    refine Node.isNull_eq_false_of_ne ?_
    rintro rfl
    have removes := kept around
    cases value <;> cases hn
    cases removes
  | unset span =>
    refine h.unset spelled spelledTarget fun around => ?_
    cases kept around
  | copy source =>
    simp only [Visit.apply]
    split
    · rename_i f hf
      obtain ⟨notPrototype, rfl⟩ | ⟨parent, rfl⟩ := copyOrInherit?_eq_some hf
      · exact h.copy distinct spelled ht spelledTarget _
          (brought _ (by simp [Visit.brings?, notPrototype]))
      · exact h.set_own spelled spelledTarget (by decide) (by decide) (by decide)
          (fun e => absurd e (by decide)) _
    · exact h

/-! ### Through a run -/

theorem applyAll {visits : List Visit} (h : tree.Marked path) (distinct : tree.Distinct)
    (spelled : Key.Spelled path) (sound : ∀ v ∈ visits, v.Sound)
    (plain : ∀ v ∈ visits, v.isPlain = true)
    (kept : ∀ v ∈ visits, v.path <+: path → v.removes = false)
    (spare : Visit.AllSpare path visits tree) : (Visit.applyAll visits tree).Marked path := by
  induction visits generalizing tree with
  | nil => exact h
  | cons v rest ih =>
    simp only [List.forall_mem_cons] at sound plain kept
    have step := h.apply distinct spelled sound.1 plain.1 kept.1 spare.1
    exact ih step (v.distinct_apply distinct) sound.2 plain.2 kept.2 spare.2

end Entries.Marked

theorem Entries.marked_unset (tree : Entries) {path : List String} (hp : path ≠ []) :
    (tree.unset path).Marked path := by
  rw [Entries.Marked, Node.at?_append, at?_unset_self tree hp]
  rfl

namespace RunOptions

/-- An object that an unset has marked is marked in the finished tree, if neither it nor an object
around it is removed from then on and whatever is copied there spares the mark. -/
theorem unset_sticks {options : RunOptions} {src : Source} {tree : Entries}
    (accepted : (options.runSource src).outcome = .ok tree) {earlier later : List Visit}
    {path : List String} {span : Span}
    (read : src.visits? options.resolver options.depth =
      some (earlier ++ ⟨path, .unset span⟩ :: later))
    (plain : ∀ v ∈ earlier ++ ⟨path, .unset span⟩ :: later, v.isPlain = true)
    (kept : ∀ v ∈ later, v.path <+: path → v.removes = false)
    (spare : Visit.AllSpare path later ((Visit.applyAll earlier []).unset path)) :
    ∃ n, tree.getPath? path = some n ∧ n.stopsInheritance = true := by
  obtain ⟨sound, linked⟩ := history accepted read plain
  simp only [List.forall_mem_append, List.forall_mem_cons] at sound plain
  obtain ⟨_, ⟨hp, spelled⟩, soundLater⟩ := sound
  have distinct : (Visit.applyAll earlier []).Distinct := Visit.distinct_applyAll earlier .nil
  have marked := (marked_unset (Visit.applyAll earlier []) hp).applyAll (distinct.unset path)
    spelled soundLater plain.2.2 kept spare
  rw [Entries.Marked, Node.at?_append] at marked
  obtain ⟨n, hn, mark⟩ := Option.bind_eq_some_iff.mp marked
  have merged :
      (Node.map (Visit.applyAll (earlier ++ ⟨path, .unset span⟩ :: later) [])).at? path =
        some n := by
    rw [Visit.applyAll_append, Visit.applyAll_cons]
    exact hn
  obtain ⟨m, hm, link⟩ := exists_linkedTo linked hp spelled merged
  refine ⟨m, hm, ?_⟩
  rw [Node.at?_singleton] at mark
  rw [Node.stopsInheritance, link.get? (by decide), mark]

/-- An object stays marked while another one is copied to the object around it, which had become a
number. -/
theorem unset_sticks_below_copy :
    let options : RunOptions := { resolver := noFiles }
    let src := Source.ofString "a.b >\na = 1\nc.d = 2\na < c" none
    ∃ tree n, (options.runSource src).outcome = .ok tree ∧ tree.getPath? ["a", "b"] = some n ∧
      n.stopsInheritance = true := by
  intro options src
  obtain ⟨tree, accepted⟩ : ∃ tree, (options.runSource src).outcome = .ok tree :=
    exists_of_isOk (by decide +kernel)
  have read : src.visits? options.resolver options.depth = some
      ([] ++ ⟨["a", "b"], .unset ⟨src, 4, 5⟩⟩ ::
        [⟨["a"], .assign (.int 1 ⟨src, 10, 11⟩)⟩, ⟨["c", "d"], .assign (.int 2 ⟨src, 18, 19⟩)⟩,
          ⟨["a"], .copy ⟨⟨[.plain "c" ⟨src, 24, 25⟩]⟩, false⟩⟩]) := by
    decide +kernel
  have spare : Visit.AllSpare ["a", "b"]
      [⟨["a"], .assign (.int 1 ⟨src, 10, 11⟩)⟩, ⟨["c", "d"], .assign (.int 2 ⟨src, 18, 19⟩)⟩,
        ⟨["a"], .copy ⟨⟨[.plain "c" ⟨src, 24, 25⟩]⟩, false⟩⟩]
      (Entries.unset (Visit.applyAll [] []) ["a", "b"]) := by
    refine ⟨(fun _ h => nomatch h), (fun _ h => nomatch h), fun n hn below hb => ?_, trivial⟩
    obtain rfl : ["b"] = below := (List.cons.inj hb).2
    cases hn
    exact Node.spares_of_get?_eq_none rfl rfl _
  obtain ⟨n, hn, stops⟩ := unset_sticks accepted read (by decide) (by decide) spare
  exact ⟨tree, n, accepted, hn, stops⟩

/-- A copy may bring a plain value in place of a marked object, and then the mark is gone. -/
theorem unset_does_not_always_stick :
    ¬∀ (options : RunOptions) (src : Source) (tree : Entries) (earlier later : List Visit)
      (path : List String) (span : Span),
      (options.runSource src).outcome = .ok tree →
      src.visits? options.resolver options.depth =
        some (earlier ++ ⟨path, .unset span⟩ :: later) →
      (∀ v ∈ earlier ++ ⟨path, .unset span⟩ :: later, v.isPlain = true) →
      (∀ v ∈ later, v.path <+: path → v.removes = false) →
      ∃ n, tree.getPath? path = some n ∧ n.stopsInheritance = true := by
  intro sticks
  let options : RunOptions := { resolver := noFiles }
  let src := Source.ofString "a.c >\nb.c = 1\na < b" none
  obtain ⟨tree, accepted⟩ : ∃ tree, (options.runSource src).outcome = .ok tree :=
    exists_of_isOk (by decide +kernel)
  have read : src.visits? options.resolver options.depth = some
      ([] ++ ⟨["a", "c"], .unset ⟨src, 4, 5⟩⟩ ::
        [⟨["b", "c"], .assign (.int 1 ⟨src, 12, 13⟩)⟩,
          ⟨["a"], .copy ⟨⟨[.plain "b" ⟨src, 18, 19⟩]⟩, false⟩⟩]) := by
    decide +kernel
  obtain ⟨n, hn, stops⟩ :=
    sticks options src tree _ _ _ _ accepted read (by decide) (by decide)
  have unmarked : ((options.runSource src).outcome.toOption.bind
      (·.getPath? ["a", "c"])).any Node.stopsInheritance = false := by
    decide +kernel
  simp [accepted, Except.toOption, hn, stops] at unmarked

end RunOptions

end FusionTree
