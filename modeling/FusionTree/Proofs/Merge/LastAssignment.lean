import FusionTree.Proofs.Merge.History
import FusionTree.Proofs.Tree.Tagging

/-!
# The last assignment to a path

In a run that only assigns, every path shows what was assigned to it last, whatever is assigned to
objects around it and below it afterwards. Only a null that removes the object, or one around it,
takes that away.
-/

namespace FusionTree

open Entries

/-! ### Keys of segments are no tags -/

theorem Key.Spelled.head_not_tag {key : String} {rest : List String}
    (h : Key.Spelled (key :: rest)) : key ∉ Key.tags := by
  have own : ∀ tag ∈ Key.tags,
      Key.isReserved tag = true ∧ tag ≠ Key.metaProperties ∧ tag ≠ Key.prototypes := by decide
  intro hk
  obtain ⟨reserved, notMeta, notPrototypes⟩ := own key hk
  exact h.head_ne reserved notMeta notPrototypes rfl

/-! ### Values -/

/-- What the tags of an object hold once the value has been assigned to it. -/
def Value.tags : Value → Tags
  | objectName name _ => { objectType := .string name }
  | eel code _ => { eel := .string (String.ofList (code.toList.filter (· ≠ '\n'))) }
  | value => { value := value.node?.getD .null }

/-- Whether a node shows a value: an object type or an embedded expression by a tag, anything else
as what it resolves to. The newlines of an expression are not kept. -/
def Value.ShownBy : Value → Node → Prop
  | objectName name _, n => ∃ es : Entries, n = .map es ∧ es.Tagged { objectType := .string name }
  | eel code _, n => ∃ es : Entries, n = .map es ∧
      es.Tagged { eel := .string (String.ofList (code.toList.filter (· ≠ '\n'))) }
  | value, n => value.node? = some n.resolved

theorem Value.isFact {value : Value} {n : Node} (h : value.node? = some n) : n.IsFact := by
  cases value with
  | objectName name span => cases h; exact Node.isFact_objectType name
  | eel code span => cases h; exact Node.isFact_eelExpression _
  | dsl => cases h
  | _ => cases h; exact Node.isFact_of_entries?_eq_none rfl

/-! ### Through one write -/

def Entries.Holds (tree : Entries) (path : List String) (t : Tags) : Prop :=
  ∃ n, (Node.map tree).at? path = some n ∧ (opened (some n)).Tagged t

theorem Entries.holds_set {value : Value} {n : Node} (h : value.node? = some n)
    (hn : n.isNull = false) (tree : Entries) {path : List String} (hp : path ≠ []) :
    (tree.set path n).Holds path value.tags := by
  obtain ⟨old, ho⟩ := exists_at?_set_self tree hp n
  rw [Entries.Holds, ho]
  cases value with
  | objectName name span =>
    cases h
    exact exists_tagged_placed_of_map (Node.isFact_objectType name) ⟨rfl, rfl, rfl⟩ rfl rfl rfl old
  | eel code span =>
    cases h
    exact exists_tagged_placed_of_map (Node.isFact_eelExpression _) ⟨rfl, rfl, rfl⟩ rfl rfl rfl old
  | null => cases h; cases hn
  | dsl => cases h
  | _ => cases h; exact exists_tagged_placed_of_plain rfl rfl old

/-- A fact about another object leaves the tags, unless it removes an object around. -/
theorem Entries.Holds.set {tree : Entries} {path : List String} {t : Tags}
    (h : tree.Holds path t) (hp : path ≠ []) (spelled : Key.Spelled path) {other : List String}
    (ho : other ≠ []) (spelledOther : Key.Spelled other) (elsewhere : other ≠ path) {n : Node}
    (fact : n.IsFact) (kept : other <+: path → n.isNull = false) :
    (tree.set other n).Holds path t := by
  obtain ⟨m, hm, tagged⟩ := h
  by_cases above : other <+: path
  · obtain ⟨rest, rfl⟩ := above
    have rest_ne : rest ≠ [] := by
      rintro rfl
      exact elsewhere (List.append_nil other).symm
    obtain ⟨key, more, rfl⟩ := List.exists_cons_of_ne_nil rest_ne
    have key_not_tag := (spelledOther.of_append spelled).head_not_tag
    exact ⟨m, at?_set_above ho key_not_tag fact (kept (List.prefix_append _ _)) hm, tagged⟩
  · by_cases below : path <+: other
    · obtain ⟨rest, rfl⟩ := below
      have rest_ne : rest ≠ [] := by
        rintro rfl
        exact elsewhere (List.append_nil path)
      obtain ⟨key, more, rfl⟩ := List.exists_cons_of_ne_nil rest_ne
      have key_not_tag := (spelled.of_append spelledOther).head_not_tag
      exact ⟨_, at?_set_append hp rest_ne hm, tagged.set key_not_tag more n⟩
    · exact ⟨m, at?_set_of_incomparable above below hm, tagged⟩

/-! ### Through a run -/

def Visit.assigned? (v : Visit) : Option Node :=
  match v.operation with
  | .assign value => value.node?
  | _ => none

theorem Visit.apply_of_assigned? {v : Visit} {n : Node} (h : v.assigned? = some n)
    (tree : Entries) : v.apply tree = tree.set v.path n := by
  obtain ⟨path, operation⟩ := v
  cases operation with
  | assign value =>
    replace h : value.node? = some n := h
    simp only [Visit.apply, h]
  | _ => cases h

theorem Visit.isFact_of_assigned? {v : Visit} {n : Node} (h : v.assigned? = some n) :
    n.IsFact := by
  obtain ⟨path, operation⟩ := v
  cases operation with
  | assign value => exact Value.isFact h
  | _ => cases h

theorem Visit.isPlain_of_assigned? {v : Visit} (h : v.assigned?.isSome = true) :
    v.isPlain = true := by
  obtain ⟨path, operation⟩ := v
  cases operation with
  | assign value => exact h
  | _ => rfl

theorem Entries.Holds.applyAll {visits : List Visit} {tree : Entries} {path : List String}
    {t : Tags} (h : tree.Holds path t) (hp : path ≠ []) (spelled : Key.Spelled path)
    (sound : ∀ v ∈ visits, v.Sound) (assigns : ∀ v ∈ visits, v.assigned?.isSome = true)
    (elsewhere : ∀ v ∈ visits, v.path ≠ path)
    (kept : ∀ v ∈ visits, v.path <+: path → v.assigned? ≠ some .null) :
    (Visit.applyAll visits tree).Holds path t := by
  induction visits generalizing tree with
  | nil => exact h
  | cons v rest ih =>
    simp only [List.forall_mem_cons] at sound assigns elsewhere kept
    obtain ⟨n, hn⟩ := Option.isSome_iff_exists.mp assigns.1
    have step : (v.apply tree).Holds path t := by
      rw [Visit.apply_of_assigned? hn]
      refine h.set hp spelled sound.1.1 sound.1.2 elsewhere.1 (Visit.isFact_of_assigned? hn) ?_
      intro above
      refine Node.isNull_eq_false_of_ne ?_
      rintro rfl
      exact kept.1 above hn
    exact ih step sound.2 assigns.2 elsewhere.2 kept.2

/-! ### In the finished tree -/

theorem Node.LinkedTo.tagged {n m : Node} (h : n.LinkedTo m) {t : Tags}
    (tagged : (opened (some n)).Tagged t) : (opened (some m)).Tagged t := by
  rcases h with rfl | ⟨es, chain, rfl, rfl⟩
  · exact tagged
  · have chain_not_tag : Key.chain ∉ Key.tags := by decide
    exact tagged.of_get? fun tag ht => get?_insert_of_ne (by rintro rfl; exact chain_not_tag ht)

/-- An object with a tag that a plain value would not have is a map. -/
theorem exists_map_of_tagged {n : Node} {t : Tags} (tagged : (opened (some n)).Tagged t)
    (special : t.eel ≠ .null ∨ t.objectType ≠ .null) :
    ∃ es : Entries, n = .map es ∧ es.Tagged t := by
  have plain {v : Node} (h : (Node.taggedEntries v).Tagged t) : False := by
    rcases special with he | ho
    · exact he (Option.some.inj h.eel).symm
    · exact ho (Option.some.inj h.objectType).symm
  cases n with
  | map es => exact ⟨es, rfl, tagged⟩
  | null => cases tagged.value
  | _ => exact absurd tagged plain

theorem resolved_of_tagged {n v : Node} (tagged : (opened (some n)).Tagged { value := v })
    (hv : v.isNull = false) : n.resolved = v := by
  have plain (h : (Node.taggedEntries n).Tagged { value := v }) : n = v :=
    Option.some.inj h.value
  cases n with
  | map es => exact Node.resolved_map tagged.value hv
  | null => cases tagged.value
  | _ => rw [← plain tagged]; rfl

theorem Value.shownBy_of_tagged {value : Value} {v n : Node} (h : value.node? = some v)
    (hv : v.isNull = false) (tagged : (opened (some n)).Tagged value.tags) : value.ShownBy n := by
  cases value with
  | objectName name span => exact exists_map_of_tagged tagged (.inr (by simp))
  | eel code span => exact exists_map_of_tagged tagged (.inl (by simp))
  | null => cases h; cases hv
  | dsl => cases h
  | _ =>
    cases h
    exact congrArg some (resolved_of_tagged tagged rfl).symm

namespace RunOptions

def noFiles : Resolver where
  resolve pattern _ := .error (.unsupportedGlob pattern)
  read file := .error (.notFound file)
  same := (· == ·)

/-- In a run of assignments a path shows the value assigned to it last, if neither it nor an object
around it is removed from then on. -/
theorem last_assignment_shown {options : RunOptions} {src : Source} {tree : Entries}
    (accepted : (options.runSource src).outcome = .ok tree) {earlier later : List Visit}
    {path : List String} {value : Value}
    (read : src.visits? options.resolver options.depth =
      some (earlier ++ ⟨path, .assign value⟩ :: later))
    (assigns : ∀ v ∈ earlier ++ ⟨path, .assign value⟩ :: later, v.assigned?.isSome = true)
    (last : ∀ v ∈ later, v.path ≠ path)
    (kept : ∀ v ∈ ⟨path, .assign value⟩ :: later, v.path <+: path → v.assigned? ≠ some .null) :
    ∃ n, tree.getPath? path = some n ∧ value.ShownBy n := by
  obtain ⟨sound, linked⟩ :=
    history accepted read fun v hv => Visit.isPlain_of_assigned? (assigns v hv)
  simp only [List.forall_mem_append, List.forall_mem_cons] at sound assigns kept
  obtain ⟨_, ⟨hp, spelled⟩, soundLater⟩ := sound
  obtain ⟨_, here, assignsLater⟩ := assigns
  obtain ⟨n, visit_assigns⟩ := Option.isSome_iff_exists.mp here
  have hn : value.node? = some n := visit_assigns
  have not_null : n.isNull = false := by
    refine Node.isNull_eq_false_of_ne ?_
    rintro rfl
    exact kept.1 (List.prefix_refl path) visit_assigns
  have assigned : ((Visit.applyAll earlier []).set path n).Holds path value.tags :=
    holds_set hn not_null _ hp
  obtain ⟨m, hm, tagged⟩ :=
    assigned.applyAll hp spelled soundLater assignsLater last kept.2
  have merged :
      (Node.map (Visit.applyAll (earlier ++ ⟨path, .assign value⟩ :: later) [])).at? path =
        some m := by
    rw [Visit.applyAll_append, Visit.applyAll_cons, Visit.apply_of_assigned? visit_assigns]
    exact hm
  obtain ⟨shown, read, link⟩ := exists_linkedTo linked hp spelled merged
  exact ⟨shown, read, Value.shownBy_of_tagged hn not_null (link.tagged tagged)⟩

/-- A number that first gets a property and then a type around it. -/
theorem last_assignment_shown_of_number :
    let options : RunOptions := { resolver := noFiles }
    let src := Source.ofString "a.b = 1\na.b.c = 2\na = Some:Type" none
    ∃ tree n, (options.runSource src).outcome = .ok tree ∧ tree.getPath? ["a", "b"] = some n ∧
      n.resolved = .int 1 := by
  intro options src
  obtain ⟨tree, accepted⟩ : ∃ tree, (options.runSource src).outcome = .ok tree :=
    exists_of_isOk (by decide +kernel)
  have read : src.visits? options.resolver options.depth = some
      ([] ++ ⟨["a", "b"], .assign (.int 1 ⟨src, 6, 7⟩)⟩ ::
        [⟨["a", "b", "c"], .assign (.int 2 ⟨src, 16, 17⟩)⟩,
          ⟨["a"], .assign (.objectName "Some:Type" ⟨src, 22, 31⟩)⟩]) := by
    decide +kernel
  obtain ⟨n, hn, shown⟩ := last_assignment_shown accepted read (by decide) (by decide)
    (by simp [Visit.assigned?, Value.node?, Node.objectType])
  exact ⟨tree, n, accepted, hn, (Option.some.inj shown).symm⟩

end RunOptions

end FusionTree
