import FusionTree.Proofs.Merge.Inheritance
import FusionTree.Proofs.Merge.Spelling
import FusionTree.Proofs.Merge.Stickiness
import FusionTree.Proofs.Tree.Growth
import Mathlib.Data.List.Induction

/-!
# Where the keys of the tree's own come from

A source cannot spell out the keys that the tree writes for itself, so where one of them stands in
the tree, some visit put it there through the construct that the key stands for, or copied it from
where such a visit had put it. This needs that no property `@name` has such a name: nothing checks
that, and `@__value = 1` is accepted.
-/

namespace FusionTree

open Entries

/-- What in a source makes the tree write a key of its own. -/
inductive Construct
  | metaSegment
  | prototypeSegment
  | inheritance
  | unset
  | value
deriving DecidableEq

def Construct.keys : Construct → List String
  | metaSegment => [Key.metaProperties]
  | prototypeSegment => [Key.prototypes]
  | inheritance => [Key.parent]
  | unset => [Key.stop]
  | value => Key.tags

/-! ### What a visit writes -/

namespace Visit

/-- Where the visit writes; for inheritance that is below its path. -/
def way (v : Visit) : List String :=
  match v.operation with
  | .copy _ => if Key.isPrototypePath v.path then v.path ++ [Key.parent] else v.path
  | _ => v.path

def write? (v : Visit) (tree : Entries) : Option (Node × Entries) :=
  match v.operation with
  | .assign value => value.node?.map (·, tree)
  | .unset _ => none
  | .copy source =>
    if Key.isPrototypePath v.path then (source.keys v.path).getLast?.map (.string ·, tree)
    else some (tree.materialize (source.keys v.path))

theorem apply_copy {path : List String} {source : CopySource} {f : Entries → Entries}
    (h : copyOrInherit? path (source.keys path) = some f) (tree : Entries) :
    apply ⟨path, .copy source⟩ tree = f tree := by
  simp only [apply, h]

def Copies (v : Visit) (source : List String) : Prop :=
  Key.isPrototypePath v.path = false ∧
    ∃ copied, v.operation = .copy copied ∧ source = copied.keys v.path

end Visit

/-- Whether no property in the visit has the name of a key of the tree's own. -/
def SpelledVisit.Unforged (v : SpelledVisit) : Prop :=
  ∀ row ∈ v.rows, ∀ name span, .metaProperty name span ∈ row.2 → Key.isReserved name = false

/-- The visit puts the last key of the path into the tree through the construct. -/
inductive SpelledVisit.Puts (v : SpelledVisit) (tree : Entries) : List String → Construct → Prop
  | metaSegment {row : List String × List PathSegment} {before after : List PathSegment}
      {name : String} {span : Span} (mem : row ∈ v.rows)
      (spelled : row.2 = before ++ .metaProperty name span :: after) :
      Puts v tree (row.1 ++ PathSegment.allKeys before ++ [Key.metaProperties]) .metaSegment
  | prototypeSegment {row : List String × List PathSegment} {before after : List PathSegment}
      {name : String} {span : Span} (mem : row ∈ v.rows)
      (spelled : row.2 = before ++ .prototype name span :: after) :
      Puts v tree (row.1 ++ PathSegment.allKeys before ++ [Key.prototypes]) .prototypeSegment
  /-- A prototype inherits from one; a key beside a prototype passes for one. -/
  | inheritance {name : String} {source : CopySource} (copies : v.operation = .copy source)
      (target : v.visit.path = [Key.prototypes, name])
      (declared : isRootPrototypeDeclaration ⟨v.segments⟩ (some v.operation) = true ∨
        source.isBesidePrototype ⟨v.segments⟩ = true) :
      Puts v tree [Key.prototypes, name, Key.parent] .inheritance
  | unset {span : Span} (unsets : v.operation = .unset span) :
      Puts v tree (v.visit.path ++ [Key.stop]) .unset
  /-- The type of an object, or code, is assigned. -/
  | assigned {value : Value} {es : Entries} {tag : String} (assigns : v.operation = .assign value)
      (isMap : value.node? = some (.map es)) (mem : tag ∈ Key.tags) :
      Puts v tree (v.visit.path ++ [tag]) .value
  /-- A plain value is written to a map. -/
  | tagged {n : Node} {base old : Entries} {tag : String}
      (writes : v.visit.write? tree = some (n, base)) (plain : n.entries? = none)
      (notNull : n.isNull = false) (here : (Node.map base).at? v.visit.way = some (.map old))
      (mem : tag ∈ Key.tags) : Puts v tree (v.visit.way ++ [tag]) .value
  /-- A plain value stands in the way. -/
  | folded {q : List String} {tag : String} (folds : tree.Folds v.visit.way q)
      (mem : tag ∈ Key.tags) : Puts v tree (q ++ [tag]) .value

/-- Among the visits of a run is one that put the last key of the path into the tree through the
construct, or one that copied it from where it had been put so before. -/
inductive Origin : List SpelledVisit → List String → Construct → Prop
  | put {before after : List SpelledVisit} {v : SpelledVisit} {path : List String} {c : Construct}
      (puts : v.Puts (Visit.applyAll (before.map SpelledVisit.visit) []) path c) :
      Origin (before ++ v :: after) path c
  | copied {before after : List SpelledVisit} {v : SpelledVisit} {source rest : List String}
      {c : Construct} (copies : v.visit.Copies source) (ne_nil : rest ≠ [])
      (stood : (Node.map (Visit.applyAll (before.map SpelledVisit.visit) [])).Has (source ++ rest))
      (origin : Origin before (source ++ rest) c) :
      Origin (before ++ v :: after) (v.visit.path ++ rest) c

theorem Origin.append {visits : List SpelledVisit} {path : List String} {c : Construct}
    (h : Origin visits path c) (later : List SpelledVisit) : Origin (visits ++ later) path c := by
  cases h with
  | put puts =>
    rw [List.append_assoc, List.cons_append]
    exact .put puts
  | copied copies ne_nil stood origin =>
    rw [List.append_assoc, List.cons_append]
    exact .copied copies ne_nil stood origin

theorem Origin.puts_of_singleton {v : SpelledVisit} {path : List String} {c : Construct}
    (h : Origin [v] path c) (noCopy : ∀ source, ¬v.visit.Copies source) : v.Puts [] path c := by
  generalize only : [v] = visits at h
  cases h with
  | @put before after _ _ _ puts =>
    obtain ⟨rfl, rfl, rfl⟩ : before = [] ∧ _ := by simpa [List.singleton_eq_append_iff] using only
    exact puts
  | @copied before after _ source rest _ copies =>
    obtain ⟨rfl, rfl, rfl⟩ : before = [] ∧ _ := by simpa [List.singleton_eq_append_iff] using only
    exact absurd copies (noCopy source)

/-! ### Keys of the tree's own in the keys of segments -/

/-- Where segments have no names that the tree uses, its keys stand for their places only. -/
theorem PathSegment.exists_place_of_prefix {segments : List PathSegment} {q : List String}
    {k : String} (names : ∀ s ∈ segments, Key.isReserved s.name = false)
    (own : Key.isReserved k = true) (h : q ++ [k] <+: allKeys segments) :
    ∃ before s after, segments = before ++ s :: after ∧ q = allKeys before ∧ s.place = [k] := by
  have is_no_name {s : PathSegment} (hs : s ∈ segments) : k ≠ s.name := by
    rintro rfl
    exact absurd own (by simp [names s hs])
  induction segments generalizing q with
  | nil => simp at h
  | cons s rest ih =>
    have further (inner : List String) (hq : q = s.keys ++ inner) :
        ∃ before t after, s :: rest = before ++ t :: after ∧ q = allKeys before ∧
          t.place = [k] := by
      rw [hq, allKeys_cons, List.append_assoc, List.prefix_append_right_inj] at h
      obtain ⟨before, t, after, rfl, rfl, ht⟩ :=
        ih (fun s hs => names s (List.mem_cons_of_mem _ hs)) h fun hs =>
          is_no_name (List.mem_cons_of_mem _ hs)
      exact ⟨s :: before, t, after, rfl, by rw [hq, allKeys_cons], ht⟩
    have head : k ≠ s.name := is_no_name (by simp)
    rw [allKeys_cons] at h
    cases s with
    | plain key span | quoted key span =>
      cases q with
      | nil => exact absurd (List.cons_prefix_cons.mp h).1 head
      | cons x q =>
        obtain ⟨rfl, _⟩ := List.cons_prefix_cons.mp h
        exact further q rfl
    | metaProperty name span | prototype name span =>
      cases q with
      | nil => exact ⟨[], _, rest, rfl, rfl, by rw [(List.cons_prefix_cons.mp h).1]; rfl⟩
      | cons x q =>
        obtain ⟨rfl, tail⟩ := List.cons_prefix_cons.mp h
        cases q with
        | nil => exact absurd (List.cons_prefix_cons.mp tail).1 head
        | cons y q =>
          obtain ⟨rfl, _⟩ := List.cons_prefix_cons.mp tail
          exact further q rfl

theorem PathSegment.exists_of_place_eq {s : PathSegment} {k : String} (h : s.place = [k]) :
    (∃ name span, s = .metaProperty name span ∧ k = Key.metaProperties) ∨
      ∃ name span, s = .prototype name span ∧ k = Key.prototypes := by
  cases s with
  | plain | quoted => cases h
  | metaProperty name span => exact .inl ⟨name, span, rfl, (List.singleton_inj.mp h).symm⟩
  | prototype name span => exact .inr ⟨name, span, rfl, (List.singleton_inj.mp h).symm⟩

/-- Only a prototype at the root has the keys of one. -/
theorem PathSegment.exists_prototype_of_allKeys_eq {segments : List PathSegment} {name : String}
    (names : ∀ s ∈ segments, Key.isReserved s.name = false)
    (h : allKeys segments = [Key.prototypes, name]) :
    ∃ span, segments = [.prototype name span] := by
  have head : [] ++ [Key.prototypes] <+: allKeys segments := by
    rw [h]
    exact ⟨[name], rfl⟩
  obtain ⟨before, s, after, rfl, first, place⟩ := exists_place_of_prefix names (by decide) head
  obtain rfl := allKeys_eq_nil_iff.mp first.symm
  rcases exists_of_place_eq place with ⟨_, _, _, isMeta⟩ | ⟨n, span, rfl, _⟩
  · exact absurd isMeta (by decide)
  · obtain ⟨rfl, last⟩ := List.cons_eq_cons.mp (List.cons_eq_cons.mp h).2
    rw [allKeys_eq_nil_iff.mp last]
    exact ⟨span, rfl⟩

theorem Key.not_mem_tags_of_isReserved {k : String} (h : isReserved k = false) : k ∉ tags := by
  have own : ∀ tag ∈ tags, isReserved tag = true := by decide
  intro mem
  rw [own k mem] at h
  cases h

namespace SpelledVisit

variable {v : SpelledVisit} {tree : Entries} {q : List String} {k : String}

theorem Sound.names (sound : v.Sound) (unforged : v.Unforged) :
    ∀ row ∈ v.rows, ∀ s ∈ row.2, Key.isReserved s.name = false := by
  intro row mem s hs
  rcases (sound.rows row mem).2 s hs with h | ⟨name, span, rfl⟩
  · exact h
  · exact unforged row mem name span hs

theorem target_mem_rows (v : SpelledVisit) : ([], v.segments) ∈ v.rows := List.mem_cons_self

theorem source_mem_rows (v : SpelledVisit) {source : CopySource}
    (copies : v.operation = .copy source) :
    (source.start v.visit.path, source.path.segments) ∈ v.rows := by
  simp [rows, copies]

/-- No segment keeps what it names at a tag. -/
theorem Sound.path_no_tag (sound : v.Sound) (unforged : v.Unforged) :
    ∀ k ∈ v.visit.path, k ∉ Key.tags := by
  intro k hk
  obtain ⟨s, hs, hk⟩ := List.mem_flatMap.mp hk
  have name := Key.not_mem_tags_of_isReserved
    (sound.names unforged _ v.target_mem_rows s hs)
  rw [s.keys_eq] at hk
  rcases List.mem_append.mp hk with hk | hk
  · have places : Key.metaProperties ∉ Key.tags ∧ Key.prototypes ∉ Key.tags := by decide
    cases s with
    | plain | quoted => cases hk
    | metaProperty => rw [List.mem_singleton.mp hk]; exact places.1
    | prototype => rw [List.mem_singleton.mp hk]; exact places.2
  · rw [List.mem_singleton.mp hk]
    exact name

/-- A row of segments puts the keys of its places, where it goes beyond where it starts. -/
theorem Sound.puts_of_prefix_row (sound : v.Sound) (unforged : v.Unforged)
    (own : Key.isReserved k = true) {row : List String × List PathSegment} (mem : row ∈ v.rows)
    (h : q ++ [k] <+: row.1 ++ PathSegment.allKeys row.2) :
    q ++ [k] <+: row.1 ∨ ∃ c : Construct, k ∈ c.keys ∧ v.Puts tree (q ++ [k]) c := by
  rcases List.prefix_or_prefix_of_prefix h (List.prefix_append _ _) with le | ⟨rest, eq⟩
  · exact .inl le
  rcases List.eq_nil_or_concat rest with rfl | ⟨inner, last, rfl⟩
  · rw [List.append_nil] at eq
    exact .inl (eq ▸ List.prefix_refl _)
  right
  rw [List.concat_eq_append, ← List.append_assoc] at eq
  obtain ⟨rfl, same⟩ := List.append_inj' eq rfl
  obtain rfl := List.singleton_inj.mp same
  rw [List.append_assoc, List.prefix_append_right_inj] at h
  obtain ⟨before, s, after, spelled, rfl, place⟩ :=
    PathSegment.exists_place_of_prefix (sound.names unforged row mem) own h
  rcases PathSegment.exists_of_place_eq place with ⟨name, span, rfl, rfl⟩ | ⟨name, span, rfl, rfl⟩
  · exact ⟨.metaSegment, by simp [Construct.keys], .metaSegment mem spelled⟩
  · exact ⟨.prototypeSegment, by simp [Construct.keys], .prototypeSegment mem spelled⟩

theorem Sound.puts_of_prefix_path (sound : v.Sound) (unforged : v.Unforged)
    (own : Key.isReserved k = true) (h : q ++ [k] <+: v.visit.path) :
    ∃ c : Construct, k ∈ c.keys ∧ v.Puts tree (q ++ [k]) c := by
  rcases sound.puts_of_prefix_row unforged own v.target_mem_rows h with le | puts
  · simp at le
  · exact puts

theorem Sound.puts_of_prefix_source (sound : v.Sound) (unforged : v.Unforged)
    (own : Key.isReserved k = true) {source : CopySource} (copies : v.operation = .copy source)
    (h : q ++ [k] <+: source.keys v.visit.path) :
    ∃ c : Construct, k ∈ c.keys ∧ v.Puts tree (q ++ [k]) c := by
  rw [source.keys_eq] at h
  rcases sound.puts_of_prefix_row unforged own (v.source_mem_rows copies) h with le | puts
  · refine sound.puts_of_prefix_path unforged own (le.trans ?_)
    rw [CopySource.start]
    split
    · exact List.dropLast_prefix _
    · exact List.nil_prefix
  · exact puts

/-- The keys of the source of a copy end in a name. -/
theorem Sound.exists_source_name (sound : v.Sound) (unforged : v.Unforged) {source : CopySource}
    (copies : v.operation = .copy source) :
    ∃ start last, source.keys v.visit.path = start ++ [last] ∧ Key.isReserved last = false := by
  have mem := v.source_mem_rows copies
  rcases List.eq_nil_or_concat source.path.segments with none | ⟨before, last, eq⟩
  · exact absurd none (sound.rows _ mem).1
  rw [List.concat_eq_append] at eq
  refine ⟨source.start v.visit.path ++ (PathSegment.allKeys before ++ last.place), last.name, ?_,
    sound.names unforged _ mem last (by simp [eq])⟩
  rw [source.keys_eq, eq]
  simp [last.keys_eq]

/-- A copy between paths with the keys of prototypes is one between prototypes at the root, unless
a key beside the target passes for one. -/
theorem Sound.declared (sound : v.Sound) (unforged : v.Unforged) {source : CopySource}
    (copies : v.operation = .copy source) {name parent : String}
    (target : v.visit.path = [Key.prototypes, name])
    (from_parent : source.keys v.visit.path = [Key.prototypes, parent]) :
    isRootPrototypeDeclaration ⟨v.segments⟩ (some v.operation) = true ∨
      source.isBesidePrototype ⟨v.segments⟩ = true := by
  obtain ⟨span, single⟩ : ∃ span, v.segments = [.prototype name span] :=
    PathSegment.exists_prototype_of_allKeys_eq (sound.names unforged _ v.target_mem_rows) target
  rw [target] at from_parent
  have names := sound.names unforged _ (v.source_mem_rows copies)
  obtain ⟨⟨segments⟩, relative⟩ := source
  cases relative with
  | false =>
    obtain ⟨_, rfl⟩ := PathSegment.exists_prototype_of_allKeys_eq names from_parent
    exact .inl (by rw [copies, single]; rfl)
  | true =>
    have key : ObjectPath.keys ⟨segments⟩ = [parent] := (List.cons.inj from_parent).2
    refine .inr ?_
    rw [single, CopySource.isBesidePrototype, ObjectPath.isSingleKey_of_keys_eq key]
    rfl

/-! ### Through one visit -/

/-- Inside the node of a value stand its tags, and nothing below them. -/
theorem exists_tag_of_has_node {value : Value} {n : Node} (hn : value.node? = some n)
    {rest : List String} (ne_nil : rest ≠ []) (h : n.Has rest) :
    ∃ (es : Entries) (tag : String), n = .map es ∧ tag ∈ Key.tags ∧ rest = [tag] := by
  obtain ⟨tag, more, rfl⟩ := List.exists_cons_of_ne_nil ne_nil
  obtain ⟨es, rfl⟩ := h.exists_map
  obtain ⟨child, hc, hb⟩ := Node.has_cons_iff.mp h
  have mem : tag ∈ Key.tags := by
    refine (Value.isFact hn es rfl).2 tag (Classical.not_not.mp fun absent => ?_)
    rw [get?_eq_none_iff.mpr absent] at hc
    cases hc
  refine ⟨es, tag, rfl, mem, ?_⟩
  cases more with
  | nil => rfl
  | cons _ _ =>
    obtain ⟨inner, rfl⟩ := hb.exists_map
    cases value with
    | objectName | eel =>
      obtain rfl := Node.map.inj (Option.some.inj hn)
      simp only [get?_cons, get?_nil] at hc
      repeat' split at hc
      all_goals cases hc
    | _ => cases hn

/-- A key of the tree's own stands where the visit wrote a node: in the tree before, through a
construct, or inside the node. -/
theorem puts_of_has_set {n : Node} {base : Entries} {way : List String}
    (on_way : v.visit.way = way) (writes : v.visit.write? tree = some (n, base))
    (distinct : n.Distinct) (unfolded : ∀ q, base.Folds way q → tree.Folds way q)
    (puts : q ++ [k] <+: way → ∃ c : Construct, k ∈ c.keys ∧ v.Puts tree (q ++ [k]) c)
    (noTag : ∀ k ∈ way, k ∉ Key.tags) (h : (Node.map (base.set way n)).Has (q ++ [k])) :
    (Node.map base).Has (q ++ [k]) ∨ (∃ c : Construct, k ∈ c.keys ∧ v.Puts tree (q ++ [k]) c) ∨
      ∃ rest, rest ≠ [] ∧ q ++ [k] = way ++ rest ∧ n.Has rest := by
  subst on_way
  have last {p : List String} {tag : String} (eq : q ++ [k] = p ++ [tag])
      (mem : tag ∈ Key.tags) : k ∈ Construct.value.keys := by
    rw [List.singleton_inj.mp (List.append_inj' eq rfl).2]
    exact mem
  cases written_of_has_set noTag distinct (List.append_ne_nil_of_right_ne_nil _ (by simp)) h with
  | old stood => exact .inl stood
  | way le => exact .inr (.inl (puts le))
  | inside rest eq ne_nil inner => exact .inr (.inr ⟨rest, ne_nil, eq, inner⟩)
  | folded p tag eq mem folds =>
    exact .inr (.inl ⟨.value, last eq mem, eq ▸ .folded (unfolded p folds) mem⟩)
  | tagged tag old eq mem plain notNull here =>
    exact .inr (.inl ⟨.value, last eq mem, eq ▸ .tagged writes plain notNull here mem⟩)

theorem puts_of_has_assign {segments : List PathSegment} {value : Value} {n : Node}
    (hn : value.node? = some n)
    (on_path : q ++ [k] <+: PathSegment.allKeys segments →
      ∃ c : Construct, k ∈ c.keys ∧ Puts ⟨segments, .assign value⟩ tree (q ++ [k]) c)
    (noTag : ∀ k ∈ PathSegment.allKeys segments, k ∉ Key.tags)
    (h : (Node.map (tree.set (PathSegment.allKeys segments) n)).Has (q ++ [k])) :
    (Node.map tree).Has (q ++ [k]) ∨
      ∃ c : Construct, k ∈ c.keys ∧ Puts ⟨segments, .assign value⟩ tree (q ++ [k]) c := by
  have writes : (visit ⟨segments, .assign value⟩).write? tree = some (n, tree) := by
    simp [Visit.write?, visit, hn]
  rcases puts_of_has_set rfl writes (Value.distinct hn) (fun _ => id) on_path noTag h
    with stood | puts | ⟨rest, hr, eq, inner⟩
  · exact .inl stood
  · exact .inr puts
  · obtain ⟨es, tag, rfl, mem, rfl⟩ := exists_tag_of_has_node hn hr inner
    obtain rfl := List.singleton_inj.mp (List.append_inj' eq rfl).2
    exact .inr ⟨.value, mem, eq ▸ .assigned rfl hn mem⟩

theorem puts_of_has_unset {segments : List PathSegment} {span : Span} (named : segments ≠ [])
    (on_path : q ++ [k] <+: PathSegment.allKeys segments →
      ∃ c : Construct, k ∈ c.keys ∧ Puts ⟨segments, .unset span⟩ tree (q ++ [k]) c)
    (noTag : ∀ k ∈ PathSegment.allKeys segments, k ∉ Key.tags)
    (h : (Node.map (tree.unset (PathSegment.allKeys segments))).Has (q ++ [k])) :
    (Node.map tree).Has (q ++ [k]) ∨
      ∃ c : Construct, k ∈ c.keys ∧ Puts ⟨segments, .unset span⟩ tree (q ++ [k]) c := by
  have ne_nil : PathSegment.allKeys segments ≠ [] := mt PathSegment.allKeys_eq_nil_iff.mp named
  rcases has_of_has_unset noTag ne_nil (by simp) h with stood | le | ⟨p, tag, mem, eq, folds⟩
  · exact .inl stood
  · rcases List.prefix_concat_iff.mp le with eq | le
    · obtain rfl := List.singleton_inj.mp (List.append_inj' eq rfl).2
      exact .inr ⟨.unset, by simp [Construct.keys], eq ▸ .unset rfl⟩
    · exact .inr (on_path le)
  · obtain rfl := List.singleton_inj.mp (List.append_inj' eq rfl).2
    exact .inr ⟨.value, mem, eq ▸ .folded folds mem⟩

/-- Inheritance writes the name of a prototype beside the properties of another one. -/
theorem puts_of_has_inherit {segments : List PathSegment} {source : CopySource}
    {name parent : String} (target : PathSegment.allKeys segments = [Key.prototypes, name])
    (from_parent : source.keys (PathSegment.allKeys segments) = [Key.prototypes, parent])
    (declared : isRootPrototypeDeclaration ⟨segments⟩ (some (.copy source)) = true ∨
      source.isBesidePrototype ⟨segments⟩ = true)
    (on_path : q ++ [k] <+: PathSegment.allKeys segments →
      ∃ c : Construct, k ∈ c.keys ∧ Puts ⟨segments, .copy source⟩ tree (q ++ [k]) c)
    (noTag : ∀ k ∈ PathSegment.allKeys segments, k ∉ Key.tags)
    (h : (Node.map (tree.set (Key.linkPath name) (.string parent))).Has (q ++ [k])) :
    (Node.map tree).Has (q ++ [k]) ∨
      ∃ c : Construct, k ∈ c.keys ∧ Puts ⟨segments, .copy source⟩ tree (q ++ [k]) c := by
  have link : Key.linkPath name = PathSegment.allKeys segments ++ [Key.parent] := by
    rw [target]
    rfl
  have prototype : Key.isPrototypePath (PathSegment.allKeys segments) = true := by
    rw [target, Key.isPrototypePath_pair]
  have on_way : (visit ⟨segments, .copy source⟩).way = Key.linkPath name := by
    simp [Visit.way, visit, prototype, link]
  have writes : (visit ⟨segments, .copy source⟩).write? tree = some (.string parent, tree) := by
    simp [Visit.write?, prototype, visit, from_parent]
  have puts (le : q ++ [k] <+: Key.linkPath name) :
      ∃ c : Construct, k ∈ c.keys ∧ Puts ⟨segments, .copy source⟩ tree (q ++ [k]) c := by
    rw [link] at le
    rcases List.prefix_concat_iff.mp le with eq | le
    · have own : k = Key.parent := List.singleton_inj.mp (List.append_inj' eq rfl).2
      refine ⟨.inheritance, by simp [Construct.keys, own], ?_⟩
      rw [eq, ← link]
      exact .inheritance rfl target declared
    · exact on_path le
  have noTagLink : ∀ k ∈ Key.linkPath name, k ∉ Key.tags := by
    rw [link, List.forall_mem_append]
    exact ⟨noTag, by decide⟩
  rcases puts_of_has_set on_way writes (Node.distinct_of_entries?_eq_none rfl) (fun _ => id)
    puts noTagLink h with stood | puts | ⟨rest, hr, _, inner⟩
  · exact .inl stood
  · exact .inr puts
  · obtain ⟨_, _, rfl⟩ := List.exists_cons_of_ne_nil hr
    obtain ⟨_, isMap⟩ := inner.exists_map
    cases isMap

theorem puts_of_has_copy {segments : List PathSegment} {source : CopySource}
    (noPrototype : Key.isPrototypePath (PathSegment.allKeys segments) = false)
    (distinct : tree.Distinct) (named : source.keys (PathSegment.allKeys segments) ≠ [])
    (on_path : q ++ [k] <+: PathSegment.allKeys segments →
      ∃ c : Construct, k ∈ c.keys ∧ Puts ⟨segments, .copy source⟩ tree (q ++ [k]) c)
    (on_source : q ++ [k] <+: source.keys (PathSegment.allKeys segments) →
      ∃ c : Construct, k ∈ c.keys ∧ Puts ⟨segments, .copy source⟩ tree (q ++ [k]) c)
    (noTag : ∀ k ∈ PathSegment.allKeys segments, k ∉ Key.tags)
    (h : (Node.map (tree.copy (PathSegment.allKeys segments)
      (source.keys (PathSegment.allKeys segments)))).Has (q ++ [k])) :
    (Node.map tree).Has (q ++ [k]) ∨
      (∃ c : Construct, k ∈ c.keys ∧ Puts ⟨segments, .copy source⟩ tree (q ++ [k]) c) ∨
        ∃ rest, rest ≠ [] ∧ q ++ [k] = PathSegment.allKeys segments ++ rest ∧
          (Node.map tree).Has (source.keys (PathSegment.allKeys segments) ++ rest) := by
  have on_way : (visit ⟨segments, .copy source⟩).way = PathSegment.allKeys segments := by
    simp [Visit.way, visit, noPrototype]
  have writes : (visit ⟨segments, .copy source⟩).write? tree =
      some (tree.materialize (source.keys (PathSegment.allKeys segments))) := by
    simp [Visit.write?, visit, noPrototype]
  rcases puts_of_has_set on_way writes (distinct.materialize _).1 (fun _ => .of_materialize)
    on_path noTag h with stood | puts | ⟨rest, hr, eq, inner⟩
  · exact (has_of_has_materialize (by simp) stood).imp_right fun le => .inl (on_source le)
  · exact .inr (.inl puts)
  · exact .inr (.inr ⟨rest, hr, eq, has_of_materialized named hr inner⟩)

/-- A key of the tree's own stands in the tree after a visit if it stood there before, if the visit
put it there through the construct that it stands for, or if the visit copied it. -/
theorem Sound.puts_of_has_apply (sound : v.Sound) (unforged : v.Unforged)
    (plain : v.visit.isPlain = true) (distinct : tree.Distinct) (own : Key.isReserved k = true)
    (h : (Node.map (v.visit.apply tree)).Has (q ++ [k])) :
    (Node.map tree).Has (q ++ [k]) ∨ (∃ c : Construct, k ∈ c.keys ∧ v.Puts tree (q ++ [k]) c) ∨
      ∃ source rest, v.visit.Copies source ∧ rest ≠ [] ∧ q ++ [k] = v.visit.path ++ rest ∧
        (Node.map tree).Has (source ++ rest) := by
  have noTag := sound.path_no_tag unforged
  have on_path : q ++ [k] <+: v.visit.path →
      ∃ c : Construct, k ∈ c.keys ∧ v.Puts tree (q ++ [k]) c :=
    sound.puts_of_prefix_path unforged own
  obtain ⟨segments, operation⟩ := v
  cases operation with
  | assign value =>
    obtain ⟨n, hn⟩ : ∃ n, value.node? = some n := Option.isSome_iff_exists.mp plain
    simp only [Visit.apply, visit, hn] at h
    exact (puts_of_has_assign hn on_path noTag h).imp_right .inl
  | unset span =>
    have named : segments ≠ [] := (sound.rows _ (target_mem_rows _)).1
    exact (puts_of_has_unset named on_path noTag h).imp_right .inl
  | copy source =>
    obtain ⟨f, hf⟩ := Option.isSome_iff_exists.mp (sound.copies source rfl)
    replace h : (Node.map (f tree)).Has (q ++ [k]) := by
      rw [← Visit.apply_copy hf tree]
      exact h
    cases prototype : Key.isPrototypePath (PathSegment.allKeys segments) with
    | true =>
      obtain ⟨name, parent, target, from_parent, rfl⟩ := copyOrInherit?_of_prototype hf prototype
      have declared := sound.declared unforged rfl target from_parent
      exact (puts_of_has_inherit target from_parent declared on_path noTag h).imp_right .inl
    | false =>
      obtain ⟨_, rfl⟩ := copyOrInherit?_of_no_prototype hf prototype
      obtain ⟨start, last, ends, _⟩ := sound.exists_source_name unforged rfl
      have named : source.keys (PathSegment.allKeys segments) ≠ [] := by
        rw [show source.keys (PathSegment.allKeys segments) = _ from ends]
        simp
      rcases puts_of_has_copy prototype distinct named on_path
        (sound.puts_of_prefix_source unforged own rfl) noTag h with stood | puts | ⟨rest, copied⟩
      · exact .inl stood
      · exact .inr (.inl puts)
      · exact .inr (.inr ⟨_, rest, ⟨prototype, source, rfl, rfl⟩, copied⟩)

end SpelledVisit

/-! ### Through a run -/

/-- The key of the tree's own at the end of a path has an origin in the visits. -/
theorem exists_origin {visits : List SpelledVisit} (sound : ∀ v ∈ visits, v.Sound)
    (unforged : ∀ v ∈ visits, v.Unforged) (plain : ∀ v ∈ visits, v.visit.isPlain = true)
    {q : List String} {k : String} (own : Key.isReserved k = true)
    (h : (Node.map (Visit.applyAll (visits.map SpelledVisit.visit) [])).Has (q ++ [k])) :
    ∃ c : Construct, k ∈ c.keys ∧ Origin visits (q ++ [k]) c := by
  induction visits using List.reverseRecOn generalizing q with
  | nil => simpa using has_nil_iff.mp h
  | append_singleton before v ih =>
    simp only [List.forall_mem_append, List.forall_mem_singleton] at sound unforged plain
    rw [List.map_append, Visit.applyAll_append] at h
    have distinct : (Visit.applyAll (before.map SpelledVisit.visit) []).Distinct :=
      Visit.distinct_applyAll _ .nil
    have further {q : List String}
        (stood : (Node.map (Visit.applyAll (before.map SpelledVisit.visit) [])).Has (q ++ [k])) :
        ∃ c : Construct, k ∈ c.keys ∧ Origin before (q ++ [k]) c :=
      ih sound.1 unforged.1 plain.1 stood
    rcases sound.2.puts_of_has_apply unforged.2 plain.2 distinct own h with
      stood | ⟨c, mem, puts⟩ | ⟨source, rest, copies, hr, eq, stood⟩
    · obtain ⟨c, mem, origin⟩ := further stood
      exact ⟨c, mem, origin.append _⟩
    · exact ⟨c, mem, .put puts⟩
    · rcases List.eq_nil_or_concat rest with rfl | ⟨inner, last, rfl⟩
      · exact absurd rfl hr
      rw [List.concat_eq_append] at eq stood hr
      have same : k = last := by
        rw [← List.append_assoc] at eq
        exact List.singleton_inj.mp (List.append_inj' eq rfl).2
      subst same
      rw [← List.append_assoc] at stood
      obtain ⟨c, mem, origin⟩ := further stood
      rw [List.append_assoc] at origin
      rw [List.append_assoc] at stood
      exact ⟨c, mem, eq ▸ .copied copies hr stood origin⟩

theorem SpelledVisit.Puts.exists_name {v : SpelledVisit} {tree : Entries} {path : List String}
    (h : v.Puts tree path .inheritance) : ∃ name, path = [Key.prototypes, name, Key.parent] := by
  cases h with
  | inheritance => exact ⟨_, rfl⟩

/-- Where a parent link comes from, it stands directly in a prototype at the root: nothing copies
it, as a prototype cannot be copied as a whole, nor all of them at once. -/
theorem Origin.exists_name {visits : List SpelledVisit} (sound : ∀ v ∈ visits, v.Sound)
    (unforged : ∀ v ∈ visits, v.Unforged) {path : List String}
    (h : Origin visits path .inheritance) : ∃ name, path = [Key.prototypes, name, Key.parent] := by
  generalize hc : Construct.inheritance = c at h
  induction h with
  | put puts => exact (hc ▸ puts).exists_name
  | @copied before after v source rest c copies ne_nil stood origin ih =>
    simp only [List.forall_mem_append, List.forall_mem_cons] at sound unforged
    obtain ⟨name, eq⟩ := ih sound.1 unforged.1 hc
    obtain ⟨noPrototype, copied, hop, rfl⟩ := copies
    obtain ⟨start, last, ends, unowned⟩ := sound.2.1.exists_source_name unforged.2.1 hop
    obtain ⟨f, hf⟩ := Option.isSome_iff_exists.mp (sound.2.1.copies copied hop)
    have aside := (copyOrInherit?_of_no_prototype hf noPrototype).1
    rw [ends] at eq aside
    rcases start with _ | ⟨x, _ | ⟨y, start⟩⟩
    · obtain ⟨rfl, _⟩ := List.cons_eq_cons.mp eq
      exact absurd unowned (by decide)
    · obtain ⟨rfl, _⟩ := List.cons_eq_cons.mp eq
      have prototype : Key.isPrototypePath [Key.prototypes, last] = true :=
        (Key.isPrototypePath_pair _ _).mpr rfl
      exact absurd (prototype.symm.trans aside) (by decide)
    · have two := congrArg List.length eq
      have one := List.length_pos_iff.mpr ne_nil
      simp only [List.cons_append, List.length_cons, List.length_append, List.length_nil] at two
      omega

namespace RunOptions

/-- In the tree of a run without other languages, before prototypes are linked, every key of the
tree's own has an origin, and a parent link stands directly in a prototype at the root, as long as
no property has the name of such a key. -/
theorem reserved_keys_have_origins {options : RunOptions} {src : Source} {tree : Entries}
    (unlinked : options.buildHierarchy = false)
    (accepted : (options.runSource src).outcome = .ok tree) {visits : List SpelledVisit}
    (read : src.spelledVisits? options.resolver options.depth = some visits)
    (plain : ∀ v ∈ visits, v.visit.isPlain = true) (unforged : ∀ v ∈ visits, v.Unforged)
    {q : List String} {k : String} (own : Key.isReserved k = true)
    (stands : (tree.getPath? (q ++ [k])).isSome = true) :
    (∃ c : Construct, k ∈ c.keys ∧ Origin visits (q ++ [k]) c) ∧
      (k = Key.parent → ∃ name, q = [Key.prototypes, name]) := by
  have sound := sound_of_spelledVisits accepted read
  have plainVisits : ∀ v ∈ visits.map SpelledVisit.visit, v.isPlain = true := by
    simpa using plain
  obtain ⟨_, linked⟩ := history accepted (Source.visits?_eq_some read) plainVisits
  rw [unlinked] at linked
  obtain rfl : Visit.applyAll (visits.map SpelledVisit.visit) [] = tree := Except.ok.inj linked
  rw [getPath?_eq_at? _ (by simp)] at stands
  obtain ⟨c, mem, origin⟩ := exists_origin sound unforged plain own stands
  refine ⟨⟨c, mem, origin⟩, ?_⟩
  rintro rfl
  have inherits : c = .inheritance := by
    cases c <;> first | rfl | exact absurd mem (by decide)
  subst inherits
  obtain ⟨name, eq⟩ := origin.exists_name sound unforged
  rw [show [Key.prototypes, name, Key.parent] = [Key.prototypes, name] ++ [Key.parent] from rfl]
    at eq
  exact ⟨name, (List.append_inj' eq rfl).1⟩

/-- The tag of a folded number, in a copy of the object. -/
theorem reserved_keys_have_origins_of_folding :
    let options : RunOptions := { resolver := noFiles, buildHierarchy := false }
    let src := Source.ofString "a = 1\na.b = 2\nc < a" none
    ∃ tree visits, (options.runSource src).outcome = .ok tree ∧
      src.spelledVisits? options.resolver options.depth = some visits ∧
      (tree.getPath? ["c", Key.value]).isSome = true ∧ Origin visits ["c", Key.value] .value := by
  intro options src
  obtain ⟨tree, accepted⟩ : ∃ tree, (options.runSource src).outcome = .ok tree :=
    exists_of_isOk (by decide +kernel)
  have read : src.spelledVisits? options.resolver options.depth = some
      [⟨[.plain "a" ⟨src, 0, 1⟩], .assign (.int 1 ⟨src, 4, 5⟩)⟩,
        ⟨[.plain "a" ⟨src, 6, 7⟩, .plain "b" ⟨src, 8, 9⟩], .assign (.int 2 ⟨src, 12, 13⟩)⟩,
        ⟨[.plain "c" ⟨src, 14, 15⟩],
          .copy ⟨⟨[.plain "a" ⟨src, 18, 19⟩]⟩, false⟩⟩] := by
    decide +kernel
  have stands : (tree.getPath? (["c"] ++ [Key.value])).isSome = true := by
    have shown : ((options.runSource src).outcome.toOption.bind
        (·.getPath? ["c", Key.value])).isSome = true := by
      decide +kernel
    simpa [accepted, Except.toOption] using shown
  obtain ⟨⟨c, mem, origin⟩, _⟩ := reserved_keys_have_origins rfl accepted read (by decide)
    (by simp [SpelledVisit.Unforged, SpelledVisit.rows]) (by decide) stands
  obtain rfl : c = .value := by
    cases c <;> first | rfl | exact absurd mem (by decide)
  exact ⟨tree, _, accepted, read, stands, origin⟩

/-- A property may forge a key of the tree's own. -/
theorem reserved_key_forged :
    let options : RunOptions := { resolver := noFiles, buildHierarchy := false }
    let src := Source.ofString "@__value = 1" none
    ∃ tree visits, (options.runSource src).outcome = .ok tree ∧
      src.spelledVisits? options.resolver options.depth = some visits ∧
      (∀ v ∈ visits, v.visit.isPlain = true) ∧
      (tree.getPath? [Key.metaProperties, Key.value]).isSome = true ∧
      ¬∃ c : Construct, Key.value ∈ c.keys ∧
        Origin visits [Key.metaProperties, Key.value] c := by
  intro options src
  obtain ⟨tree, accepted⟩ : ∃ tree, (options.runSource src).outcome = .ok tree :=
    exists_of_isOk (by decide +kernel)
  have read : src.spelledVisits? options.resolver options.depth = some
      [⟨[.metaProperty "__value" ⟨src, 0, 8⟩], .assign (.int 1 ⟨src, 11, 12⟩)⟩] := by
    decide +kernel
  have stands : (tree.getPath? [Key.metaProperties, Key.value]).isSome = true := by
    have shown : ((options.runSource src).outcome.toOption.bind
        (·.getPath? [Key.metaProperties, Key.value])).isSome = true := by
      decide +kernel
    simpa [accepted, Except.toOption] using shown
  refine ⟨tree, _, accepted, read, by decide, stands, ?_⟩
  rintro ⟨c, mem, origin⟩
  obtain rfl : c = .value := by
    cases c <;> first | rfl | exact absurd mem (by decide)
  have puts := origin.puts_of_singleton (by rintro _ ⟨_, _, ⟨⟩, _⟩)
  generalize hp : [Key.metaProperties, Key.value] = path, hc : Construct.value = c at puts
  cases puts with
  | assigned assigns isMap =>
    cases assigns
    cases isMap
  | tagged writes plain notNull here =>
    cases writes
    cases here
  | folded folds =>
    obtain ⟨_, here, _⟩ := folds.value
    exact folds.ne_nil (has_nil_iff.mp (Option.isSome_of_eq_some here))
  | _ => cases hc

end RunOptions

end FusionTree
