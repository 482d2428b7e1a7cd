import FusionTree.Proofs.Merge.Privacy
import FusionTree.Proofs.Merge.Shape
import FusionTree.Proofs.Tree.KeyForm

/-!
# Keys of runs

Every key in the tree of an accepted run has come through a segment of a path or is one of the
tree's own. What a segment spells out is checked where the merge meets it, whatever it was decoded
from; names of properties and object types need no check, as no token with such a name could hold a
newline or nothing at all. So all maps in the tree are well keyed.
-/

namespace FusionTree

open Merge Entries

/-! ### Keys that segments spell out -/

def PathSegment.spelled? : PathSegment → Option String
  | plain key _ | quoted key _ => some key
  | _ => none

/-- What makes a key one that no source may spell out. -/
def Key.HasFlaw (key : String) : Cause → Prop
  | .emptyKey => key = ""
  | .reservedKey k => k = key ∧ isReserved key = true
  | .newlineInKey k => k = key ∧ '\n' ∈ key.toList
  | _ => False

theorem Key.not_isReserved_of_newline {key : String} (h : '\n' ∈ key.toList) :
    isReserved key = false := by
  have none : ∀ own ∈ reserved, '\n' ∉ own.toList := by decide
  rw [isReserved, Bool.eq_false_iff]
  exact fun mem => none key (List.elem_iff.mp mem) h

/-- No key has two flaws, so it is refused for the one that it has. -/
theorem Key.HasFlaw.refusal?_eq {key : String} {cause : Cause} (h : HasFlaw key cause) :
    refusal? key = some cause := by
  cases cause with
  | emptyKey =>
    obtain rfl : key = "" := h
    rfl
  | reservedKey k =>
    obtain ⟨rfl, own⟩ := h
    have something : k.isEmpty = false := by
      rw [Bool.eq_false_iff]
      intro empty
      rw [String.isEmpty_iff.mp empty] at own
      exact absurd own (by decide)
    simp [refusal?, something, own]
  | newlineInKey k =>
    obtain ⟨rfl, newline⟩ := h
    have something : k.isEmpty = false := by
      rw [Bool.eq_false_iff]
      intro empty
      simp [String.isEmpty_iff.mp empty] at newline
    simp [refusal?, something, not_isReserved_of_newline newline, newline]
  | _ => cases h

theorem Key.Speakable.proper {key : String} (h : Speakable key) : Proper key :=
  ⟨fun empty => absurd h.1 (by simp [empty]), h.2.2⟩

namespace PathSegment

variable {s : PathSegment} {src : Source} {b : Bool} {key : String}

theorem refusal?_of_spelled? {cause : Cause} (spelled : s.spelled? = some key)
    (flaw : Key.HasFlaw key cause) : s.refusal? b = some cause := by
  cases s with
  | plain k span | quoted k span =>
    cases spelled
    exact flaw.refusal?_eq
  | _ => cases spelled

theorem Allowed.speakable (h : s.Allowed b) (spelled : s.spelled? = some key) :
    Key.Speakable key := by
  cases s with
  | plain k span | quoted k span =>
    cases spelled
    exact h
  | _ => cases spelled

theorem Allowed.proper (h : s.Allowed b) (read : s.ReadFrom src) : ∀ k ∈ s.keys, Key.Proper k := by
  cases s with
  | plain key span | quoted key span =>
    rintro _ (_ | ⟨_, ⟨⟩⟩)
    exact Key.Speakable.proper h
  | metaProperty name span =>
    refine List.forall_mem_cons.mpr ⟨by decide, ?_⟩
    rintro _ (_ | ⟨_, ⟨⟩⟩)
    exact read.2
  | prototype name span =>
    refine List.forall_mem_cons.mpr ⟨by decide, ?_⟩
    rintro _ (_ | ⟨_, ⟨⟩⟩)
    exact ⟨fun empty => absurd read.2.1 (by simp [empty]), read.2.2⟩

end PathSegment

/-! ### Keys in the tree -/

theorem ObjectPath.Allowed.proper {p : ObjectPath} {src : Source} {b : Bool} (h : p.Allowed b)
    (read : p.ReadFrom src) : ∀ k ∈ p.keys, Key.Proper k := by
  intro k mem
  obtain ⟨s, hs, hk⟩ := List.mem_flatMap.mp mem
  exact (h s hs).proper (read.2 s hs) k hk

theorem Key.targets_proper : Targets (fun _ => True) fun path => ∀ k ∈ path, Proper k where
  target read allowed _ block := by
    refine List.forall_mem_append.mpr ⟨?_, allowed.proper read⟩
    rcases block with rfl | proper
    · exact nofun
    · exact proper
  source read allowed _ proper := by
    refine List.forall_mem_append.mpr ⟨?_, allowed.proper read⟩
    split
    · exact fun k mem => proper k (List.dropLast_subset _ mem)
    · exact nofun

theorem Entries.wellKeyed_of_tags {es : Entries} (keys : es.keys.Perm Key.tags) :
    es.WellKeyed where
  proper key mem := (by decide : ∀ key ∈ Key.tags, Key.Proper key) key (keys.subset mem)
  nodup := keys.nodup_iff.mpr (by decide)

theorem Value.allMaps_wellKeyed {value : Value} {n : Node} (h : value.node? = some n) :
    n.AllMaps WellKeyed := by
  cases value with
  | objectName name span =>
    cases h
    have tags : [Key.objectType, Key.value, Key.eel].Perm Key.tags := by decide
    exact Node.allMaps_map_iff.mpr ⟨wellKeyed_of_tags tags, by simp⟩
  | eel code span =>
    cases h
    have tags : [Key.eel, Key.value, Key.objectType].Perm Key.tags := by decide
    exact Node.allMaps_map_iff.mpr ⟨wellKeyed_of_tags tags, by simp⟩
  | dsl => cases h
  | _ => cases h; simp

/-! ### Runs -/

namespace RunOptions

variable {options : RunOptions} {src : Source}

/-- The segment stands in a statement of a source that the run enters. -/
structure Enters (options : RunOptions) (src : Source) (o : Occurrence) : Prop where
  entered : Entered options.resolver options.dsl options.depth src (o.left + 1) o.holder o.chain
    o.seen
  read : o.holder.statements? = some o.place.statements
  mem : o.segment ∈ o.place.path.segments ∨
    ∃ copied, o.place.operation = some (.copy copied) ∧ o.segment ∈ copied.path.segments

/-- Every map in the tree of an accepted run is well keyed. -/
theorem allMaps_wellKeyed {tree : Entries} (accepted : (options.runSource src).outcome = .ok tree) :
    tree.AllMaps WellKeyed := by
  have sustained := upheld_wellKeyed.sustained Key.targets_proper (fun _ => id)
    fun _ _ => Value.allMaps_wellKeyed
  have anyPaths (visited : Source) : visited.Paths fun _ => True :=
    fun _ _ _ _ _ _ => ⟨trivial, fun _ _ => trivial⟩
  obtain ⟨es, ⟨_, keyed⟩, rfl | linked⟩ :=
    sustained.exists_of_accepted accepted fun visited _ => anyPaths visited
  · exact keyed
  · exact upheld_wellKeyed.allMaps_linkPrototypes keyed linked

/-- An accepted run enters no source that spells out another key. -/
theorem Enters.speakable {o : Occurrence} {tree : Entries} {key : String}
    (enters : options.Enters src o) (accepted : (options.runSource src).outcome = .ok tree)
    (spelled : o.segment.spelled? = some key) : Key.Speakable key := by
  obtain ⟨s, merged, _⟩ := exists_of_runSource accepted
  obtain ⟨f, performs, _⟩ := (steady_source options.depth src []).performs_of_ok merged
  obtain ⟨_, performs⟩ := enters.entered.performs performs
  obtain ⟨_, _, _, allowed⟩ := performs.allowed_of_read enters.read
  exact (allowed o.segment enters.mem).speakable spelled

/-- A segment that spells out a key with a flaw stops the run where that meets it. -/
theorem Meets.stops_of_flaw {o : Occurrence} {key : String} {cause : Cause}
    (met : options.Meets src o) (spelled : o.segment.spelled? = some key)
    (flaw : Key.HasFlaw key cause) :
    Stops (source options.resolver options.dsl (o.left + 1) o.holder o.chain)
      (.problem ⟨cause, o.segment.span⟩) := by
  have refused : Stops (keysOf (o.context options) o.segment) (.problem ⟨cause, o.segment.span⟩) :=
    stops_keysOf (PathSegment.refusal?_of_spelled? spelled flaw)
  exact Stops.source met.read (met.arrives.stops (met.meets.stops refused))

/-- In the tree of an accepted run the keys of every map, at any depth, are pairwise different, and
none is empty or holds a newline; and no segment in the sources that the run enters spells out a key
that is empty, holds a newline or is one of the tree's own. Whatever run meets such a segment, the
merge of its source stops there for that flaw, and the run fails for that problem, which it sees as
one of the expression if the source is the output of a DSL. -/
theorem keys_well_formed (options : RunOptions) (src : Source) :
    (∀ tree, (options.runSource src).outcome = .ok tree →
      (∀ es, (Node.map tree).Holds es →
        (∀ key ∈ es.keys, key ≠ "" ∧ '\n' ∉ key.toList) ∧ es.keys.Nodup) ∧
      ∀ o, options.Enters src o → ∀ key, o.segment.spelled? = some key →
        key ≠ "" ∧ '\n' ∉ key.toList ∧ Key.isReserved key = false) ∧
    ∀ o, options.Meets src o → ∀ key, o.segment.spelled? = some key →
      ∀ cause, Key.HasFlaw key cause →
        Stops (source options.resolver options.dsl (o.left + 1) o.holder o.chain)
          (.problem ⟨cause, o.segment.span⟩) ∧
        (options.runSource src).outcome = .error (.problem (o.seen ⟨cause, o.segment.span⟩)) := by
  refine ⟨fun tree accepted => ⟨fun es holds => ?_, fun o enters key spelled => ?_⟩, ?_⟩
  · have keyed := allMaps_wellKeyed accepted es holds
    exact ⟨keyed.proper, keyed.nodup⟩
  · have speakable := enters.speakable accepted spelled
    exact ⟨speakable.proper.1, speakable.proper.2, speakable.2.1⟩
  · intro o met key spelled cause flaw
    have stops := met.stops_of_flaw spelled flaw
    exact ⟨stops, outcome_of_stops (met.entered.stops stops)⟩

/-- A language whose output spells out a tag, with a backslash in it. -/
def tagOutput : RunOptions where
  resolver := noFiles
  dsl := ({} : DslRegistry).register "d" fun _ => .ok "null \x7b '__\\value' = 1 \x7d"
  depth := 2

def tagAssigned : Source :=
  .ofString "a = d\x60x\x60" none

def tagOutputSource : Source :=
  .ofString ("value = " ++ "null \x7b '__\\value' = 1 \x7d") none

def assignedPlace : Place where
  blocks := []
  before := []
  path := ⟨[.plain "a" ⟨tagAssigned, 0, 1⟩]⟩
  operation := some (.assign (.dsl "d" "x" ⟨tagAssigned, 4, 8⟩))
  block := none
  after := []

def tagOutputBlock : EnclosingBlock where
  before := []
  path := ⟨[.plain "value" ⟨tagOutputSource, 0, 5⟩]⟩
  operation := some (.assign (.null ⟨tagOutputSource, 8, 12⟩))
  openBrace := ⟨tagOutputSource, 13, 14⟩
  closeBrace := ⟨tagOutputSource, 30, 31⟩
  after := []

def spelledTag : Occurrence where
  left := 0
  holder := tagOutputSource
  chain := []
  seen := .ofOutput "d" ⟨tagAssigned, 4, 8⟩
  place :=
    { blocks := [tagOutputBlock]
      before := []
      path := ⟨[.quoted "__value" ⟨tagOutputSource, 15, 25⟩]⟩
      operation := some (.assign (.int 1 ⟨tagOutputSource, 28, 29⟩))
      block := none
      after := [] }
  segment := .quoted "__value" ⟨tagOutputSource, 15, 25⟩

theorem statements_tagAssigned : tagAssigned.statements? = some assignedPlace.statements := by
  with_unfolding_all rfl

theorem statements_tagOutputSource :
    tagOutputSource.statements? = some spelledTag.place.statements := by
  with_unfolding_all rfl

theorem arrivesAt_spelledTag :
    (Context.ofSource tagOutput.resolver tagOutput.dsl 0 tagOutputSource []).ArrivesAt
      spelledTag.place := by
  have object : Performs (object
      (Context.ofSource tagOutput.resolver tagOutput.dsl 0 tagOutputSource [])
      tagOutputBlock.path tagOutputBlock.operation) _ _ :=
    (performs_object_iff (Context.steady_ofSource _ _ _ _ _)).mpr
      ⟨ObjectPath.refusal?_eq_none_iff.mp (by decide +kernel), rfl, .null, performs_pure _, rfl⟩
  exact ⟨⟨⟨id, performs_pure ()⟩, ⟨_, object⟩, trivial⟩, id, performs_pure ()⟩

theorem meets_spelledTag : tagOutput.Meets tagAssigned spelledTag where
  entered := .output .start statements_tagAssigned ⟨trivial, id, performs_pure ()⟩
    (performs_extend_iff.mpr ⟨ObjectPath.refusal?_eq_none_iff.mp (by decide +kernel), rfl⟩)
    rfl rfl rfl
  read := statements_tagOutputSource
  arrives := arrivesAt_spelledTag
  meets := @Context.Meets.inTarget _ _ [] [] _ _ (performs_pure _)

/-- A quoted key is accepted, and a tag in the output of a language is refused where it stands. -/
theorem keys_well_formed_of_tagOutput :
    (∃ tree, (tagOutput.runSource (.ofString "'b c'.@d = 1" none)).outcome = .ok tree ∧
      (tree.getPath? ["b c", Key.metaProperties, "d"]).isSome = true ∧
      ∀ es, (Node.map tree).Holds es →
        (∀ key ∈ es.keys, key ≠ "" ∧ '\n' ∉ key.toList) ∧ es.keys.Nodup) ∧
    (tagOutput.runSource tagAssigned).outcome =
      .error (.problem ⟨.invalidDslOutput "d" (.reservedKey "__value") ⟨tagOutputSource, 15, 25⟩,
        ⟨tagAssigned, 4, 8⟩⟩) := by
  constructor
  · obtain ⟨tree, accepted, shown⟩ :
        ∃ tree, (tagOutput.runSource (.ofString "'b c'.@d = 1" none)).outcome = .ok tree ∧
          (tree.getPath? ["b c", Key.metaProperties, "d"]).isSome = true :=
      exists_of_shown (by decide +kernel)
    exact ⟨tree, accepted, shown, ((keys_well_formed _ _).1 tree accepted).1⟩
  · have flaw : Key.HasFlaw "__value" (.reservedKey "__value") := ⟨rfl, by decide⟩
    exact ((keys_well_formed _ _).2 spelledTag meets_spelledTag "__value" rfl _ flaw).2

end RunOptions

end FusionTree
