import FusionTree.Proofs.Merge.Visited
import FusionTree.Proofs.Tree.OneTag
import FusionTree.Proofs.Tree.ParentLinks

/-!
# The shape of the trees of runs

What is true of every tree that is made, and of every tree of an accepted run in which no property
has the name of a key of the tree's own: a map says at most one thing about what its object is, and
links between prototypes stand at the prototypes only.
-/

namespace FusionTree

open Entries

/-! ### Nodes of values -/

theorem Value.allMaps_oneTag {value : Value} {n : Node} (h : value.node? = some n) :
    n.AllMaps OneTag := by
  cases value with
  | objectName name span =>
    cases h
    refine Node.allMaps_map_iff.mpr ⟨.inr ⟨Key.objectType, by decide, ⟨_, rfl, rfl, rfl⟩, ?_⟩, ?_⟩
    · exact forall_mem_tags_iff.mpr ⟨fun _ => rfl, fun _ => rfl, fun ne => absurd rfl ne⟩
    · simp
  | eel code span =>
    cases h
    refine Node.allMaps_map_iff.mpr ⟨.inr ⟨Key.eel, by decide, ⟨_, rfl, rfl, rfl⟩, ?_⟩, ?_⟩
    · exact forall_mem_tags_iff.mpr ⟨fun _ => rfl, fun ne => absurd rfl ne, fun _ => rfl⟩
    · simp
  | dsl => cases h
  | _ => cases h; simp

theorem Value.unlinked {value : Value} {n : Node} (h : value.node? = some n) : n.Unlinked := by
  intro q k mem stands
  obtain ⟨_, tag, _, isTag, eq⟩ := SpelledVisit.exists_tag_of_has_node h (by simp) stands
  have eq : q ++ [k] = [] ++ [tag] := eq
  rw [← List.singleton_inj.mp (List.append_inj' eq rfl).2] at isTag
  exact Key.not_mem_tags_of_mem_links k mem isTag

/-! ### What every map keeps -/

/-- What writes uphold of every map, a run keeps, if it holds of the values in its sources and the
paths have allowed keys only. -/
theorem Entries.Upheld.sustained {K : String → Prop} {Q : Entries → Prop} {C : ObjectPath → Prop}
    {T : List String → Prop} (up : Upheld K Q) (targets : Key.Targets C T)
    (allowed : ∀ path, T path → ∀ k ∈ path, K k)
    (values : ∀ (value : Value) n, value.node? = some n → n.AllMaps Q) :
    Sustained C T fun es => es.Distinct ∧ es.AllMaps Q where
  toTargets := targets
  empty := ⟨.nil, up.allMaps_nil⟩
  assign h ht node := by
    have distinct := Value.distinct node
    exact ⟨h.1.set _ distinct, up.allMaps_set h.2 (allowed _ ht) (values _ _ node) distinct⟩
  output := @fun es inner path h ht output => by
    cases hn : Entries.get? inner "value" with
    | none =>
      have distinct : Node.null.Distinct := Node.distinct_of_entries?_eq_none rfl
      exact ⟨h.1.set _ distinct, up.allMaps_set h.2 (allowed _ ht) Node.allMaps_null distinct⟩
    | some n =>
      have distinct := output.1.get? hn
      exact ⟨h.1.set _ distinct, up.allMaps_set h.2 (allowed _ ht) (output.2.get? hn) distinct⟩
  unset h ht := ⟨h.1.unset _, up.allMaps_unset h.2 (allowed _ ht)⟩
  copy h ht hs copies := by
    rcases copyOrInherit?_eq_some copies with ⟨_, rfl⟩ | ⟨parent, rfl⟩
    · exact ⟨h.1.copy _ _, up.allMaps_copy h.2 h.1 (allowed _ ht) (allowed _ hs)⟩
    · have distinct : (Node.string parent).Distinct := Node.distinct_of_entries?_eq_none rfl
      have link : ∀ k ∈ _ ++ [Key.parent], K k := List.forall_mem_append.mpr
        ⟨allowed _ ht, fun k mem => up.own k (by simp_all)⟩
      exact ⟨h.1.set _ distinct, up.allMaps_set h.2 link (Node.allMaps_string _) distinct⟩

/-! ### Trees that are made -/

namespace Entries.Made

variable {es : Entries}

theorem distinct (h : es.Made) : es.Distinct := by
  induction h with
  | empty => exact .nil
  | assign _ _ node ih => exact ih.set _ (Value.distinct node)
  | @output _ inner path _ _ _ ih ihInner =>
    refine ih.set _ ?_
    cases hn : Entries.get? inner "value" with
    | none => exact Node.distinct_of_entries?_eq_none rfl
    | some n => exact ihInner.get? hn
  | unset _ _ ih => exact ih.unset _
  | copy _ _ _ _ ih => exact ih.copy _ _
  | inherit _ _ ih => exact ih.set _ (Node.distinct_of_entries?_eq_none rfl)

theorem linkedAtRoot (h : es.Made) : es.LinkedAtRoot := by
  induction h with
  | empty => exact .nil
  | assign _ target node ih =>
    exact ih.set target.placed.no_tag target.placed.no_link (Value.distinct node)
      (Value.unlinked node)
  | @output _ inner path _ made target ih ihInner =>
    cases hn : Entries.get? inner "value" with
    | none =>
      exact ih.set target.placed.no_tag target.placed.no_link
        (Node.distinct_of_entries?_eq_none rfl) (Node.unlinked_of_entries?_eq_none rfl)
    | some n =>
      exact ih.set target.placed.no_tag target.placed.no_link (made.distinct.get? hn)
        (ihInner.unlinked_of_get? (by decide) hn)
  | unset _ target ih => exact ih.unset target.placed.no_tag target.placed.no_link
  | copy made target named part ih =>
    exact ih.copy_of_named made.distinct target named part
  | @inherit _ name _ _ target ih =>
    exact ih.inherit _ (target.placed.no_tag name (by simp)) (target.placed.no_link name (by simp))

end Entries.Made

namespace RunOptions

variable {options : RunOptions} {src : Source} {tree : Entries}

/-- Every map in the tree of an accepted run has no tag; or it has all of them, none a map, and one
of them alone is not null. -/
theorem maps_have_one_tag (accepted : (options.runSource src).outcome = .ok tree)
    (unforged : ∀ visited, src.Visits options.resolver options.dsl visited → visited.Unforged) :
    ∀ es, (Node.map tree).Holds es → es.OneTag := by
  have sustained := upheld_oneTag.sustained Key.targets_named (fun _ named => named.placed.no_tag)
    fun _ _ => Value.allMaps_oneTag
  obtain ⟨es, ⟨_, one⟩, rfl | linked⟩ := sustained.exists_of_accepted accepted unforged
  · exact one
  · exact upheld_oneTag.allMaps_linkPrototypes one linked

/-- No files, and a language whose output is a number with a property. -/
def numbers : RunOptions where
  resolver := noFiles
  dsl := ({} : DslRegistry).register "num" fun _ => .ok "1 { b = 2 }"

def numberAssigned : Source :=
  Source.ofString "a = num\x60x\x60" none

def numberOutput : Source :=
  Source.ofString ("value = " ++ "1 { b = 2 }") none

theorem statements_numberAssigned :
    numberAssigned.statements? = some [.object ⟨[.plain "a" ⟨numberAssigned, 0, 1⟩]⟩
      (some (.assign (.dsl "num" "x" ⟨numberAssigned, 4, 10⟩))) none] := by
  with_unfolding_all rfl

theorem statements_numberOutput :
    numberOutput.statements? = some [.object ⟨[.plain "value" ⟨numberOutput, 0, 5⟩]⟩
      (some (.assign (.int 1 ⟨numberOutput, 8, 9⟩))) (some ⟨⟨numberOutput, 10, 11⟩,
        [.object ⟨[.plain "b" ⟨numberOutput, 12, 13⟩]⟩
          (some (.assign (.int 2 ⟨numberOutput, 16, 17⟩))) none],
        ⟨numberOutput, 18, 19⟩⟩)] := by
  with_unfolding_all rfl

theorem visits_numberAssigned {visited : Source}
    (visits : numberAssigned.Visits numbers.resolver numbers.dsl visited) :
    visited = numberAssigned ∨ visited = numberOutput := by
  rcases visits.cases_head with rfl | ⟨next, leads, visits⟩
  · exact .inl rfl
  cases leads with
  | file read mem =>
    cases statements_numberAssigned.symm.trans read
    simp [Statement.withBlocks] at mem
  | output read mem registered transpiled =>
    cases statements_numberAssigned.symm.trans read
    obtain ⟨_, ⟨rfl, rfl, rfl⟩, rfl⟩ := by simpa [Statement.withBlocks] using mem
    cases registered
    cases transpiled
    rcases visits.cases_head with rfl | ⟨next, leads, _⟩
    · exact .inr rfl
    cases leads with
    | file read mem =>
      cases statements_numberOutput.symm.trans read
      simp [Statement.withBlocks] at mem
    | output read mem =>
      cases statements_numberOutput.symm.trans read
      simp [Statement.withBlocks] at mem

/-- The tags of a number come with the output of a language. -/
theorem maps_have_one_tag_of_output :
    ∃ tree, (numbers.runSource numberAssigned).outcome = .ok tree ∧
      (tree.getPath? ["a", Key.value]).isSome = true ∧
      ∀ es, (Node.map tree).Holds es → es.OneTag := by
  obtain ⟨tree, accepted, shown⟩ : ∃ tree, (numbers.runSource numberAssigned).outcome = .ok tree ∧
      (tree.getPath? ["a", Key.value]).isSome = true := exists_of_shown (by decide +kernel)
  refine ⟨tree, accepted, shown, maps_have_one_tag accepted ?_⟩
  intro visited visits ss read path operation block mem
  rcases visits_numberAssigned visits with rfl | rfl
  · cases statements_numberAssigned.symm.trans read
    obtain ⟨rfl, rfl, rfl⟩ := by simpa [Statement.withBlocks] using mem
    simp [ObjectPath.Unforged]
  · cases statements_numberOutput.symm.trans read
    rcases (by simpa [Statement.withBlocks] using mem) with ⟨rfl, rfl, rfl⟩ | ⟨rfl, rfl, rfl⟩
    · simp [ObjectPath.Unforged]
    · simp [ObjectPath.Unforged]

/-- In the tree of an accepted run the name of a parent and the chain of ancestors stand directly in
prototypes at the root, and nowhere else. -/
theorem links_stay_in_prototypes (accepted : (options.runSource src).outcome = .ok tree)
    (unforged : ∀ visited, src.Visits options.resolver options.dsl visited → visited.Unforged)
    {q : List String} {k : String} (link : k = Key.parent ∨ k = Key.chain)
    (stands : (tree.getPath? (q ++ [k])).isSome = true) : ∃ name, q = [Key.prototypes, name] := by
  have mem : k ∈ Key.links := by simpa [Key.links] using link
  rw [getPath?_eq_at? _ (by simp)] at stands
  obtain ⟨es, made, rfl | linked⟩ := exists_made accepted unforged
  · exact made.linkedAtRoot q k mem stands
  · exact made.linkedAtRoot.linkPrototypes linked q k mem stands

def partCopied : Source :=
  Source.ofString "prototype(A:B) < prototype(A:C)\nx < prototype(A:B).b" none

theorem statements_partCopied :
    partCopied.statements? = some
      [.object ⟨[.prototype "A:B" ⟨partCopied, 0, 14⟩]⟩
        (some (.copy ⟨⟨[.prototype "A:C" ⟨partCopied, 17, 31⟩]⟩, false⟩)) none,
      .object ⟨[.plain "x" ⟨partCopied, 32, 33⟩]⟩
        (some (.copy ⟨⟨[.prototype "A:B" ⟨partCopied, 36, 50⟩, .plain "b" ⟨partCopied, 51, 52⟩]⟩,
          false⟩)) none] := by
  with_unfolding_all rfl

theorem visits_partCopied {resolver : Resolver} {visited : Source}
    (visits : partCopied.Visits resolver {} visited) : visited = partCopied := by
  rcases visits.cases_head with rfl | ⟨next, leads, _⟩
  · rfl
  cases leads with
  | file read mem =>
    cases statements_partCopied.symm.trans read
    simp [Statement.withBlocks] at mem
  | output read mem =>
    cases statements_partCopied.symm.trans read
    simp [Statement.withBlocks] at mem

/-- The link of the prototype that inherits stands in it. -/
theorem links_stay_in_prototypes_of_partCopied :
    ∃ tree, (({ resolver := noFiles } : RunOptions).runSource partCopied).outcome = .ok tree ∧
      (tree.getPath? ([Key.prototypes, "A:B"] ++ [Key.chain])).isSome = true ∧
      ∃ name, [Key.prototypes, "A:B"] = [Key.prototypes, name] := by
  obtain ⟨tree, accepted, stands⟩ :
      ∃ tree, (({ resolver := noFiles } : RunOptions).runSource partCopied).outcome = .ok tree ∧
        (tree.getPath? ([Key.prototypes, "A:B"] ++ [Key.chain])).isSome = true :=
    exists_of_shown (by decide +kernel)
  refine ⟨tree, accepted, stands, ?_⟩
  refine links_stay_in_prototypes accepted
    (fun visited visits ss read path operation block mem => ?_) (.inr rfl) stands
  obtain rfl := visits_partCopied visits
  cases statements_partCopied.symm.trans read
  rcases (by simpa [Statement.withBlocks] using mem) with ⟨rfl, rfl, rfl⟩ | ⟨rfl, rfl, rfl⟩
  · simp [ObjectPath.Unforged]
  · simp [ObjectPath.Unforged]

end RunOptions

end FusionTree
