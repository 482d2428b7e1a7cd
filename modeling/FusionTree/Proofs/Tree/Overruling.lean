import FusionTree.Proofs.Tree.Writing

/-!
# Overruling, path by path

What stands at a path after a merge follows from what the two sides hold there, and from whether the
overruling side has a plain value on the way to it: what it holds comes first, a map of it is merged
into the map of the other side, and behind a plain value of it nothing is left.
-/

namespace FusionTree

namespace Node

/-- On the way to the path, in front of its end, the node holds something that is no map. -/
def CutsOff (n : Node) (path : List String) : Prop :=
  ∃ p m, p <+: path ∧ p ≠ path ∧ n.at? p = some m ∧ m.entries? = none

variable {n : Node} {es : Entries} {key : String} {rest : List String}

theorem cutsOff_of_plain (h : n.entries? = none) (key : String) (rest : List String) :
    n.CutsOff (key :: rest) :=
  ⟨[], n, List.nil_prefix, nofun, rfl, h⟩

theorem cutsOff_map_cons_iff :
    (map es).CutsOff (key :: rest) ↔ ∃ child, es.get? key = some child ∧ child.CutsOff rest := by
  constructor
  · rintro ⟨p, m, le, ne, at_p, plain⟩
    cases p with
    | nil =>
      cases at_p
      cases plain
    | cons k p =>
      obtain ⟨rfl, below⟩ := List.cons_prefix_cons.mp le
      obtain ⟨_, child, eq, hc, at_p⟩ := at?_cons_eq_some_iff.mp at_p
      cases eq
      exact ⟨child, hc, p, m, below, by grind, at_p, plain⟩
  · rintro ⟨child, hc, p, m, le, ne, at_p, plain⟩
    exact ⟨key :: p, m, List.cons_prefix_cons.mpr ⟨rfl, le⟩, by grind,
      at?_cons_eq_some_iff.mpr ⟨es, child, rfl, hc, at_p⟩, plain⟩

theorem bind_get?_of_no_map {base : Option Node} (h : base.bind entries? = none) (key : String) :
    base.bind (·.get? key) = none := by
  cases base with
  | none => rfl
  | some m => simp_all [get?]

theorem bind_at?_cons (base : Option Node) (key : String) (rest : List String) :
    base.bind (·.at? (key :: rest)) = (base.bind (·.get? key)).bind (·.at? rest) := by
  cases base <;> rfl

/-- Under a key that the overruling map has, its node overrules the one that was there. -/
theorem get?_overrule_of_some {new : Entries} (nodup : new.keys.Nodup) (base : Option Node)
    (h : new.get? key = some n) :
    ((map new).overrule base).get? key = some (n.overrule (base.bind (·.get? key))) := by
  cases hb : base.bind entries? with
  | none => rw [overrule_of_no_map _ hb, bind_get?_of_no_map hb, overrule_none, get?_map, h]
  | some old =>
    obtain rfl := bind_entries?_eq_some_iff.mp hb
    rw [overrule_map_map, get?_map, Entries.get?_overrule nodup old h]
    rfl

theorem get?_overrule_of_none {new : Entries} (base : Option Node) (h : new.get? key = none) :
    ((map new).overrule base).get? key = base.bind (·.get? key) := by
  cases hb : base.bind entries? with
  | none => rw [overrule_of_no_map _ hb, bind_get?_of_no_map hb, get?_map, h]
  | some old =>
    obtain rfl := bind_entries?_eq_some_iff.mp hb
    rw [overrule_map_map, get?_map,
      Entries.get?_overrule_of_not_mem old (Entries.get?_eq_none_iff.mp h)]
    rfl

/-- Where the overruling node holds something, that overrules what the other side holds there. -/
theorem at?_overrule_of_some {new m : Node} (distinct : new.Distinct) {path : List String}
    (base : Option Node) (h : new.at? path = some m) :
    (new.overrule base).at? path = some (m.overrule (base.bind (·.at? path))) := by
  induction path generalizing new base with
  | nil =>
    cases h
    cases base <;> rfl
  | cons key rest ih =>
    obtain ⟨es, child, rfl, hc, hm⟩ := at?_cons_eq_some_iff.mp h
    obtain ⟨nodup, below⟩ := distinct_map_iff.mp distinct
    rw [at?_cons, get?_overrule_of_some nodup base hc, bind_at?_cons]
    exact ih (below key child hc) _ hm

/-- Where it holds nothing, and no plain value on the way, the other side is left as it is. -/
theorem at?_overrule_of_not_cutsOff {new : Node} (distinct : new.Distinct) {path : List String}
    (base : Option Node) (nothing : new.at? path = none) (free : ¬new.CutsOff path) :
    (new.overrule base).at? path = base.bind (·.at? path) := by
  induction path generalizing new base with
  | nil => cases nothing
  | cons key rest ih =>
    cases isMap : new.entries? with
    | none => exact absurd (cutsOff_of_plain isMap key rest) free
    | some es =>
      obtain rfl := entries?_eq_some_iff.mp isMap
      obtain ⟨nodup, below⟩ := distinct_map_iff.mp distinct
      rw [at?_cons, bind_at?_cons]
      cases hc : es.get? key with
      | none => rw [get?_overrule_of_none base hc]
      | some child =>
        rw [get?_overrule_of_some nodup base hc]
        refine ih (below key child hc) _ ?_ fun cut =>
          free (cutsOff_map_cons_iff.mpr ⟨child, hc, cut⟩)
        rwa [at?_map_cons, hc] at nothing

/-- Behind a plain value on the way nothing is left. -/
theorem at?_overrule_of_cutsOff {new : Node} (distinct : new.Distinct) {path : List String}
    (base : Option Node) (cut : new.CutsOff path) : (new.overrule base).at? path = none := by
  obtain ⟨p, m, ⟨more, rfl⟩, ne, at_p, plain⟩ := cut
  have left : (new.overrule base).at? p = some m := by
    rw [at?_overrule_of_some distinct base at_p, overrule_of_entries?_eq_none plain]
  obtain ⟨key, rest, rfl⟩ := List.exists_cons_of_ne_nil (show more ≠ [] by grind)
  rw [at?_append, left]
  cases m with
  | map => cases plain
  | _ => rfl

/-- A map of the overruling side leaves a map, and anything else of it itself. -/
theorem entries?_overrule_isSome (n : Node) (base : Option Node) :
    (n.overrule base).entries?.isSome = n.entries?.isSome := by
  cases n <;> rfl

end Node

namespace Entries

open Node

/-- The keys of the base stay in their order, and the keys that only the other side has come behind
them, in theirs. -/
theorem keys_overrule {new : Entries} (nodup : new.keys.Nodup) (base : Entries) :
    (overrule new base).keys = base.keys ++ new.keys.filter (· ∉ base.keys) := by
  induction new generalizing base with
  | nil => simp [keys]
  | cons entry rest ih =>
    obtain ⟨key, n⟩ := entry
    obtain ⟨absent, nodup⟩ := List.nodup_cons.mp nodup
    have keys_cons : keys ((key, n) :: rest) = key :: keys rest := rfl
    rw [overrule_cons, ih nodup, keys_cons]
    by_cases mem : key ∈ base.keys
    · rw [keys_insert_of_mem _ mem, List.filter_cons_of_neg (by simpa using mem)]
    · have others : (keys rest).filter (· ∉ base.keys ++ [key]) =
          (keys rest).filter (· ∉ base.keys) := by
        refine List.filter_congr fun k hk => ?_
        have ne : k ≠ key := fun eq => absent (eq ▸ hk)
        simp [ne]
      rw [keys_insert_of_not_mem _ mem, List.filter_cons_of_pos (by simpa using mem), others,
        List.append_assoc, List.singleton_append]

/-- What a merge leaves at a path. -/
structure MergedAt (base upper : Entries) (path : List String) : Prop where
  /-- A plain value is one of the overruling side, or one of the base that this side leaves
  alone. -/
  plain : ∀ n : Node, n.entries? = none →
    ((Node.map (overrule upper base)).at? path = some n ↔
      (Node.map upper).at? path = some n ∨
        (Node.map base).at? path = some n ∧ (Node.map upper).at? path = none ∧
          ¬(Node.map upper).CutsOff path)
  /-- So is a map. -/
  map : (∃ es, (Node.map (overrule upper base)).at? path = some (.map es)) ↔
    (∃ es, (Node.map upper).at? path = some (.map es)) ∨
      (∃ es, (Node.map base).at? path = some (.map es)) ∧ (Node.map upper).at? path = none ∧
        ¬(Node.map upper).CutsOff path
  /-- Where both sides hold a map, the keys of the base come first, then those that only the other
  side has. -/
  keys : ∀ old new : Entries, (Node.map base).at? path = some (.map old) →
    (Node.map upper).at? path = some (.map new) → ∃ es : Entries,
      (Node.map (overrule upper base)).at? path = some (.map es) ∧
        es.keys = old.keys ++ new.keys.filter (· ∉ old.keys)

/-- A merge, path by path: at every path it leaves what the overruling side holds there, maps merged
into maps with the keys of the base first; and where that side holds nothing and has no plain value
on the way, it leaves what the base holds. -/
theorem merged_path_by_path {upper : Entries} (distinct : upper.Distinct) (base : Entries)
    (path : List String) : base.MergedAt upper path := by
  have merged : Node.map (overrule upper base) = (Node.map upper).overrule (some (.map base)) := by
    rw [overrule_map_map]
  have leaf_or_map (n : Node) : (∃ es, n = .map es) ↔ n.entries?.isSome := by
    cases n <;> simp [entries?]
  cases held : (Node.map upper).at? path with
  | some m =>
    have left := at?_overrule_of_some distinct (some (.map base)) held
    rw [← merged] at left
    refine ⟨fun n plain => ?_, ?_, fun old new hold hnew => ?_⟩
    · rw [left, held]
      simp only [Option.some.injEq, reduceCtorEq, false_and, and_false, or_false]
      constructor
      · rintro rfl
        have isPlain : m.entries? = none := by
          have same := entries?_overrule_isSome m ((some (Node.map base)).bind (·.at? path))
          rw [plain] at same
          exact Option.isNone_iff_eq_none.mp (Option.isSome_eq_false_iff.mp same.symm)
        rw [overrule_of_entries?_eq_none isPlain]
      · rintro rfl
        rw [overrule_of_entries?_eq_none plain]
    · rw [left, held]
      simp only [Option.some.injEq, reduceCtorEq, false_and, and_false, or_false]
      rw [leaf_or_map, leaf_or_map, entries?_overrule_isSome]
    · obtain rfl : m = .map new := Option.some.inj (held.symm.trans hnew)
      have nodup : new.keys.Nodup := distinct path new hnew
      refine ⟨overrule new old, ?_, keys_overrule nodup old⟩
      rw [left, Option.bind_some, hold, overrule_map_map]
  | none =>
    by_cases cut : (Node.map upper).CutsOff path
    · have left := at?_overrule_of_cutsOff distinct (some (.map base)) cut
      rw [← merged] at left
      exact ⟨fun n _ => by simp [left, held, cut], by simp [left, held, cut],
        fun _ _ _ hnew => by rw [held] at hnew; cases hnew⟩
    · have left := at?_overrule_of_not_cutsOff distinct (some (.map base)) held cut
      rw [← merged, Option.bind_some] at left
      exact ⟨fun n _ => by simp [left, held, cut], by simp [left, held, cut],
        fun _ _ _ hnew => by rw [held] at hnew; cases hnew⟩

/-- Maps under one key, and a number in the place of a map under another one. -/
theorem merged_path_by_path_of_mixed :
    let base : Entries := [("a", .map [("x", .int 1), ("y", .null)]), ("b", .map [("z", .int 2)])]
    let upper : Entries := [("b", .int 3), ("a", .map [("w", .map []), ("x", .string "s")])]
    upper.Distinct ∧
      (∃ es : Entries, (Node.map (overrule upper base)).at? ["a"] = some (.map es) ∧
        es.keys = ["x", "y", "w"]) ∧
      (Node.map (overrule upper base)).at? ["a", "y"] = some .null ∧
      (Node.map (overrule upper base)).at? ["b", "z"] ≠ some (.int 2) := by
  intro base upper
  have plain {m : Node} (hm : m.entries? = none) : m.Distinct := distinct_of_entries?_eq_none hm
  have distinct : upper.Distinct :=
    (Distinct.nil.insert "b" (plain rfl)).insert "a"
      ((Distinct.nil.insert "w" Distinct.nil).insert "x" (plain rfl))
  have merged (path : List String) := merged_path_by_path distinct base path
  have cut : (Node.map upper).CutsOff ["b", "z"] :=
    cutsOff_map_cons_iff.mpr ⟨.int 3, rfl, cutsOff_of_plain rfl "z" []⟩
  have free : ¬(Node.map upper).CutsOff ["a", "y"] := by
    intro blocked
    obtain ⟨child, at_a, blocked⟩ := cutsOff_map_cons_iff.mp blocked
    cases at_a
    obtain ⟨child, at_y, _⟩ := cutsOff_map_cons_iff.mp blocked
    cases at_y
  refine ⟨distinct, (merged ["a"]).keys _ _ rfl rfl,
    ((merged ["a", "y"]).plain .null rfl).mpr (.inr ⟨rfl, rfl, free⟩), fun left => ?_⟩
  rcases ((merged ["b", "z"]).plain (.int 2) rfl).mp left with upper | ⟨_, _, free⟩
  · cases upper
  · exact free cut

end Entries

end FusionTree
