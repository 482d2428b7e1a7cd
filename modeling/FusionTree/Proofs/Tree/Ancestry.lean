import FusionTree.Proofs.Tree.Linking
import Mathlib.Data.List.Nodup

/-!
# Walks from a prototype to its ancestors

The walk from a prototype goes from name to parent, and ends at a name without one. `ancestors`
follows it with the names it has visited, so it ends as well where the walk would go on for ever:
it gives all names of the walk if none comes twice, and those up to the first repetition otherwise.
-/

namespace FusionTree

namespace Entries

/-- The name that the walk from a prototype comes to after some steps. -/
def walk (prototypes : Entries) (name : String) : Nat → Option String
  | 0 => some name
  | steps + 1 => (prototypes.walk name steps).bind prototypes.parentOf?

def Revisits (prototypes : Entries) (name : String) : Prop :=
  ∃ i j again, i < j ∧ prototypes.walk name i = some again ∧ prototypes.walk name j = some again

/-- The names are all that the walk comes to, and none comes twice. -/
structure Completes (prototypes : Entries) (name : String) (names : List String) : Prop where
  all : ∀ i, prototypes.walk name i = names[i]?
  nodup : names.Nodup

/-- The names are those of the walk up to the first that it comes to twice. -/
structure ReturnsBy (prototypes : Entries) (name : String) (names : List String) : Prop where
  follows : ∀ i < names.length, prototypes.walk name i = names[i]?
  fresh : names.dropLast.Nodup
  again : ∃ again ∈ names.dropLast, names.getLast? = some again

/-- The names are the ancestors of a prototype, the most distant one first. -/
structure IsLineage (prototypes : Entries) (name : String) (chain : List String) : Prop where
  ancestors : ∀ i, chain.reverse[i]? = prototypes.walk name (i + 1)
  nodup : chain.Nodup
  self : name ∉ chain

variable {prototypes left : Entries} {start name parent : String} {walked : List String}

/-! ### Complete walks and repetitions -/

theorem walk_succ_of_none {i : Nat} (h : prototypes.walk name i = none) :
    prototypes.walk name (i + 1) = none := by
  simp [walk, h]

theorem walk_one : prototypes.walk name 1 = prototypes.parentOf? name := rfl

theorem Completes.not_revisits {names : List String} (h : prototypes.Completes name names) :
    ¬prototypes.Revisits name := by
  rintro ⟨i, j, again, hij, hi, hj⟩
  rw [h.all] at hi hj
  obtain ⟨hi', rfl⟩ := List.getElem?_eq_some_iff.mp hi
  obtain ⟨hj', same⟩ := List.getElem?_eq_some_iff.mp hj
  have := h.nodup.getElem_inj_iff.mp same
  omega

theorem ReturnsBy.revisits {names : List String} (h : prototypes.ReturnsBy name names) :
    prototypes.Revisits name := by
  obtain ⟨again, mem, last⟩ := h.again
  obtain ⟨i, hi, here⟩ := List.mem_iff_getElem.mp mem
  have hi' : i < names.length - 1 := by simpa using hi
  refine ⟨i, names.length - 1, again, hi', ?_, ?_⟩
  · rw [h.follows i (by omega), ← here, List.getElem_dropLast]
    exact List.getElem?_eq_getElem (by omega)
  · rw [h.follows _ (by omega), ← last, List.getLast?_eq_getElem?]

theorem Completes.unique {names names' : List String} (h : prototypes.Completes name names)
    (h' : prototypes.Completes name names') : names = names' :=
  List.ext_getElem? fun i => by rw [← h.all, h'.all]

theorem Completes.isLineage {chain : List String}
    (h : prototypes.Completes name (name :: chain.reverse)) : prototypes.IsLineage name chain where
  ancestors i := by rw [h.all, List.getElem?_cons_succ]
  nodup := List.nodup_reverse.mp (List.nodup_cons.mp h.nodup).2
  self hm := (List.nodup_cons.mp h.nodup).1 (List.mem_reverse.mpr hm)

theorem IsLineage.unique {chain chain' : List String} (h : prototypes.IsLineage name chain)
    (h' : prototypes.IsLineage name chain') : chain = chain' := by
  apply List.reverse_injective
  exact List.ext_getElem? fun i => by rw [h.ancestors, h'.ancestors]

theorem IsLineage.eq_nil_iff {chain : List String} (h : prototypes.IsLineage name chain) :
    chain = [] ↔ prototypes.parentOf? name = none := by
  rw [← walk_one, ← h.ancestors 0]
  simp

/-! ### The visited names -/

/-- What is known after some steps of a walk: the names visited so far, the latest first, and the
entries that it has not visited yet. -/
structure Trail (prototypes : Entries) (start : String) (left : Entries) (walked : List String)
    (name : String) : Prop where
  here : walked.head? = some name
  follows : ∀ i < walked.length, prototypes.walk start i = walked.reverse[i]?
  nodup : walked.Nodup
  left : ∀ n ∉ walked.tail, left.parentOf? n = prototypes.parentOf? n

theorem Trail.initial (prototypes : Entries) (name : String) :
    prototypes.Trail name prototypes [name] name where
  here := rfl
  follows i hi := by
    obtain rfl : i = 0 := by simpa using hi
    rfl
  nodup := List.nodup_singleton name
  left _ _ := rfl

namespace Trail

theorem exists_eq_cons (h : prototypes.Trail start left walked name) :
    ∃ earlier, walked = name :: earlier :=
  List.head?_eq_some_iff.mp h.here

/-- The next name of the walk is the parent among the entries that are left. -/
theorem next (h : prototypes.Trail start left walked name) :
    prototypes.walk start walked.length = left.parentOf? name := by
  obtain ⟨earlier, rfl⟩ := h.exists_eq_cons
  have latest : prototypes.walk start earlier.length = some name := by
    rw [h.follows _ (by simp)]
    simp
  have fresh : name ∉ earlier := (List.nodup_cons.mp h.nodup).1
  rw [h.left name fresh, List.length_cons, walk, latest]
  rfl

theorem parentOf?_erase_of_ne {n : String} (h : n ≠ name) :
    (left.erase name).parentOf? n = left.parentOf? n := by
  rw [parentOf?, parentOf?, get?_erase_of_ne h]

theorem step (h : prototypes.Trail start left walked name) (hp : left.parentOf? name = some parent)
    (fresh : parent ∉ walked) :
    prototypes.Trail start (left.erase name) (parent :: walked) parent where
  here := rfl
  follows i hi := by
    rw [List.reverse_cons]
    by_cases earlier : i < walked.length
    · rw [h.follows i earlier, List.getElem?_append_left (by simpa using earlier)]
    · obtain rfl : i = walked.length := by simp at hi; omega
      rw [h.next, hp, ← List.length_reverse, List.getElem?_concat_length]
  nodup := List.nodup_cons.mpr ⟨fresh, h.nodup⟩
  left n hn := by
    obtain ⟨earlier, rfl⟩ := h.exists_eq_cons
    simp only [List.tail_cons, List.mem_cons, not_or] at hn
    rw [parentOf?_erase_of_ne hn.1, h.left n hn.2]

/-- A walk without a next name is complete. -/
theorem completes (h : prototypes.Trail start left walked name)
    (hp : left.parentOf? name = none) : prototypes.Completes start walked.reverse where
  all i := by
    have ended (k : Nat) : prototypes.walk start (walked.length + k) = none := by
      induction k with
      | zero => rw [Nat.add_zero, h.next, hp]
      | succ k ih => exact walk_succ_of_none ih
    by_cases earlier : i < walked.length
    · exact h.follows i earlier
    · obtain ⟨k, rfl⟩ : ∃ k, i = walked.length + k := ⟨i - walked.length, by omega⟩
      rw [ended, List.getElem?_eq_none (by simp)]
  nodup := List.nodup_reverse.mpr h.nodup

/-- A walk whose next name has been visited returns by it. -/
theorem returnsBy (h : prototypes.Trail start left walked name)
    (hp : left.parentOf? name = some parent) (visited : parent ∈ walked) :
    prototypes.ReturnsBy start (parent :: walked).reverse where
  follows i hi := by
    rw [List.reverse_cons]
    by_cases earlier : i < walked.length
    · rw [h.follows i earlier, List.getElem?_append_left (by simpa using earlier)]
    · obtain rfl : i = walked.length := by simp at hi; omega
      rw [h.next, hp, ← List.length_reverse, List.getElem?_concat_length]
  fresh := by simpa using h.nodup
  again := ⟨parent, by simpa using visited, by simp⟩

end Trail

/-- Following a walk gives either all of its names or those up to the first repetition. The
induction is on the entries that are left; the trail says which part of the walk they leave. -/
theorem ancestors_spec (trail : prototypes.Trail start left walked name) :
    (∀ more, left.ancestors walked name = .ok more →
      prototypes.Completes start (walked.reverse ++ more)) ∧
    ∀ names, left.ancestors walked name = .error names → prototypes.ReturnsBy start names := by
  fun_induction ancestors left walked name with
  | case1 left walked name hp =>
    refine ⟨?_, nofun⟩
    rintro _ ⟨⟩
    rw [List.append_nil]
    exact trail.completes hp
  | case2 left walked name parent hp visited =>
    refine ⟨nofun, ?_⟩
    rintro _ ⟨⟩
    exact trail.returnsBy hp visited
  | case3 left walked name parent hp fresh _ ih =>
    obtain ⟨ok, error⟩ := ih (trail.step hp fresh)
    cases hr : (left.erase name).ancestors (parent :: walked) parent with
    | ok more =>
      refine ⟨?_, nofun⟩
      rintro _ ⟨⟩
      simpa using ok more hr
    | error names =>
      refine ⟨nofun, ?_⟩
      rintro _ ⟨⟩
      exact error names hr

/-! ### Chains -/

theorem completes_of_chainOf {chain : List String} (h : prototypes.chainOf name = .ok chain) :
    prototypes.Completes name (name :: chain.reverse) := by
  unfold chainOf at h
  cases ha : prototypes.ancestors [name] name with
  | ok more =>
    rw [ha] at h
    cases h
    simpa using (ancestors_spec (.initial prototypes name)).1 more ha
  | error names =>
    rw [ha] at h
    cases h

theorem returnsBy_of_chainOf {names : List String} (h : prototypes.chainOf name = .error names) :
    prototypes.ReturnsBy name names := by
  unfold chainOf at h
  cases ha : prototypes.ancestors [name] name with
  | ok more =>
    rw [ha] at h
    cases h
  | error names' =>
    rw [ha] at h
    cases h
    exact (ancestors_spec (.initial prototypes name)).2 _ ha

theorem exists_chainOf_iff :
    (∃ chain, prototypes.chainOf name = .ok chain) ↔ ¬prototypes.Revisits name := by
  constructor
  · rintro ⟨chain, h⟩
    exact (completes_of_chainOf h).not_revisits
  · intro once
    cases h : prototypes.chainOf name with
    | ok chain => exact ⟨chain, rfl⟩
    | error names => exact absurd (returnsBy_of_chainOf h).revisits once

end Entries

end FusionTree
