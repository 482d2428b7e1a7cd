import FusionTree.Proofs.Tree.Growth

/-!
# Where parent links stand

The name of a parent and the chain of ancestors belong into a prototype at the root. A tree that has
them nowhere else is left so by every write of a node without them to a path without them, and by
every copy of something that neither is nor holds a prototype at the root.
-/

namespace FusionTree

/-- The keys that tell what a prototype inherits from. -/
def Key.links : List String := [parent, chain]

def Node.Unlinked (n : Node) : Prop :=
  ∀ q, ∀ k ∈ Key.links, ¬n.Has (q ++ [k])

/-- Whether parent links stand nowhere but directly in prototypes at the root. -/
def Entries.LinkedAtRoot (es : Entries) : Prop :=
  ∀ q, ∀ k ∈ Key.links, (Node.map es).Has (q ++ [k]) → ∃ name, q = [Key.prototypes, name]

theorem Key.not_mem_tags_of_mem_links : ∀ k ∈ Key.links, k ∉ Key.tags := by decide

theorem Node.unlinked_of_entries?_eq_none {n : Node} (h : n.entries? = none) : n.Unlinked := by
  intro q k _ stands
  cases q with
  | nil =>
    obtain ⟨_, rfl⟩ := stands.exists_map
    cases h
  | cons key rest =>
    have stands : n.Has (key :: (rest ++ [k])) := stands
    obtain ⟨_, rfl⟩ := stands.exists_map
    cases h

namespace Entries

variable {es : Entries} {path source : List String} {n : Node}

theorem LinkedAtRoot.nil : LinkedAtRoot [] := by
  intro q k _ stands
  simpa using has_nil_iff.mp stands

/-- What stands elsewhere than under the key of the prototypes has no links. -/
theorem LinkedAtRoot.unlinked_of_get? (h : es.LinkedAtRoot) {key : String}
    (hk : key ≠ Key.prototypes) (hn : es.get? key = some n) : n.Unlinked := by
  intro q k mem stands
  obtain ⟨name, eq⟩ := h (key :: q) k mem (Node.has_cons_iff.mpr ⟨n, hn, stands⟩)
  exact hk (List.cons.inj eq).1

/-- A key at the end of a path that is neither a tag nor in the written path stood there before, or
stands in the written node. -/
theorem has_of_has_set {q : List String} {k : String} (noTag : ∀ k ∈ path, k ∉ Key.tags)
    (distinct : n.Distinct) (hk : k ∉ Key.tags) (absent : k ∉ path)
    (h : (Node.map (es.set path n)).Has (q ++ [k])) :
    (Node.map es).Has (q ++ [k]) ∨ ∃ r, q = path ++ r ∧ n.Has (r ++ [k]) := by
  have no_tag {p : List String} {tag : String} (eq : q ++ [k] = p ++ [tag]) : tag ∉ Key.tags := by
    rw [← List.singleton_inj.mp (List.append_inj' eq rfl).2]
    exact hk
  cases written_of_has_set noTag distinct (by simp) h with
  | old stood => exact .inl stood
  | way le => exact absurd (le.subset (by simp)) absent
  | inside r eq ne stands =>
    obtain ⟨inner, last, rfl⟩ := (List.eq_nil_or_concat r).resolve_left ne
    rw [List.concat_eq_append] at eq stands
    rw [← List.append_assoc] at eq
    obtain ⟨rfl, same⟩ := List.append_inj' eq rfl
    obtain rfl := List.singleton_inj.mp same
    exact .inr ⟨inner, rfl, stands⟩
  | folded p tag eq mem => exact absurd mem (no_tag eq)
  | tagged tag old eq mem => exact absurd mem (no_tag eq)

theorem LinkedAtRoot.set (h : es.LinkedAtRoot) (noTag : ∀ k ∈ path, k ∉ Key.tags)
    (noLink : ∀ k ∈ path, k ∉ Key.links) (distinct : n.Distinct) (hn : n.Unlinked) :
    (es.set path n).LinkedAtRoot := by
  intro q k mem stands
  rcases has_of_has_set noTag distinct (Key.not_mem_tags_of_mem_links k mem)
    (fun hp => noLink k hp mem) stands with stood | ⟨r, _, inner⟩
  · exact h q k mem stood
  · exact absurd inner (hn r k mem)

theorem LinkedAtRoot.unset (h : es.LinkedAtRoot) (noTag : ∀ k ∈ path, k ∉ Key.tags)
    (noLink : ∀ k ∈ path, k ∉ Key.links) : (es.unset path).LinkedAtRoot := by
  have markTag : ∀ k ∈ path ++ [Key.stop], k ∉ Key.tags :=
    List.forall_mem_append.mpr ⟨noTag, by decide⟩
  have markLink : ∀ k ∈ path ++ [Key.stop], k ∉ Key.links :=
    List.forall_mem_append.mpr ⟨noLink, by decide⟩
  have cleared : (es.set path .null).LinkedAtRoot := h.set noTag noLink
    (Node.distinct_of_entries?_eq_none rfl) (Node.unlinked_of_entries?_eq_none rfl)
  exact cleared.set markTag markLink (Node.distinct_of_entries?_eq_none rfl)
    (Node.unlinked_of_entries?_eq_none rfl)

/-- A copy brings no links, since its source has none below it: neither is it a prototype, nor does
it end in a key of the tree's own, as the prototypes together do. -/
theorem LinkedAtRoot.copy (h : es.LinkedAtRoot) (es_distinct : es.Distinct)
    (noTag : ∀ k ∈ path, k ∉ Key.tags) (noLink : ∀ k ∈ path ++ source, k ∉ Key.links)
    (part : Key.isPrototypePath source = false) (ne_nil : source ≠ [])
    (all : source ≠ [Key.prototypes]) : (es.copy path source).LinkedAtRoot := by
  obtain ⟨noLinkPath, noLinkSource⟩ := List.forall_mem_append.mp noLink
  obtain ⟨distinct, _⟩ := es_distinct.materialize source
  have looked : LinkedAtRoot (es.materialize source).2 := by
    intro q k mem stands
    rcases has_of_has_materialize (by simp) stands with stood | le
    · exact h q k mem stood
    · exact absurd mem (noLinkSource k (le.subset (by simp)))
  have found : (es.materialize source).1.Unlinked := by
    intro r k mem stands
    have stood := has_of_materialized ne_nil (by simp) stands
    rw [← List.append_assoc] at stood
    obtain ⟨name, eq⟩ := h _ k mem stood
    rcases source with _ | ⟨x, _ | ⟨y, more⟩⟩
    · exact ne_nil rfl
    · exact all (by rw [(List.cons.inj eq).1])
    · obtain ⟨first, eq⟩ := List.cons.inj eq
      obtain ⟨rfl, _⟩ := List.append_eq_nil_iff.mp (List.cons.inj eq).2
      exact absurd part (by simp [Key.isPrototypePath, first])
  exact looked.set noTag noLinkPath distinct found

/-- Naming the parent of a prototype at the root puts a link where links belong. -/
theorem LinkedAtRoot.inherit (h : es.LinkedAtRoot) {name : String} (parent : String)
    (noTag : name ∉ Key.tags) (noLink : name ∉ Key.links) :
    (es.set [Key.prototypes, name, Key.parent] (.string parent)).LinkedAtRoot := by
  have places : Key.prototypes ∉ Key.tags ∧ Key.parent ∉ Key.tags ∧ Key.prototypes ∉ Key.links := by
    decide
  intro q k mem stands
  have no_tag {p : List String} {tag : String} (eq : q ++ [k] = p ++ [tag]) : tag ∉ Key.tags := by
    rw [← List.singleton_inj.mp (List.append_inj' eq rfl).2]
    exact Key.not_mem_tags_of_mem_links k mem
  cases written_of_has_set (by simp [places, noTag]) (Node.distinct_of_entries?_eq_none rfl)
    (by simp) stands with
  | old stood => exact h q k mem stood
  | way le =>
    rcases q with _ | ⟨x, _ | ⟨y, _ | ⟨z, rest⟩⟩⟩
    · obtain ⟨rfl, _⟩ := List.cons_prefix_cons.mp le
      exact absurd mem places.2.2
    · obtain ⟨_, le⟩ := List.cons_prefix_cons.mp le
      obtain ⟨rfl, _⟩ := List.cons_prefix_cons.mp le
      exact absurd mem noLink
    · exact ⟨y, by rw [(List.cons_prefix_cons.mp le).1]⟩
    · have short := le.length_le
      simp only [List.length_append, List.length_cons, List.length_nil] at short
      omega
  | inside r eq ne inner =>
    obtain ⟨_, _, rfl⟩ := List.exists_cons_of_ne_nil ne
    obtain ⟨_, isMap⟩ := inner.exists_map
    cases isMap
  | folded p tag eq own => exact absurd own (no_tag eq)
  | tagged tag old eq own => exact absurd own (no_tag eq)

/-! ### Linking -/

theorem has_of_has_writeChain {prototypes : Entries} {name : String} {chain p : List String}
    (h : (Node.map (prototypes.writeChain name chain)).Has p) :
    (Node.map prototypes).Has p ∨ p = [name, Key.chain] := by
  unfold writeChain at h
  split at h
  · rename_i es hes
    rcases p with _ | ⟨x, p⟩
    · exact .inl rfl
    rcases has_cons_of_insert h with ⟨rfl, inner⟩ | stood
    · rcases p with _ | ⟨y, p⟩
      · exact .inl (Node.has_cons_iff.mpr ⟨_, hes, rfl⟩)
      rcases has_cons_of_insert inner with ⟨rfl, below⟩ | stood
      · cases p with
        | nil => exact .inr rfl
        | cons z p =>
          obtain ⟨_, isMap⟩ := below.exists_map
          cases isMap
      · exact .inl (Node.has_cons_iff.mpr ⟨_, hes, stood⟩)
    · exact .inl stood
  · exact .inl h

theorem LinkedAtRoot.linkPrototypes {linked : Entries} (h : es.LinkedAtRoot)
    (hl : es.linkPrototypes = .ok linked) : linked.LinkedAtRoot := by
  -- Everything in the prototypes after linking was there before, or is a chain in a prototype.
  obtain rfl | ⟨ps, written, rfl⟩ := linkPrototypes_induction
    hl (fun ps hp p (stands : (Node.map ps).Has p) =>
      show (Node.map es).Has (Key.prototypes :: p) ∨ ∃ name, p = [name, Key.chain] from
        .inl (Node.has_cons_iff.mpr ⟨_, hp, stands⟩))
    fun ps name chain kept p stands =>
      (has_of_has_writeChain stands).elim (kept p) fun eq => .inr ⟨name, eq⟩
  · exact h
  intro q k mem stands
  rcases q with _ | ⟨x, q⟩
  · rcases has_cons_of_insert (p := []) stands with ⟨rfl, _⟩ | stood
    · exact absurd mem (by decide)
    · exact h [] k mem stood
  · rcases has_cons_of_insert (p := q ++ [k]) stands with ⟨rfl, inner⟩ | stood
    · rcases written _ inner with stood | ⟨name, eq⟩
      · exact h _ k mem stood
      · have eq : q ++ [k] = [name] ++ [Key.chain] := eq
        exact ⟨name, by rw [(List.append_inj' eq rfl).1]⟩
    · exact h _ k mem stood

end Entries

end FusionTree
