import FusionTree.Proofs.Tree.Reading
import FusionTree.Tree.Hierarchy

/-!
# What linking prototypes leaves

Linking writes one key into prototypes at the root and nothing else, so a reading that does not end
at the prototypes as a whole and does not pass that key finds what it found before.
-/

namespace FusionTree

/-- The second node is the first one, with a chain of ancestors written into it or not. -/
def Node.LinkedTo (n m : Node) : Prop :=
  m = n ∨ ∃ (es : Entries) (chain : Node), n = .map es ∧ m = .map (es.insert Key.chain chain)

namespace Node.LinkedTo

theorem refl (n : Node) : n.LinkedTo n := .inl rfl

theorem trans {n m k : Node} (h : n.LinkedTo m) (h' : m.LinkedTo k) : n.LinkedTo k := by
  rcases h with rfl | ⟨es, chain, rfl, rfl⟩
  · exact h'
  · rcases h' with rfl | ⟨es', chain', he, rfl⟩
    · exact .inr ⟨es, chain, rfl, rfl⟩
    · obtain rfl : es.insert Key.chain chain = es' := Node.map.inj he
      exact .inr ⟨es, chain', rfl, by rw [Entries.insert_insert_self]⟩

/-- Only the key of the chain may be read differently. -/
theorem get? {n m : Node} (h : n.LinkedTo m) {key : String} (hk : key ≠ Key.chain) :
    m.get? key = n.get? key := by
  rcases h with rfl | ⟨es, chain, rfl, rfl⟩
  · rfl
  · exact Entries.get?_insert_of_ne hk

theorem at?_cons {n m : Node} (h : n.LinkedTo m) {key : String} (hk : key ≠ Key.chain)
    (rest : List String) : m.at? (key :: rest) = n.at? (key :: rest) := by
  rw [Node.at?_cons, Node.at?_cons, h.get? hk]

end Node.LinkedTo

namespace Entries

theorem linkedTo_writeChain (prototypes : Entries) (name : String) (chain : List String)
    {key : String} {n : Node} (h : prototypes.get? key = some n) :
    ∃ m, (prototypes.writeChain name chain).get? key = some m ∧ n.LinkedTo m := by
  unfold writeChain
  split
  · rename_i es hes
    by_cases hk : key = name
    · subst hk
      rw [get?_insert_self]
      exact ⟨_, rfl, .inr ⟨es, _, Option.some.inj (h.symm.trans hes), rfl⟩⟩
    · rw [get?_insert_of_ne hk, h]
      exact ⟨n, rfl, .refl n⟩
  · exact ⟨n, h, .refl n⟩

theorem linkedTo_foldl_writeChain (chains : List (String × List String)) (prototypes : Entries)
    {key : String} {n : Node} (h : prototypes.get? key = some n) :
    ∃ m, Entries.get? (chains.foldl (fun ps (name, chain) => writeChain ps name chain) prototypes)
      key = some m ∧ n.LinkedTo m := by
  induction chains generalizing prototypes n with
  | nil => exact ⟨n, h, .refl n⟩
  | cons entry rest ih =>
    obtain ⟨m, hm, hn⟩ := linkedTo_writeChain prototypes entry.1 entry.2 h
    obtain ⟨k, hk, hmk⟩ := ih _ hm
    exact ⟨k, hk, hn.trans hmk⟩

/-- Linking writes nothing but chains, and only into prototypes at the root. -/
theorem linkPrototypes_eq_ok {es linked : Entries} (h : es.linkPrototypes = .ok linked) :
    linked = es ∨ ∃ (prototypes : Entries) (chains : List (String × List String)),
      es.get? Key.prototypes = some (.map prototypes) ∧
      linked = es.insert Key.prototypes
        (.map (chains.foldl (fun ps (name, chain) => writeChain ps name chain) prototypes)) := by
  unfold linkPrototypes at h
  split at h
  · rename_i prototypes hp
    split at h
    · cases h
    · rename_i chains _
      exact .inr ⟨prototypes, chains, hp, (Except.ok.inj h).symm⟩
  · exact .inl (Except.ok.inj h).symm

/-- What holds of the prototypes, and is kept when one of them gets a chain, holds of them
afterwards. -/
theorem linkPrototypes_induction {es linked : Entries} {P : Entries → Prop}
    (h : es.linkPrototypes = .ok linked)
    (start : ∀ ps, es.get? Key.prototypes = some (.map ps) → P ps)
    (step : ∀ ps name chain, P ps → P (ps.writeChain name chain)) :
    linked = es ∨ ∃ ps, P ps ∧ linked = es.insert Key.prototypes (.map ps) := by
  obtain rfl | ⟨prototypes, chains, hp, rfl⟩ := linkPrototypes_eq_ok h
  · exact .inl rfl
  refine .inr ⟨_, ?_, rfl⟩
  have holds := start prototypes hp
  clear hp h
  induction chains generalizing prototypes with
  | nil => exact holds
  | cons entry rest ih => exact ih _ (step _ entry.1 entry.2 holds)

theorem at?_linkPrototypes {es linked : Entries} (h : es.linkPrototypes = .ok linked)
    {path : List String} {n : Node} (hn : (Node.map es).at? path = some n) (hp : path ≠ [])
    (whole : path ≠ [Key.prototypes])
    (past : ∀ name rest, path ≠ Key.prototypes :: name :: Key.chain :: rest) :
    ∃ m, (Node.map linked).at? path = some m ∧ n.LinkedTo m := by
  obtain rfl | ⟨prototypes, chains, hes, rfl⟩ := linkPrototypes_eq_ok h
  · exact ⟨n, hn, .refl n⟩
  obtain ⟨key, rest, rfl⟩ := List.exists_cons_of_ne_nil hp
  rw [Node.at?_map_cons] at hn ⊢
  by_cases hk : key = Key.prototypes
  · subst hk
    rw [get?_insert_self]
    rw [hes] at hn
    cases rest with
    | nil => exact absurd rfl whole
    | cons name more =>
      obtain ⟨_, child, he, hc, hb⟩ := Node.at?_cons_eq_some_iff.mp hn
      cases he
      obtain ⟨child', hc', hlink⟩ := linkedTo_foldl_writeChain chains prototypes hc
      simp only [Option.bind_some, Node.at?_map_cons, hc']
      cases more with
      | nil => cases hb; exact ⟨child', rfl, hlink⟩
      | cons k more =>
        rw [hlink.at?_cons (by rintro rfl; exact past name more rfl)]
        exact ⟨n, hb, .refl n⟩
  · rw [get?_insert_of_ne hk]
    exact ⟨n, hn, .refl n⟩

end Entries

end FusionTree
