import FusionTree.Proofs.Tree.Ancestry

/-!
# What linking prototypes writes

Linking looks up the ancestors of every prototype before it writes any, so it fails as a whole or
not at all. It writes one key into every prototype that has a parent. The parents are then what they
were, so that linking once more writes the same again.
-/

namespace FusionTree

namespace Entries

variable {prototypes : Entries} {name : String} {chain : List String}

/-! ### The chains of all prototypes -/

/-- Every name has a chain, and those that are not empty are listed. -/
theorem chains_eq_ok {names : List String} {found : List (String × List String)}
    (h : prototypes.chains names = .ok found) :
    (∀ n ∈ names, ∃ c, prototypes.chainOf n = .ok c) ∧
      ∀ n c, (n, c) ∈ found ↔ n ∈ names ∧ prototypes.chainOf n = .ok c ∧ c ≠ [] := by
  induction names generalizing found with
  | nil =>
    cases h
    simp
  | cons m rest ih =>
    rw [chains] at h
    split at h
    · cases h
    · rename_i c hc
      cases hr : prototypes.chains rest with
      | error e =>
        rw [hr] at h
        cases h
      | ok more =>
        rw [hr] at h
        obtain ⟨all, listed⟩ := ih hr
        refine ⟨List.forall_mem_cons.mpr ⟨⟨c, hc⟩, all⟩, fun n c' => ?_⟩
        obtain rfl : (if c.isEmpty then more else (m, c) :: more) = found := Except.ok.inj h
        by_cases empty : c = []
        · subst empty
          grind
        · grind

/-- The first name without a chain is told, with its walk. -/
theorem chains_eq_error {names : List String} {walked : List String}
    (h : prototypes.chains names = .error (name, walked)) :
    ∃ before after, names = before ++ name :: after ∧
      (∀ n ∈ before, ∃ c, prototypes.chainOf n = .ok c) ∧
      prototypes.chainOf name = .error walked := by
  induction names with
  | nil => cases h
  | cons m rest ih =>
    rw [chains] at h
    split at h
    · rename_i walked' hw
      cases h
      exact ⟨[], rest, rfl, by simp, hw⟩
    · rename_i c hc
      cases hr : prototypes.chains rest with
      | ok more =>
        rw [hr] at h
        cases h
      | error e =>
        rw [hr] at h
        cases h
        obtain ⟨before, after, rfl, chained, failed⟩ := ih hr
        exact ⟨m :: before, after, rfl, List.forall_mem_cons.mpr ⟨⟨c, hc⟩, chained⟩, failed⟩

/-! ### Writing chains -/

def nodeOfNames (names : List String) : Node :=
  .list (names.map .string)

theorem writeChain_of_map {es : Entries} (h : prototypes.get? name = some (.map es)) :
    prototypes.writeChain name chain =
      prototypes.insert name (.map (es.insert Key.chain (nodeOfNames chain))) := by
  rw [writeChain, h]
  rfl

theorem keys_writeChain (prototypes : Entries) (name : String) (chain : List String) :
    (prototypes.writeChain name chain).keys = prototypes.keys := by
  unfold writeChain
  split
  · rename_i es h
    have present : name ∈ prototypes.keys := by
      by_contra absent
      rw [get?_eq_none_iff.mpr absent] at h
      cases h
    exact keys_insert_of_mem _ present
  · rfl

theorem get?_writeChain_of_ne {other : String} (h : other ≠ name) :
    (prototypes.writeChain name chain).get? other = prototypes.get? other := by
  unfold writeChain
  split
  · exact get?_insert_of_ne h
  · rfl

def writeChains (prototypes : Entries) (found : List (String × List String)) : Entries :=
  found.foldl (fun ps (name, chain) => writeChain ps name chain) prototypes

theorem writeChains_cons (prototypes : Entries) (name : String) (chain : List String)
    (found : List (String × List String)) :
    prototypes.writeChains ((name, chain) :: found) =
      (prototypes.writeChain name chain).writeChains found := rfl

theorem keys_writeChains (prototypes : Entries) (found : List (String × List String)) :
    (prototypes.writeChains found).keys = prototypes.keys := by
  induction found generalizing prototypes with
  | nil => rfl
  | cons entry rest ih => rw [writeChains_cons, ih, keys_writeChain]

theorem get?_writeChains_of_not_mem {found : List (String × List String)}
    (h : ∀ c, (name, c) ∉ found) :
    (prototypes.writeChains found).get? name = prototypes.get? name := by
  induction found generalizing prototypes with
  | nil => rfl
  | cons entry rest ih =>
    obtain ⟨n, c⟩ := entry
    have ne : name ≠ n := by
      rintro rfl
      exact h c List.mem_cons_self
    rw [writeChains_cons, ih fun c' hc' => h c' (List.mem_cons_of_mem _ hc'),
      get?_writeChain_of_ne ne]

/-- A prototype gets the chain listed for it, however often it is listed. -/
theorem get?_writeChains_of_mem {found : List (String × List String)}
    (functional : ∀ c, (name, c) ∈ found → c = chain) (h : (name, chain) ∈ found) {es : Entries}
    (hes : prototypes.get? name = some (.map es)) :
    (prototypes.writeChains found).get? name =
      some (.map (es.insert Key.chain (nodeOfNames chain))) := by
  induction found generalizing prototypes es with
  | nil => cases h
  | cons entry rest ih =>
    obtain ⟨n, c⟩ := entry
    have functional' : ∀ c', (name, c') ∈ rest → c' = chain :=
      fun c' hc' => functional c' (List.mem_cons_of_mem _ hc')
    rw [writeChains_cons]
    by_cases hn : name = n
    · subst hn
      obtain rfl : c = chain := functional c List.mem_cons_self
      rw [writeChain_of_map hes]
      by_cases again : (name, c) ∈ rest
      · rw [ih functional' again (get?_insert_self _ _ _), insert_insert_self]
      · have only : ∀ c', (name, c') ∉ rest := by
          intro c' hc'
          obtain rfl := functional' c' hc'
          exact again hc'
        rw [get?_writeChains_of_not_mem only, get?_insert_self]
    · have listed : (name, chain) ∈ rest := by
        rcases List.mem_cons.mp h with h | h
        · exact absurd (congrArg Prod.fst h) hn
        · exact h
      exact ih functional' listed (by rw [get?_writeChain_of_ne hn, hes])

/-- Writing chains that are there already changes nothing. -/
theorem writeChains_eq_self {found : List (String × List String)}
    (h : ∀ n c, (n, c) ∈ found → ∃ es : Entries, prototypes.get? n = some (.map es) ∧
      es.get? Key.chain = some (nodeOfNames c)) :
    prototypes.writeChains found = prototypes := by
  induction found with
  | nil => rfl
  | cons entry rest ih =>
    obtain ⟨n, c⟩ := entry
    obtain ⟨es, hes, written⟩ := h n c List.mem_cons_self
    rw [writeChains_cons, writeChain_of_map hes, insert_of_get? written, insert_of_get? hes]
    exact ih fun n' c' hc' => h n' c' (List.mem_cons_of_mem _ hc')

/-! ### Linked prototypes -/

/-- The second prototypes are the first ones, with the ancestors of each written into it if it has
any. -/
structure LinkTo (prototypes linked : Entries) : Prop where
  keys : linked.keys = prototypes.keys
  child : ∀ name parent, prototypes.parentOf? name = some parent →
    ∃ (es : Entries) (chain : List String), prototypes.get? name = some (.map es) ∧
      prototypes.IsLineage name chain ∧
      linked.get? name = some (.map (es.insert Key.chain (nodeOfNames chain)))
  orphan : ∀ name, prototypes.parentOf? name = none → linked.get? name = prototypes.get? name

theorem exists_map_of_parentOf? {parent : String} (h : prototypes.parentOf? name = some parent) :
    ∃ es : Entries, prototypes.get? name = some (.map es) := by
  simp only [parentOf?, Option.bind_eq_some_iff] at h
  obtain ⟨_, ⟨n, hn, hp⟩, _⟩ := h
  obtain ⟨es, rfl, _⟩ := Node.get?_eq_some_iff.mp hp
  exact ⟨es, hn⟩

theorem mem_keys_of_parentOf? {parent : String} (h : prototypes.parentOf? name = some parent) :
    name ∈ prototypes.keys := by
  obtain ⟨es, hes⟩ := exists_map_of_parentOf? h
  by_contra absent
  rw [get?_eq_none_iff.mpr absent] at hes
  cases hes

theorem linkTo_writeChains {found : List (String × List String)}
    (h : prototypes.chains prototypes.keys = .ok found) :
    prototypes.LinkTo (prototypes.writeChains found) := by
  obtain ⟨all, listed⟩ := chains_eq_ok h
  refine ⟨keys_writeChains _ _, fun name parent hp => ?_, fun name hp => ?_⟩
  · obtain ⟨es, hes⟩ := exists_map_of_parentOf? hp
    have mem := mem_keys_of_parentOf? hp
    obtain ⟨chain, hc⟩ := all name mem
    have lineage := (completes_of_chainOf hc).isLineage
    have some_ancestor : chain ≠ [] := by
      rintro rfl
      rw [lineage.eq_nil_iff.mp rfl] at hp
      cases hp
    refine ⟨es, chain, hes, lineage, get?_writeChains_of_mem ?_ ?_ hes⟩
    · intro c hm
      exact Except.ok.inj (((listed name c).mp hm).2.1.symm.trans hc)
    · exact (listed name chain).mpr ⟨mem, hc, some_ancestor⟩
  · refine get?_writeChains_of_not_mem fun c hm => ?_
    obtain ⟨_, hc, some_ancestor⟩ := (listed name c).mp hm
    exact some_ancestor ((completes_of_chainOf hc).isLineage.eq_nil_iff.mpr hp)

namespace LinkTo

variable {linked : Entries}

/-- Linking does not change who inherits from whom. -/
theorem parentOf? (h : prototypes.LinkTo linked) (name : String) :
    linked.parentOf? name = prototypes.parentOf? name := by
  cases hp : prototypes.parentOf? name with
  | none => rw [Entries.parentOf?, h.orphan name hp, ← Entries.parentOf?, hp]
  | some parent =>
    obtain ⟨es, chain, hes, _, hl⟩ := h.child name parent hp
    have kept : (es.insert Key.chain (nodeOfNames chain)).get? Key.parent = es.get? Key.parent :=
      get?_insert_of_ne (by decide)
    rw [← hp, Entries.parentOf?, Entries.parentOf?, hl, hes]
    simp only [Option.bind_some, Node.get?_map, kept]

theorem walk (h : prototypes.LinkTo linked) (name : String) (i : Nat) :
    linked.walk name i = prototypes.walk name i := by
  induction i with
  | zero => rfl
  | succ i ih =>
    have same : linked.parentOf? = prototypes.parentOf? := funext h.parentOf?
    rw [Entries.walk, Entries.walk, ih, same]

theorem chains (h : prototypes.LinkTo linked) {found : List (String × List String)}
    (hf : prototypes.chains prototypes.keys = .ok found) :
    ∃ again, linked.chains linked.keys = .ok again ∧ linked.writeChains again = linked := by
  obtain ⟨all, _⟩ := chains_eq_ok hf
  cases hl : linked.chains linked.keys with
  | error e =>
    obtain ⟨name, names⟩ := e
    obtain ⟨before, after, hk, _, failed⟩ := chains_eq_error hl
    have mem : name ∈ prototypes.keys := by
      rw [← h.keys, hk]
      simp
    have returns := returnsBy_of_chainOf failed
    obtain ⟨i, j, n, hij, hi, hj⟩ := returns.revisits
    rw [h.walk] at hi hj
    exact absurd ⟨i, j, n, hij, hi, hj⟩ (exists_chainOf_iff.mp (all name mem))
  | ok again =>
    refine ⟨again, rfl, writeChains_eq_self fun n c hm => ?_⟩
    obtain ⟨_, hc, some_ancestor⟩ := ((chains_eq_ok hl).2 n c).mp hm
    have lineage := (completes_of_chainOf hc).isLineage
    cases hp : prototypes.parentOf? n with
    | none => exact absurd (lineage.eq_nil_iff.mpr ((h.parentOf? n).trans hp)) some_ancestor
    | some parent =>
      obtain ⟨es, chain, _, before, written⟩ := h.child n parent hp
      have same : prototypes.IsLineage n c :=
        ⟨fun i => (lineage.ancestors i).trans (h.walk n _), lineage.nodup, lineage.self⟩
      obtain rfl := same.unique before
      exact ⟨_, written, get?_insert_self _ _ _⟩

end LinkTo

/-! ### Linking a tree -/

def prototypesOf (es : Entries) : Entries :=
  match es.get? Key.prototypes with
  | some (.map prototypes) => prototypes
  | _ => []

def HasPrototypes (es prototypes : Entries) : Prop :=
  es.get? Key.prototypes = some (.map prototypes)

/-- The second tree is the first one with its prototypes linked, and the same otherwise. -/
structure Linked (es linked : Entries) : Prop where
  prototypes : ∀ ps, es.HasPrototypes ps →
    ∃ ps', linked = es.insert Key.prototypes (.map ps') ∧ ps.LinkTo ps'
  without : (∀ ps, ¬es.HasPrototypes ps) → linked = es

variable {es : Entries}

theorem prototypesOf_eq (h : es.HasPrototypes prototypes) : es.prototypesOf = prototypes := by
  rw [prototypesOf, h]

theorem linkPrototypes_eq (h : es.HasPrototypes prototypes) :
    es.linkPrototypes = match prototypes.chains prototypes.keys with
      | .error (name, walked) => .error ⟨.recursiveInheritance name walked, Span.dummy⟩
      | .ok found => .ok (es.insert Key.prototypes (.map (prototypes.writeChains found))) := by
  rw [linkPrototypes, h]
  rfl

theorem prototypesOf_eq_nil (h : ∀ ps, ¬es.HasPrototypes ps) : es.prototypesOf = [] := by
  unfold prototypesOf
  split
  · rename_i ps hp
    exact absurd hp (h ps)
  · rfl

theorem linkPrototypes_eq_self (h : ∀ ps, ¬es.HasPrototypes ps) :
    es.linkPrototypes = .ok es := by
  unfold linkPrototypes
  split
  · rename_i ps hp
    exact absurd hp (h ps)
  · rfl

/-- Linking succeeds where no walk comes to a name twice. -/
theorem exists_linkPrototypes_iff :
    (∃ linked, es.linkPrototypes = .ok linked) ↔
      ∀ name ∈ es.prototypesOf.keys, ¬es.prototypesOf.Revisits name := by
  by_cases h : ∃ ps, es.HasPrototypes ps
  · obtain ⟨ps, hp⟩ := h
    rw [linkPrototypes_eq hp, prototypesOf_eq hp]
    cases hc : ps.chains ps.keys with
    | ok found =>
      obtain ⟨all, _⟩ := chains_eq_ok hc
      simp only [Except.ok.injEq, exists_eq', true_iff]
      intro name hm
      exact exists_chainOf_iff.mp (all name hm)
    | error e =>
      obtain ⟨name, walked⟩ := e
      obtain ⟨before, after, hk, _, failed⟩ := chains_eq_error hc
      simp only [reduceCtorEq, exists_false, false_iff]
      intro once
      have mem : name ∈ ps.keys := by
        rw [hk]
        simp
      exact once name mem (returnsBy_of_chainOf failed).revisits
  · have none : ∀ ps, ¬es.HasPrototypes ps := not_exists.mp h
    rw [linkPrototypes_eq_self none, prototypesOf_eq_nil none]
    simp [keys]

theorem linked_of_linkPrototypes {linked : Entries} (h : es.linkPrototypes = .ok linked) :
    es.Linked linked := by
  refine ⟨fun ps hp => ?_, fun none => ?_⟩
  · rw [linkPrototypes_eq hp] at h
    cases hc : ps.chains ps.keys with
    | ok found =>
      rw [hc] at h
      exact ⟨_, (Except.ok.inj h).symm, linkTo_writeChains hc⟩
    | error e =>
      rw [hc] at h
      cases h
  · rw [linkPrototypes_eq_self none] at h
    exact (Except.ok.inj h).symm

/-- Linking what is linked already changes nothing. -/
theorem linkPrototypes_linked {linked : Entries} (h : es.linkPrototypes = .ok linked) :
    linked.linkPrototypes = .ok linked := by
  by_cases hps : ∃ ps, es.HasPrototypes ps
  · obtain ⟨ps, hp⟩ := hps
    rw [linkPrototypes_eq hp] at h
    cases hc : ps.chains ps.keys with
    | ok found =>
      rw [hc] at h
      obtain rfl := Except.ok.inj h
      obtain ⟨again, hagain, same⟩ := (linkTo_writeChains hc).chains hc
      have hp' : (es.insert Key.prototypes (.map (ps.writeChains found))).HasPrototypes
          (ps.writeChains found) := get?_insert_self _ _ _
      rw [linkPrototypes_eq hp', hagain]
      simp only [same, insert_insert_self]
    | error e =>
      rw [hc] at h
      cases h
  · have none : ∀ ps, ¬es.HasPrototypes ps := not_exists.mp hps
    have same := h
    rw [linkPrototypes_eq_self none] at same
    obtain rfl := Except.ok.inj same
    exact h

/-- Linking fails with the first prototype whose walk comes to a name twice. -/
theorem exists_of_linkPrototypes_eq_error {problem : Problem}
    (h : es.linkPrototypes = .error problem) :
    ∃ before name after walked, es.prototypesOf.keys = before ++ name :: after ∧
      (∀ n ∈ before, ¬es.prototypesOf.Revisits n) ∧ es.prototypesOf.ReturnsBy name walked ∧
      problem = ⟨.recursiveInheritance name walked, Span.dummy⟩ := by
  by_cases hps : ∃ ps, es.HasPrototypes ps
  · obtain ⟨ps, hp⟩ := hps
    rw [linkPrototypes_eq hp] at h
    rw [prototypesOf_eq hp]
    cases hc : ps.chains ps.keys with
    | ok found =>
      rw [hc] at h
      cases h
    | error e =>
      obtain ⟨name, walked⟩ := e
      rw [hc] at h
      obtain ⟨before, after, hk, chained, failed⟩ := chains_eq_error hc
      exact ⟨before, name, after, walked, hk, fun n hn => exists_chainOf_iff.mp (chained n hn),
        returnsBy_of_chainOf failed, (Except.error.inj h).symm⟩
  · rw [linkPrototypes_eq_self (not_exists.mp hps)] at h
    cases h

/-! ### Linking in place -/

def writeChainIn (name : String) (chain : List String) (es : Entries) : Entries :=
  match es.get? Key.prototypes with
  | some (.map prototypes) => es.insert Key.prototypes (.map (writeChain prototypes name chain))
  | _ => es

/-- Links the prototypes of a tree in place, chain by chain. -/
def linkInPlace : EStateM Problem Entries Unit := do
  match (← get).get? Key.prototypes with
  | some (.map prototypes) =>
    match chains prototypes (keys prototypes) with
    | .error (name, walked) => throw ⟨.recursiveInheritance name walked, Span.dummy⟩
    | .ok found => found.forM fun (name, chain) => modify (writeChainIn name chain)
  | _ => pure ()

theorem forM_writeChainIn (h : es.HasPrototypes prototypes)
    (found : List (String × List String)) :
    (found.forM fun (name, chain) => modify (writeChainIn name chain) :
        EStateM Problem Entries Unit) es =
      .ok () (es.insert Key.prototypes (.map (prototypes.writeChains found))) := by
  induction found generalizing es prototypes with
  | nil =>
    rw [writeChains, List.foldl_nil, insert_of_get? h]
    rfl
  | cons entry rest ih =>
    obtain ⟨name, chain⟩ := entry
    have step : writeChainIn name chain es =
        es.insert Key.prototypes (.map (prototypes.writeChain name chain)) := by
      rw [writeChainIn, h]
    have has : (writeChainIn name chain es).HasPrototypes (prototypes.writeChain name chain) := by
      rw [step]
      exact get?_insert_self _ _ _
    have written := ih has
    rw [step, insert_insert_self, ← writeChains_cons] at written
    rw [← written, ← step]
    rfl

/-- Linking in place leaves what linking gives, and the tree as it was where linking fails. -/
theorem linkInPlace_eq (es : Entries) :
    linkInPlace es = match es.linkPrototypes with
      | .ok linked => .ok () linked
      | .error problem => .error problem es := by
  have after_get (k : Entries → EStateM Problem Entries Unit) : (get >>= k) es = k es es := rfl
  rw [linkInPlace, after_get, linkPrototypes]
  cases h : es.get? Key.prototypes with
  | none => rfl
  | some n =>
    cases n with
    | map prototypes =>
      cases hc : chains prototypes (keys prototypes) with
      | error e =>
        simp only [hc]
        rfl
      | ok found =>
        simp only [hc]
        exact forM_writeChainIn h found
    | _ => rfl

/-- Linking succeeds where no walk from a prototype comes to a name twice. It writes to every
prototype its ancestors and nothing else, so that linking again changes nothing. Where it fails it
leaves the tree alone and tells the first prototype whose walk comes back, with that walk. -/
theorem linkPrototypes_along_walks (es : Entries) :
    ((∃ linked, es.linkPrototypes = .ok linked) ↔
      ∀ name ∈ es.prototypesOf.keys, ¬es.prototypesOf.Revisits name) ∧
    (∀ linked, es.linkPrototypes = .ok linked →
      linkInPlace es = .ok () linked ∧ es.Linked linked ∧ linked.linkPrototypes = .ok linked) ∧
    ∀ problem, es.linkPrototypes = .error problem →
      linkInPlace es = .error problem es ∧
      ∃ before name after walked, es.prototypesOf.keys = before ++ name :: after ∧
        (∀ n ∈ before, ¬es.prototypesOf.Revisits n) ∧ es.prototypesOf.ReturnsBy name walked ∧
        problem = ⟨.recursiveInheritance name walked, Span.dummy⟩ := by
  refine ⟨exists_linkPrototypes_iff, fun linked h => ⟨?_, ?_, ?_⟩, fun problem h => ⟨?_, ?_⟩⟩
  · rw [linkInPlace_eq, h]
  · exact linked_of_linkPrototypes h
  · exact linkPrototypes_linked h
  · rw [linkInPlace_eq, h]
  · exact exists_of_linkPrototypes_eq_error h

def inheriting (name parent : String) : String × Node :=
  (name, .map [(Key.parent, .string parent)])

/-- `A` inherits from `B`, which inherits from `C`, which no prototype declares. -/
def sampleLine : Entries :=
  [(Key.prototypes, .map [inheriting "A" "B", inheriting "B" "C"])]

/-- `A` inherits from `B`, and `B` and `C` from each other. -/
def sampleCycle : Entries :=
  [(Key.prototypes, .map [inheriting "A" "B", inheriting "B" "C", inheriting "C" "B"])]

/-- One tree whose walks end, and one with a walk that comes back to another name than its first. -/
theorem linkPrototypes_along_walks_of_samples :
    (∃ linked, sampleLine.linkPrototypes = .ok linked ∧ linkInPlace sampleLine = .ok () linked ∧
      linked.linkPrototypes = .ok linked) ∧
    ∃ problem walked, sampleCycle.linkPrototypes = .error problem ∧
      linkInPlace sampleCycle = .error problem sampleCycle ∧
      problem.cause = .recursiveInheritance "A" walked := by
  constructor
  · obtain ⟨_, onSuccess, _⟩ := linkPrototypes_along_walks sampleLine
    have succeeds : sampleLine.linkPrototypes.isOk = true := by decide +kernel
    cases h : sampleLine.linkPrototypes with
    | ok linked =>
      obtain ⟨inPlace, _, again⟩ := onSuccess linked h
      exact ⟨linked, rfl, inPlace, again⟩
    | error problem => simp [h, Except.isOk, Except.toBool] at succeeds
  · obtain ⟨succeeds, _, onFailure⟩ := linkPrototypes_along_walks sampleCycle
    have comes_back : sampleCycle.prototypesOf.Revisits "A" :=
      ⟨1, 3, "B", by decide, by decide, by decide⟩
    cases h : sampleCycle.linkPrototypes with
    | ok linked => exact absurd comes_back (succeeds.mp ⟨linked, h⟩ "A" (by decide))
    | error problem =>
      obtain ⟨inPlace, before, name, after, walked, hk, once, _, rfl⟩ := onFailure problem h
      cases before with
      | nil =>
        obtain rfl : "A" = name := (List.cons.inj hk).1
        exact ⟨_, walked, rfl, inPlace, rfl⟩
      | cons first more =>
        obtain rfl : "A" = first := (List.cons.inj hk).1
        exact absurd comes_back (once "A" List.mem_cons_self)

end Entries

end FusionTree
