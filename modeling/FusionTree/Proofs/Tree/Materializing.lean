import FusionTree.Proofs.Tree.Copying

/-!
# Looks, and copies of what is not there

A look and a write leave alone what is read elsewhere, except that a write tags a plain value in its
way. A look at a path makes the maps that a write would make on the way to it, as long as no plain
value stands there: a write tags such a value and goes on, a look gives up with null. So a copy of
nothing is a write of the empty map to both of its paths, unless its source runs through a plain
value.
-/

namespace FusionTree

namespace Entries

/-- Whether the path runs through a value that is neither a map nor null. -/
def Blocked (es : Entries) (path : List String) : Prop :=
  ∃ before n, before ≠ [] ∧ before <+: path ∧ before ≠ path ∧ es.getPath? before = some n ∧
    n.isNull = false ∧ n.entries? = none

variable {es : Entries} {key : String} {path other rest : List String}

/-! ### Ways without a plain value on them -/

theorem blocked_of_plain {n : Node} (h : es.get? key = some n) (hn : n.isNull = false)
    (plain : n.entries? = none) (hr : rest ≠ []) : es.Blocked (key :: rest) := by
  refine ⟨[key], n, by simp, by simp, by simpa using hr.symm, ?_, hn, plain⟩
  rw [getPath?_cons, h]
  rfl

theorem Blocked.cons {inner : Entries} (h : es.get? key = some (.map inner))
    (blocked : inner.Blocked rest) : es.Blocked (key :: rest) := by
  obtain ⟨before, n, hb, le, ne, at_before, hn, plain⟩ := blocked
  refine ⟨key :: before, n, by simp, by simpa using le, by simpa using ne, ?_, hn, plain⟩
  rw [getPath?_cons, h, Option.bind_some, ← getPath?_eq_at? inner hb, at_before]

theorem not_blocked_nil (path : List String) : ¬Blocked [] path := by
  rintro ⟨before, n, hb, -, -, at_before, -⟩
  obtain ⟨k, more, rfl⟩ := List.exists_cons_of_ne_nil hb
  simp [getPath?_cons] at at_before

/-- What stands in the way inside the entries that a write opens stands in the way already. -/
theorem Blocked.of_opened (h : (opened (es.get? key)).Blocked rest) (hr : rest ≠ []) :
    es.Blocked (key :: rest) := by
  rcases opened_cases (es.get? key) with
    empty | ⟨inner, hk, opens⟩ | ⟨n, hk, plain, notNull, -⟩
  · rw [empty] at h
    exact absurd h (not_blocked_nil rest)
  · rw [opens] at h
    exact Blocked.cons hk h
  · exact blocked_of_plain hk notNull plain hr

/-- What a way without a plain value goes on in: the entries that both a look and a write find. -/
theorem found_of_not_blocked (clear : ¬es.Blocked (key :: rest)) (hr : rest ≠ []) :
    es.found key = .map (opened (es.get? key)) := by
  cases h : es.get? key with
  | none => simp [found, h]
  | some n =>
    cases n with
    | null => simp [found, h, opened]
    | map inner => simp [found, h]
    | _ => exact absurd (blocked_of_plain h rfl rfl hr) clear

/-- The tags of a plain value hold plain values. -/
theorem plain_of_get?_taggedEntries {v n : Node} (plain : v.entries? = none)
    (h : (Node.taggedEntries v).get? key = some n) : key ∈ Key.tags ∧ n.entries? = none := by
  simp only [Node.taggedEntries, get?_cons, get?_nil] at h
  split at h
  · rename_i hk
    cases h
    exact ⟨by simp [Key.tags, ← hk], plain⟩
  · split at h
    · rename_i hk
      cases h
      exact ⟨by simp [Key.tags, ← hk], rfl⟩
    · split at h
      · rename_i hk
        cases h
        exact ⟨by simp [Key.tags, ← hk], rfl⟩
      · cases h

theorem at?_of_plain {n : Node} (plain : n.entries? = none) (hp : path ≠ []) :
    n.at? path = none := by
  obtain ⟨k, more, rfl⟩ := List.exists_cons_of_ne_nil hp
  simp [Node.at?_cons, Node.get?, plain]

/-- Reading goes on in what a write opens as it does in the tree, unless it ends at a tag that the
write makes. -/
theorem at?_opened (hp : path ≠ [])
    (h : ∀ n, es.get? key = some n → n.isNull = false → n.entries? = none →
      ∀ last, path.getLast? = some last → last ∉ Key.tags) :
    (Node.map (opened (es.get? key))).at? path = (Node.map es).at? (key :: path) := by
  rw [Node.at?_cons (.map es), Node.get?_map]
  have of_plain {v : Node} (hv : es.get? key = some v) (plain : v.entries? = none)
      (hn : v.isNull = false) : (Node.map (Node.taggedEntries v)).at? path = v.at? path := by
    obtain ⟨k, more, rfl⟩ := List.exists_cons_of_ne_nil hp
    rw [at?_of_plain plain hp, Node.at?_map_cons, Option.bind_eq_none_iff]
    intro child hc
    obtain ⟨tag, child_plain⟩ := plain_of_get?_taggedEntries plain hc
    by_cases hm : more = []
    · subst hm
      exact absurd tag (h v hv hn plain k rfl)
    · exact at?_of_plain child_plain hm
  cases hg : es.get? key with
  | none =>
    obtain ⟨k, more, rfl⟩ := List.exists_cons_of_ne_nil hp
    rfl
  | some n =>
    cases n with
    | null =>
      obtain ⟨k, more, rfl⟩ := List.exists_cons_of_ne_nil hp
      rfl
    | map inner => rfl
    | _ => exact of_plain hg rfl rfl

/-- Reading goes on in what a look finds as it does in the tree. -/
theorem at?_found (hp : path ≠ []) : (es.found key).at? path = (Node.map es).at? (key :: path) := by
  obtain ⟨k, more, rfl⟩ := List.exists_cons_of_ne_nil hp
  rw [Node.at?_cons (.map es), Node.get?_map]
  unfold found
  split
  · rename_i h
    rw [h]
    rfl
  · rename_i h
    rw [h]
    rfl
  · rename_i h
    rw [h]
    rfl

/-! ### Looks and writes -/

/-- Looking at nothing is writing the empty map. -/
theorem materialize_eq_set (hp : path ≠ [])
    (missing : es.getPath? path = none ∨ es.getPath? path = some .null)
    (clear : ¬es.Blocked path) :
    es.materialize path = (.map [], es.set path (.map [])) := by
  rw [getPath?_eq_at? es hp] at missing
  induction path generalizing es with
  | nil => exact absurd rfl hp
  | cons key rest ih =>
    by_cases hr : rest = []
    · subst hr
      rw [Node.at?_singleton, Node.get?_map] at missing
      rw [materialize_singleton, set_singleton]
      rcases missing with h | h <;> simp [found, write, h]
    · have below : ¬(opened (es.get? key)).Blocked rest :=
        fun blocked => clear (blocked.of_opened hr)
      have unplain {n : Node} (h : es.get? key = some n) (hn : n.isNull = false)
          (plain : n.entries? = none) : es.Blocked (key :: rest) := blocked_of_plain h hn plain hr
      rw [← at?_opened hr fun n h hn plain => absurd (unplain h hn plain) clear] at missing
      rw [materialize_cons_of_map hr (found_of_not_blocked clear hr), set_cons es key hr,
        ih hr missing below]

/-- A write leaves what is read, or not read, at a path that neither leads to the written one nor
goes on from it, unless that path ends at a tag of a plain value in the way. -/
theorem at?_set_of_aside (h : ¬path <+: other) (h' : ¬other <+: path)
    (untagged : es.Blocked path → ∀ last, other.getLast? = some last → last ∉ Key.tags) (n : Node) :
    (Node.map (es.set path n)).at? other = (Node.map es).at? other := by
  induction path generalizing es other with
  | nil => exact absurd List.nil_prefix h
  | cons key rest ih =>
    cases other with
    | nil => exact absurd List.nil_prefix h'
    | cons k more =>
      by_cases hk : k = key
      · subst hk
        simp only [List.cons_prefix_cons, true_and] at h h'
        have rest_ne : rest ≠ [] := by rintro rfl; exact h List.nil_prefix
        have more_ne : more ≠ [] := by rintro rfl; exact h' List.nil_prefix
        rw [List.getLast?_cons_of_ne_nil more_ne] at untagged
        rw [set_cons es k rest_ne, at?_insert_self,
          ih h h' fun blocked => untagged (blocked.of_opened rest_ne)]
        exact at?_opened more_ne fun v hv hn plain =>
          untagged (blocked_of_plain hv hn plain rest_ne)
      · rw [Node.at?_map_cons, Node.at?_map_cons, get?_set_of_ne es hk]

/-- A look leaves what is read, or not read, at such a path. It tags nothing. -/
theorem at?_materialize_of_aside (h : ¬path <+: other) (h' : ¬other <+: path) :
    (Node.map (es.materialize path).2).at? other = (Node.map es).at? other := by
  induction path generalizing es other with
  | nil => exact absurd List.nil_prefix h
  | cons key rest ih =>
    cases other with
    | nil => exact absurd List.nil_prefix h'
    | cons k more =>
      by_cases hk : k = key
      · subst hk
        simp only [List.cons_prefix_cons, true_and] at h h'
        have rest_ne : rest ≠ [] := by rintro rfl; exact h List.nil_prefix
        have more_ne : more ≠ [] := by rintro rfl; exact h' List.nil_prefix
        have found_at : (es.found k).at? more = (Node.map es).at? (k :: more) :=
          at?_found more_ne
        cases hf : (es.found k).entries? with
        | none =>
          rw [materialize_cons_of_leaf rest_ne hf, at?_insert_self, found_at]
        | some inner =>
          have he : es.found k = .map inner := Node.entries?_eq_some_iff.mp hf
          rw [materialize_cons_of_map rest_ne he, at?_insert_self, ih h h', ← he, found_at]
      · by_cases hr : rest = []
        · subst hr
          rw [materialize_singleton, at?_insert_of_ne hk]
        · cases hf : (es.found key).entries? with
          | none => rw [materialize_cons_of_leaf hr hf, at?_insert_of_ne hk]
          | some inner =>
            have he : es.found key = .map inner := Node.entries?_eq_some_iff.mp hf
            rw [materialize_cons_of_map hr he, at?_insert_of_ne hk]

/-! ### Writing the empty map -/

/-- The empty map leaves a map as it is. -/
theorem at?_set_empty_of_map (hp : path ≠ []) {old : Entries}
    (h : (Node.map es).at? path = some (.map old)) :
    (Node.map (es.set path (.map []))).at? path = some (.map old) := by
  rw [at?_set_self hp h]
  rfl

/-- A plain value on the way opens to plain values. -/
theorem at?_opened_ne_map (hp : path ≠ [])
    (h : ∀ old : Entries, (Node.map es).at? (key :: path) ≠ some (.map old)) (old : Entries) :
    (Node.map (opened (es.get? key))).at? path ≠ some (.map old) := by
  intro hm
  obtain ⟨k, more, rfl⟩ := List.exists_cons_of_ne_nil hp
  rcases opened_cases (es.get? key) with
    empty | ⟨inner, hk, opens⟩ | ⟨v, -, plain, -, opens⟩
  · rw [empty] at hm
    cases hm
  · rw [opens] at hm
    exact h old (Node.at?_cons_eq_some_iff.mpr ⟨_, _, rfl, hk, hm⟩)
  · rw [opens] at hm
    obtain ⟨_, child, he, hc, hb⟩ := Node.at?_cons_eq_some_iff.mp hm
    obtain rfl := Node.map.inj he
    obtain ⟨_, child_plain⟩ := plain_of_get?_taggedEntries plain hc
    cases more with
    | nil => cases hb; cases child_plain
    | cons k' more => rw [at?_of_plain child_plain (List.cons_ne_nil k' more)] at hb; cases hb

/-- The empty map replaces everything but a map. -/
theorem at?_set_empty_of_no_map (hp : path ≠ [])
    (h : ∀ old : Entries, (Node.map es).at? path ≠ some (.map old)) :
    (Node.map (es.set path (.map []))).at? path = some (.map []) := by
  induction path generalizing es with
  | nil => exact absurd rfl hp
  | cons key rest ih =>
    by_cases hr : rest = []
    · subst hr
      rw [at?_set_singleton]
      refine Node.placed_of_no_map rfl ?_
      rw [Option.bind_eq_none_iff]
      intro n hn
      cases ho : n.entries? with
      | none => rfl
      | some old =>
        refine absurd ?_ (h old)
        rw [Node.at?_singleton, Node.get?_map, hn, Node.entries?_eq_some_iff.mp ho]
    · rw [set_cons es key hr, at?_insert_self]
      exact ih hr (at?_opened_ne_map hr h)

/-! ### Copying nothing -/

/-- A copy of nothing writes the empty map to both paths, if no plain value stands in the way to its
source: a map at the target stays, and anything else becomes the empty map. -/
theorem copy_of_missing {target source : List String} (ht : target ≠ []) (hs : source ≠ [])
    (aside : ¬target <+: source) (aside' : ¬source <+: target)
    (missing : es.getPath? source = none ∨ es.getPath? source = some .null)
    (clear : ¬es.Blocked source) :
    es.copy target source = (es.set source (.map [])).set target (.map []) ∧
    (es.copy target source).getPath? source = some (.map []) ∧
    (es.copy target source).getPath? target = (es.set target (.map [])).getPath? target ∧
    (∀ old, es.getPath? target = some (.map old) →
      (es.copy target source).getPath? target = some (.map old)) ∧
    ((∀ old, es.getPath? target ≠ some (.map old)) →
      (es.copy target source).getPath? target = some (.map [])) := by
  have written : es.copy target source = (es.set source (.map [])).set target (.map []) := by
    rw [copy_eq, materialize_eq_set hs missing clear]
  have nothing : ∀ old : Entries, (Node.map es).at? source ≠ some (.map old) := by
    intro old h
    rw [← getPath?_eq_at? es hs] at h
    rcases missing with m | m <;> rw [m] at h <;> cases h
  have unmoved := at?_set_of_aside aside' aside (fun blocked => absurd blocked clear) (.map [])
  refine ⟨written, ?_⟩
  simp only [written, getPath?_eq_at? _ hs, getPath?_eq_at? _ ht]
  refine ⟨?_, ?_, fun old h => ?_, fun h => ?_⟩
  · have at_source := at?_set_empty_of_no_map hs nothing
    exact at?_set_of_incomparable aside aside' at_source
  · by_cases h : ∃ old : Entries, (Node.map es).at? target = some (.map old)
    · obtain ⟨old, h⟩ := h
      rw [at?_set_empty_of_map ht h, at?_set_empty_of_map ht (unmoved.trans h)]
    · have no_map : ∀ old : Entries, (Node.map es).at? target ≠ some (.map old) := not_exists.mp h
      rw [at?_set_empty_of_no_map ht no_map, at?_set_empty_of_no_map ht (unmoved ▸ no_map)]
  · exact at?_set_empty_of_map ht (unmoved.trans h)
  · exact at?_set_empty_of_no_map ht (unmoved ▸ h)

/-- A copy onto a number, from below an object that is null. -/
theorem copy_of_missing_below_null :
    let tree : Entries := [("a", .null), ("t", .int 1)]
    (tree.copy ["t"] ["a", "b"]).getPath? ["a", "b"] = some (.map []) ∧
      (tree.copy ["t"] ["a", "b"]).getPath? ["t"] = some (.map []) := by
  intro tree
  have clear : ¬tree.Blocked ["a", "b"] := by
    rintro ⟨before, n, hb, le, ne, at_before, hn, -⟩
    obtain ⟨key, more, rfl⟩ := List.exists_cons_of_ne_nil hb
    obtain ⟨rfl, below⟩ := List.cons_prefix_cons.mp le
    obtain rfl : more = [] := by
      rcases List.prefix_cons_iff.mp below with rfl | ⟨rest, rfl, nothing⟩
      · rfl
      · rw [List.prefix_nil.mp nothing] at ne
        exact absurd rfl ne
    cases at_before
    cases hn
  have apart : ¬["t"] <+: ["a", "b"] ∧ ¬["a", "b"] <+: ["t"] := by decide
  have missing : tree.getPath? ["a", "b"] = none := rfl
  obtain ⟨_, at_source, _, _, at_target⟩ :=
    copy_of_missing (by decide) (by decide) apart.1 apart.2 (.inl missing) clear
  exact ⟨at_source, at_target nofun⟩

/-- Where a plain value stands in the way, a look gives up. -/
theorem materialize_of_blocked (blocked : es.Blocked path) : (es.materialize path).1 = .null := by
  obtain ⟨before, n, hb, le, ne, at_before, hn, plain⟩ := blocked
  rw [getPath?_eq_at? es hb] at at_before
  induction before generalizing es path with
  | nil => exact absurd rfl hb
  | cons key more ih =>
    obtain ⟨rest, rfl⟩ := le
    have rest_ne : more ++ rest ≠ [] := by
      intro h
      obtain ⟨rfl, rfl⟩ := List.append_eq_nil_iff.mp h
      exact ne (List.append_nil _).symm
    rw [List.cons_append]
    by_cases hm : more = []
    · subst hm
      rw [Node.at?_singleton, Node.get?_map] at at_before
      have leaf : (es.found key).entries? = none := by rw [found_of_get? at_before hn, plain]
      rw [materialize_cons_of_leaf rest_ne leaf]
    · obtain ⟨k, below, rfl⟩ := List.exists_cons_of_ne_nil hm
      obtain ⟨_, child, he, hc, hr⟩ := Node.at?_cons_eq_some_iff.mp at_before
      cases he
      obtain ⟨inner, rfl⟩ := Node.exists_map_of_at?_cons hr
      rw [materialize_cons_of_map rest_ne (found_of_get? hc rfl)]
      exact ih hm (List.prefix_append _ _) (by simpa using ne) hr

/-- So a copy from behind a plain value leaves nothing, or null, at its target. -/
theorem copy_of_blocked {target source : List String} (ht : target ≠ [])
    (blocked : es.Blocked source) :
    (es.copy target source).getPath? target = none ∨
      (es.copy target source).getPath? target = some .null := by
  obtain ⟨old, written⟩ := exists_at?_set_self (es.materialize source).2 ht .null
  rw [getPath?_eq_at? _ ht, copy_eq, materialize_of_blocked blocked, written]
  cases old with
  | none => exact .inr rfl
  | some o =>
    cases o with
    | null => exact .inr rfl
    | _ => exact .inl rfl

/-- That is not what a write of the empty map leaves there. -/
theorem copy_behind_value_removes :
    ¬∀ (es : Entries) (target source : List String), target ≠ [] → source ≠ [] →
      ¬target <+: source → ¬source <+: target →
      es.getPath? source = none ∨ es.getPath? source = some .null →
      (es.copy target source).getPath? source = some (.map []) ∧
      (es.copy target source).getPath? target = (es.set target (.map [])).getPath? target := by
  intro claimed
  obtain ⟨_, at_target⟩ := claimed [("a", .int 1), ("t", .int 2)] ["t"] ["a", "b"] (by decide)
    (by decide) (by decide) (by decide) (.inl rfl)
  cases at_target

end Entries

end FusionTree
