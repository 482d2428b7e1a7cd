import FusionTree.Proofs.Tree.HeldMaps

/-!
# Independent writes commute

A write and an unset are edits of one form: they open the way to a key and change what stands under
it. Edits of two paths, neither of which leads to the other, part at some key. Up to there the first
of them opens the way and the second one finds it open; behind it each changes an entry that the
other one does not look at. So the order of the two shows in nothing but the places of keys that
both of them add.
-/

namespace FusionTree

/-- The second node is the first one, but for the order of the keys in its maps. -/
inductive Node.Reordered : Node → Node → Prop
  | refl (n : Node) : Reordered n n
  | perm {es es' : Entries} (h : es.Perm es') : Reordered (.map es) (.map es')
  | entry {n m : Node} (before after : Entries) (key : String) (h : Reordered n m) :
    Reordered (.map (before ++ (key, n) :: after)) (.map (before ++ (key, m) :: after))
  | item {n m : Node} (before after : List Node) (h : Reordered n m) :
    Reordered (.list (before ++ n :: after)) (.list (before ++ m :: after))
  | trans {n m k : Node} (h : Reordered n m) (h' : Reordered m k) : Reordered n k

def Entries.Reordered (es es' : Entries) : Prop :=
  (Node.map es).Reordered (.map es')

namespace Entries

variable {es es' before after : Entries} {key : String} {n m : Node}

/-! ### Reading reordered entries -/

theorem nodup_keys_of_perm (h : es.Perm es') (nodup : es.keys.Nodup) : es'.keys.Nodup :=
  (List.Perm.map Prod.fst h).nodup_iff.mp nodup

theorem get?_of_perm (nodup : es.keys.Nodup) (h : es.Perm es') (key : String) :
    es'.get? key = es.get? key := by
  cases hk : es.get? key with
  | some n => exact get?_of_mem (nodup_keys_of_perm h nodup) (h.subset (mem_of_get? hk))
  | none =>
    rw [get?_eq_none_iff] at hk ⊢
    exact fun mem => hk ((List.Perm.map Prod.fst h).symm.subset mem)

theorem get?_append_cons_self (nodup : (keys (before ++ (key, n) :: after)).Nodup) :
    get? (before ++ (key, n) :: after) key = some n :=
  get?_of_mem nodup (by simp)

theorem get?_append_cons_of_ne {other : String} (h : other ≠ key) (n m : Node) :
    get? (before ++ (key, n) :: after) other = get? (before ++ (key, m) :: after) other := by
  induction before with
  | nil => simp [get?_cons, Ne.symm h]
  | cons entry rest ih =>
    obtain ⟨k, o⟩ := entry
    rw [List.cons_append, List.cons_append, get?_cons, get?_cons, ih]

end Entries

namespace Node

variable {n m : Node}

theorem Reordered.symm (h : n.Reordered m) : m.Reordered n := by
  induction h with
  | refl n => exact .refl n
  | perm h => exact .perm h.symm
  | entry before after key _ ih => exact .entry before after key ih
  | item before after _ ih => exact .item before after ih
  | trans _ _ ih ih' => exact ih'.trans ih

theorem Reordered.distinct (h : n.Reordered m) (distinct : n.Distinct) : m.Distinct := by
  induction h with
  | refl => exact distinct
  | perm h =>
    obtain ⟨nodup, below⟩ := distinct_map_iff.mp distinct
    refine distinct_map_iff.mpr ⟨Entries.nodup_keys_of_perm h nodup, fun key n hn => ?_⟩
    exact below key n (Entries.get?_of_perm nodup h key ▸ hn)
  | @entry n m before after key _ ih =>
    obtain ⟨nodup, below⟩ := distinct_map_iff.mp distinct
    have nodup' : (Entries.keys (before ++ (key, m) :: after)).Nodup := by
      simpa [Entries.keys] using nodup
    refine distinct_map_iff.mpr ⟨nodup', fun k o ho => ?_⟩
    by_cases hk : k = key
    · subst hk
      rw [Entries.get?_append_cons_self nodup'] at ho
      cases ho
      exact ih (below k n (Entries.get?_append_cons_self nodup))
    · exact below k o (Entries.get?_append_cons_of_ne hk n m ▸ ho)
  | item => exact distinct_of_entries?_eq_none rfl
  | trans _ _ ih ih' => exact ih' (ih distinct)

/-- Reordered nodes are read alike at every path. -/
theorem Reordered.at? (h : n.Reordered m) (distinct : n.Distinct) (path : List String) :
    Option.Rel Reordered (n.at? path) (m.at? path) := by
  have refl (o : Option Node) : Option.Rel Reordered o o := by
    cases o with
    | none => exact .none
    | some n => exact .some (.refl n)
  induction h generalizing path with
  | refl => exact refl _
  | perm h =>
    cases path with
    | nil => exact .some (.perm h)
    | cons key rest =>
      obtain ⟨nodup, -⟩ := distinct_map_iff.mp distinct
      rw [at?_map_cons, at?_map_cons, Entries.get?_of_perm nodup h]
      exact refl _
  | @entry n m before after key h ih =>
    cases path with
    | nil => exact .some (.entry before after key h)
    | cons k rest =>
      have distinct' := (Reordered.entry before after key h).distinct distinct
      obtain ⟨nodup, below⟩ := distinct_map_iff.mp distinct
      obtain ⟨nodup', -⟩ := distinct_map_iff.mp distinct'
      rw [at?_map_cons, at?_map_cons]
      by_cases hk : k = key
      · subst hk
        have here := Entries.get?_append_cons_self nodup
        rw [here, Entries.get?_append_cons_self nodup']
        exact ih (below k n here) rest
      · rw [Entries.get?_append_cons_of_ne hk n m]
        exact refl _
  | item before after h =>
    cases path with
    | nil => exact .some (.item before after h)
    | cons key rest => exact .none
  | @trans n m k _ _ ih ih' =>
    have first := ih distinct path
    have second := ih' (Reordered.distinct ‹n.Reordered m› distinct) path
    generalize n.at? path = x, m.at? path = y, k.at? path = z at first second
    cases first with
    | none => exact second
    | some h =>
      cases second with
      | some h' => exact .some (h.trans h')

end Node

namespace Entries

variable {es : Entries} {key other : String} {p q : List String}

/-! ### Changing one entry -/

/-- What becomes of an entry: whether it goes, and what is put under its key after that. -/
structure Change where
  drops : Bool
  puts : Option Node

/-- The entries after a change under a key, which depends on what stands there. -/
def change (es : Entries) (key : String) (f : Option Node → Change) : Entries :=
  let kept := if (f (es.get? key)).drops then es.erase key else es
  match (f (es.get? key)).puts with
  | some n => kept.insert key n
  | none => kept

theorem get?_change_of_ne (h : other ≠ key) (f : Option Node → Change) :
    (es.change key f).get? other = es.get? other := by
  unfold change
  have kept : (if (f (es.get? key)).drops then es.erase key else es).get? other =
      es.get? other := by
    split
    · exact get?_erase_of_ne h
    · rfl
  cases (f (es.get? key)).puts with
  | some n => exact (get?_insert_of_ne h).trans kept
  | none => exact kept

theorem insert_insert_perm (h : key ≠ other) (n m : Node) :
    ((es.insert key n).insert other m).Perm ((es.insert other m).insert key n) := by
  induction es with
  | nil => simpa [insert, h, Ne.symm h] using List.Perm.swap ..
  | cons entry rest ih =>
    obtain ⟨k, o⟩ := entry
    by_cases hk : k = key
    · simp [insert, hk, h]
    · by_cases ho : k = other
      · simp [insert, ho, Ne.symm h]
      · simpa [insert, hk, ho] using ih

theorem erase_insert_of_ne (h : key ≠ other) (es : Entries) (n : Node) :
    (es.insert key n).erase other = (es.erase other).insert key n := by
  induction es with
  | nil => simp [insert, erase, h]
  | cons entry rest ih =>
    obtain ⟨k, o⟩ := entry
    by_cases hk : k = key
    · simp [insert, erase, hk, h]
    · by_cases ho : k = other
      · simpa [insert, erase, hk, ho, Ne.symm h] using ih
      · simpa [insert, erase, hk, ho] using ih

theorem erase_erase_comm (es : Entries) (key other : String) :
    (es.erase key).erase other = (es.erase other).erase key := by
  simp [erase, List.filter_filter, Bool.and_comm]

/-- Changes of two entries commute, but for the places of keys that both are put at the end. -/
theorem change_change_perm (h : key ≠ other) (f g : Option Node → Change) :
    ((es.change key f).change other g).Perm ((es.change other g).change key f) := by
  have hg : (es.change key f).get? other = es.get? other := get?_change_of_ne (Ne.symm h) f
  have hf : (es.change other g).get? key = es.get? key := get?_change_of_ne h g
  rw [change, change.eq_def (es.change other g), hg, hf, change, change]
  obtain ⟨drops, puts⟩ := f (es.get? key)
  obtain ⟨drops', puts'⟩ := g (es.get? other)
  have erase_past (base : Entries) (n : Node) := erase_insert_of_ne h base n
  have erase_past' (base : Entries) (n : Node) := erase_insert_of_ne (Ne.symm h) base n
  -- a key goes before or after the other one is put, so that only what is put shows
  cases puts with
  | none => cases puts' <;> cases drops <;> cases drops' <;> simp [erase_past', erase_erase_comm]
  | some n =>
    cases puts' with
    | none => cases drops <;> cases drops' <;> simp [erase_past, erase_erase_comm]
    | some m =>
      cases drops <;> cases drops' <;>
        simpa [erase_past, erase_past', erase_erase_comm _ key other] using
          insert_insert_perm h n m

theorem exists_insert_eq (es : Entries) (key : String) :
    ∃ before after : Entries, ∀ n, es.insert key n = before ++ (key, n) :: after := by
  induction es with
  | nil => exact ⟨[], [], fun n => rfl⟩
  | cons entry rest ih =>
    obtain ⟨k, o⟩ := entry
    by_cases hk : k = key
    · exact ⟨[], rest, fun n => by simp [insert, hk]⟩
    · obtain ⟨before, after, split⟩ := ih
      exact ⟨(k, o) :: before, after, fun n => by simp [insert, hk, split]⟩

theorem Reordered.insert {n m : Node} (h : n.Reordered m) (es : Entries) (key : String) :
    (es.insert key n).Reordered (es.insert key m) := by
  obtain ⟨before, after, split⟩ := exists_insert_eq es key
  rw [split, split]
  exact .entry before after key h

/-! ### Changing what is at a path -/

/-- The change of an entry that opens it and makes another change at a path in it. -/
def through : (path : List String) → (Option Node → Change) → Option Node → Change
  | [], f => f
  | key :: rest, f => fun old => ⟨false, some (.map ((opened old).change key (through rest f)))⟩

/-- Changes what is at a path. Maps are made on the way as a write makes them. -/
def changeAt (es : Entries) : (path : List String) → (Option Node → Change) → Entries
  | [], _ => es
  | key :: rest, f => es.change key (through rest f)

theorem changeAt_cons (es : Entries) (key : String) {rest : List String} (h : rest ≠ [])
    (f : Option Node → Change) :
    es.changeAt (key :: rest) f =
      es.insert key (.map ((opened (es.get? key)).changeAt rest f)) := by
  obtain ⟨k, more, rfl⟩ := List.exists_cons_of_ne_nil h
  rfl

/-- A change below a map is a change of that map. -/
theorem at?_changeAt_append {path rest : List String} (hr : rest ≠ []) {inner : Entries}
    (h : (Node.map es).at? path = some (.map inner)) (f : Option Node → Change) :
    (Node.map (es.changeAt (path ++ rest) f)).at? path = some (.map (inner.changeAt rest f)) := by
  induction path generalizing es with
  | nil =>
    cases h
    rfl
  | cons key more ih =>
    obtain ⟨_, child, he, hc, hb⟩ := Node.at?_cons_eq_some_iff.mp h
    cases he
    obtain ⟨below, rfl⟩ := Node.exists_map_of_at?_map hb
    rw [List.cons_append, changeAt_cons es key (by simp [hr]), at?_insert_self, hc, opened_map]
    exact ih hb

theorem changeAt_comm (h : ¬p <+: q) (h' : ¬q <+: p) (es : Entries) (f g : Option Node → Change) :
    ((es.changeAt p f).changeAt q g).Reordered ((es.changeAt q g).changeAt p f) := by
  induction p generalizing es q with
  | nil => exact absurd List.nil_prefix h
  | cons key rest ih =>
    cases q with
    | nil => exact absurd List.nil_prefix h'
    | cons other more =>
      by_cases hk : key = other
      · subst hk
        simp only [List.cons_prefix_cons, true_and] at h h'
        have hr : rest ≠ [] := by rintro rfl; exact h List.nil_prefix
        have hm : more ≠ [] := by rintro rfl; exact h' List.nil_prefix
        -- whichever change comes first opens the entry, and the other one finds a map
        rw [changeAt_cons es key hr, changeAt_cons _ key hm, changeAt_cons es key hm,
          changeAt_cons _ key hr, get?_insert_self, get?_insert_self, opened_map, opened_map,
          insert_insert_self, insert_insert_self]
        exact Reordered.insert (ih h h' _) es key
      · exact .perm (change_change_perm hk _ _)

/-! ### Writes and unsets are such changes -/

def setting (n : Node) (old : Option Node) : Change :=
  ⟨(n.placed old).isNone, n.placed old⟩

def unsetting (old : Option Node) : Change :=
  ⟨(Node.null.placed old).isNone, some (.map [(Key.stop, .bool true)])⟩

theorem write_eq_change (es : Entries) (key : String) (n : Node) :
    es.write key n = es.change key (setting n) := by
  rcases h : es.get? key with _ | old
  · simp [write, change, setting, h, Node.placed]
  · cases old <;> cases n <;> simp [write, change, setting, h, Node.placed, Node.isNull]

theorem write_of_placed {n m : Node} (h : n.placed (es.get? key) = some m) :
    es.write key n = es.insert key m := by
  simp [write_eq_change, change, setting, h]

/-- The mark is put after the null, which may have removed the key. -/
theorem unset_singleton_eq_change (es : Entries) (key : String) :
    es.unset [key] = es.change key unsetting := by
  rw [unset_singleton, write_eq_change]
  unfold change setting unsetting
  cases Node.null.placed (es.get? key) <;> simp

theorem set_eq_changeAt (es : Entries) (path : List String) (n : Node) :
    es.set path n = es.changeAt path (setting n) := by
  induction path generalizing es with
  | nil => rfl
  | cons key rest ih =>
    by_cases hr : rest = []
    · subst hr
      exact write_eq_change es key n
    · rw [set_cons es key hr, changeAt_cons es key hr, ih]

theorem unset_eq_changeAt (es : Entries) {path : List String} (h : path ≠ []) :
    es.unset path = es.changeAt path unsetting := by
  induction path generalizing es with
  | nil => exact absurd rfl h
  | cons key rest ih =>
    by_cases hr : rest = []
    · subst hr
      exact unset_singleton_eq_change es key
    · rw [unset_cons es key hr, changeAt_cons es key hr, ih _ hr]

/-- Writes and unsets of two paths, neither of which leads to the other, give the same tree in
either order, up to the order of keys. -/
theorem independent_writes_commute (h : ¬p <+: q) (h' : ¬q <+: p) (es : Entries) (n m : Node) :
    ((es.set p n).set q m).Reordered ((es.set q m).set p n) ∧
    ((es.set p n).unset q).Reordered ((es.unset q).set p n) ∧
    ((es.unset p).set q m).Reordered ((es.set q m).unset p) ∧
    ((es.unset p).unset q).Reordered ((es.unset q).unset p) := by
  have hp : p ≠ [] := by rintro rfl; exact h List.nil_prefix
  have hq : q ≠ [] := by rintro rfl; exact h' List.nil_prefix
  have commute := changeAt_comm h h' es
  simp only [set_eq_changeAt, unset_eq_changeAt _ hp, unset_eq_changeAt _ hq]
  exact ⟨commute _ _, commute _ _, commute _ _, commute _ _⟩

/-- Two writes below a number that both of them tag: the keys behind the tags change places. -/
theorem independent_writes_commute_below_number :
    let tree : Entries := [("a", .int 1)]
    (¬["a", "b"] <+: ["a", "c", "d"] ∧ ¬["a", "c", "d"] <+: ["a", "b"]) ∧
      (tree.set ["a", "b"] (.int 2)).set ["a", "c", "d"] .null ≠
        (tree.set ["a", "c", "d"] .null).set ["a", "b"] (.int 2) ∧
      ((tree.set ["a", "b"] (.int 2)).set ["a", "c", "d"] .null).Reordered
        ((tree.set ["a", "c", "d"] .null).set ["a", "b"] (.int 2)) := by
  intro tree
  have apart : ¬["a", "b"] <+: ["a", "c", "d"] ∧ ¬["a", "c", "d"] <+: ["a", "b"] := by decide
  refine ⟨apart, fun same => ?_, (independent_writes_commute apart.1 apart.2 tree _ _).1⟩
  have := congrArg (fun t => (getPath? t ["a"]).bind (·.entries?.map keys)) same
  revert this
  decide

end Entries

end FusionTree
