import FusionTree.Proofs.Merge.Nesting
import FusionTree.Proofs.Merge.Outcome
import FusionTree.Proofs.Tree.ParentLinks

/-!
# Which copies set up inheritance

A statement declares inheritance by its form, `prototype(X) < prototype(Y)`, and a merge sets it up
by the keys of both paths. These are the same statements as long as no copy is one from a key to a
prototype beside it: the tree keeps both under one key, so there a key passes for a prototype.
Parent links belong into prototypes at the root, and no copy brings one to another place.
-/

namespace FusionTree

/-- Where a tree keeps the name of the prototype that a prototype inherits from. -/
def Key.linkPath (name : String) : List String :=
  [prototypes, name, parent]

/-- Whether a change writes a parent link, so that some prototype of some tree has another one
afterwards. -/
def Entries.Relinks (f : Entries → Entries) : Prop :=
  ∃ es name, (f es).getPath? (Key.linkPath name) ≠ es.getPath? (Key.linkPath name)

/-! ### Parent links in the tree -/

namespace Key

theorem Spelled.parent_not_head {rest : List String} : ¬Spelled (parent :: rest) :=
  fun h => h.head_ne (by decide) (by decide) (by decide) rfl

theorem Placed.no_tag {p : List String} (h : Placed p) : ∀ k ∈ p, k ∉ tags :=
  h.avoids (by decide)

theorem Placed.no_link {p : List String} (h : Placed p) : ∀ k ∈ p, k ∉ links :=
  h.avoids (by decide)

theorem prefix_linkPath_iff {path : List String} {name : String} :
    path <+: linkPath name ↔
      path = [] ∨ path = [prototypes] ∨ path = [prototypes, name] ∨ path = linkPath name := by
  match path with
  | [] => simp
  | [a] => simp [linkPath, List.cons_prefix_cons]
  | [a, b] => simp [linkPath, List.cons_prefix_cons]
  | a :: b :: c :: more => simp [linkPath, List.cons_prefix_cons]

theorem isPrototypePath_pair (key name : String) :
    isPrototypePath [key, name] = true ↔ key = prototypes := by
  simp [isPrototypePath]

/-- The keys of segments lead neither to a parent link nor past it, unless they are those of a
prototype. -/
theorem Spelled.incomparable_link {path : List String} (spelled : Spelled path) (hp : path ≠ [])
    (noPrototype : isPrototypePath path = false) (name : String) :
    ¬path <+: linkPath name ∧ ¬linkPath name <+: path := by
  constructor
  · intro h
    rcases prefix_linkPath_iff.mp h with rfl | rfl | rfl | rfl
    · exact hp rfl
    · have : isReserved prototypes = false := spelled
      exact absurd this (by decide)
    · rw [(isPrototypePath_pair _ name).mpr rfl] at noPrototype
      cases noPrototype
    · exact parent_not_head spelled
  · rintro ⟨more, rfl⟩
    exact parent_not_head spelled

/-- The same if they go on from another path, unless that leads to a parent link itself, or to where
the prototypes are. -/
theorem Spelled.incomparable_link_behind {start rest : List String} (spelled : Spelled rest)
    (hr : rest ≠ []) (noPrototype : isPrototypePath (start ++ rest) = false) {name : String}
    (outside : start ≠ [prototypes]) (notBelow : ¬linkPath name <+: start) :
    ¬start ++ rest <+: linkPath name ∧ ¬linkPath name <+: start ++ rest := by
  by_cases above : start <+: linkPath name
  · rcases prefix_linkPath_iff.mp above with rfl | rfl | rfl | rfl
    · exact spelled.incomparable_link hr noPrototype name
    · exact absurd rfl outside
    · have not_parent : ¬rest <+: [parent] ∧ ¬[parent] <+: rest := by
        constructor
        · intro h
          rcases List.prefix_cons_iff.mp h with rfl | ⟨more, rfl, _⟩
          · exact hr rfl
          · exact parent_not_head spelled
        · rintro ⟨more, rfl⟩
          exact parent_not_head spelled
      simpa [linkPath, List.cons_prefix_cons] using not_parent
    · exact absurd List.prefix_rfl notBelow
  · constructor
    · intro h
      exact above ((List.prefix_append start rest).trans h)
    · intro h
      rcases List.prefix_or_prefix_of_prefix h (List.prefix_append start rest) with h | h
      · exact notBelow h
      · exact above h

end Key

namespace Entries

theorem relinks_set_linkPath (name text : String) :
    Relinks (·.set (Key.linkPath name) (.string text)) := by
  refine ⟨[], name, ?_⟩
  have written : (set [] (Key.linkPath name) (.string text)).getPath? (Key.linkPath name) =
      some (.string text) := by
    simp [Key.linkPath, getPath?_cons, set_cons, Node.at?_cons, write, opened]
  have before : getPath? [] (Key.linkPath name) = none := rfl
  rw [written, before]
  exact Option.some_ne_none _

/-- A copy writes no parent link if neither of its paths leads to one or goes on from one. -/
theorem not_relinks_copy {target source : List String}
    (ht : ∀ name, ¬target <+: Key.linkPath name ∧ ¬Key.linkPath name <+: target)
    (hs : ∀ name, ¬source <+: Key.linkPath name ∧ ¬Key.linkPath name <+: source) :
    ¬Relinks (·.copy target source) := by
  rintro ⟨es, name, changed⟩
  refine changed ?_
  have linkPath_ne_nil : Key.linkPath name ≠ [] := List.cons_ne_nil _ _
  have untagged : ∀ last, (Key.linkPath name).getLast? = some last → last ∉ Key.tags := by
    intro last h
    obtain rfl : Key.parent = last := Option.some.inj h
    decide
  change (es.copy target source).getPath? _ = _
  rw [getPath?_eq_at? _ linkPath_ne_nil, getPath?_eq_at? _ linkPath_ne_nil, copy_eq,
    at?_set_of_aside (ht name).1 (ht name).2 fun _ => untagged,
    at?_materialize_of_aside (hs name).1 (hs name).2]

/-- Between prototypes a copy that is not refused is one at the root, and writes a parent link. -/
theorem copyOrInherit?_of_prototype {target source : List String} {f : Entries → Entries}
    (h : copyOrInherit? target source = some f) (prototype : Key.isPrototypePath target = true) :
    ∃ x y, target = [Key.prototypes, x] ∧ source = [Key.prototypes, y] ∧
      f = (·.set (Key.linkPath x) (.string y)) := by
  unfold copyOrInherit? at h
  split at h
  · rename_i ht hs
    split at h
    · obtain rfl := (Key.isPrototypePath_pair _ _).mp ht
      obtain rfl := (Key.isPrototypePath_pair _ _).mp hs
      exact ⟨_, _, rfl, rfl, (Option.some.inj h).symm⟩
    · cases h
  · rename_i ht _
    rw [ht] at prototype
    cases prototype
  · cases h

/-- Elsewhere a copy that is not refused copies. -/
theorem copyOrInherit?_of_no_prototype {target source : List String} {f : Entries → Entries}
    (h : copyOrInherit? target source = some f) (noPrototype : Key.isPrototypePath target = false) :
    Key.isPrototypePath source = false ∧ f = (·.copy target source) := by
  unfold copyOrInherit? at h
  split at h
  · rename_i ht _
    rw [ht] at noPrototype
    cases noPrototype
  · rename_i _ hs
    exact ⟨hs, (Option.some.inj h).symm⟩
  · cases h

/-- A copy of what is no prototype brings no links. -/
theorem LinkedAtRoot.copy_of_named {es : Entries} {target source : List String}
    (linked : es.LinkedAtRoot) (distinct : es.Distinct) (ht : Key.Named target)
    (hs : Key.Named source) (part : Key.isPrototypePath source = false) :
    (es.copy target source).LinkedAtRoot := by
  refine linked.copy distinct ht.placed.no_tag (ht.placed.append hs.placed).no_link part
    hs.ne_nil ?_
  rintro rfl
  exact absurd (Key.Named.of_concat (p := []) hs) (by decide)

/-- A copy that is not refused leaves links at the prototypes at the root only. -/
theorem LinkedAtRoot.copyOrInherit {es : Entries} {target source : List String}
    {f : Entries → Entries} (linked : es.LinkedAtRoot) (distinct : es.Distinct)
    (ht : Key.Named target) (hs : Key.Named source) (h : copyOrInherit? target source = some f) :
    (f es).LinkedAtRoot := by
  cases prototype : Key.isPrototypePath target with
  | true =>
    obtain ⟨x, y, rfl, -, rfl⟩ := copyOrInherit?_of_prototype h prototype
    exact linked.inherit y (ht.placed.no_tag x (by simp)) (ht.placed.no_link x (by simp))
  | false =>
    obtain ⟨part, rfl⟩ := copyOrInherit?_of_no_prototype h prototype
    exact linked.copy_of_named distinct ht hs part

end Entries

/-- A path of one key is a single one. -/
theorem ObjectPath.isSingleKey_of_keys_eq {p : ObjectPath} {key : String} (h : p.keys = [key]) :
    p.isSingleKey = true := by
  obtain ⟨segments⟩ := p
  rw [ObjectPath.keys_eq_allKeys] at h
  cases segments with
  | nil => cases h
  | cons s rest =>
    rw [PathSegment.allKeys_cons] at h
    cases s with
    | plain | quoted =>
      rw [PathSegment.allKeys_eq_nil_iff.mp (List.cons.inj h).2]
      rfl
    | metaProperty | prototype => cases (List.cons.inj h).2

namespace Merge

variable {resolver : Resolver} {dsl : DslRegistry} {depth : Nat} {src : Source}
  {chain : List Path} {ctx : Context} {outer : List PathSegment} {path : ObjectPath}
  {source : CopySource} {target : List String} {f : Entries → Entries}

/-! ### Copies that are not refused -/

/-- If both sides have the keys of a prototype at the root, both are such prototypes. -/
theorem exists_of_root_prototypes
    (inside : Context.Within (.ofSource resolver dsl depth src chain) outer ctx)
    (named : path.Named) (apart : source.isBesidePrototype path = false)
    (allowed : path.Allowed ctx.inPrototype) (sourceAllowed : source.path.Allowed ctx.inPrototype)
    {x y : String} (ht : ctx.blockPath ++ path.keys = [Key.prototypes, x])
    (hs : source.keys [Key.prototypes, x] = [Key.prototypes, y]) :
    ∃ s t, path = ⟨[.prototype x s]⟩ ∧ source.path = ⟨[.prototype y t]⟩ := by
  obtain ⟨segments⟩ := path
  have row : PathSegment.allKeys (outer ++ segments) = [Key.prototypes, x] := by
    rw [PathSegment.allKeys_append, ← ht, inside.blockPath]
    rfl
  have accepted : ∀ s ∈ outer ++ segments, ∃ b, s.Allowed b := by
    intro s hs
    rcases List.mem_append.mp hs with hs | hs
    · exact inside.allowed s hs
    · exact ⟨_, allowed s hs⟩
  obtain ⟨span, single⟩ := Key.exists_of_allKeys_eq accepted row
  obtain ⟨-, rfl⟩ : outer = [] ∧ segments = [.prototype x span] := by
    rcases List.append_eq_singleton_iff.mp single with h | ⟨-, h⟩
    · exact h
    · exact absurd h named
  obtain ⟨⟨sourceSegments⟩, relative⟩ := source
  cases relative with
  | false =>
    obtain ⟨span', rfl⟩ := Key.exists_of_allKeys_eq (fun s hs => ⟨_, sourceAllowed s hs⟩) hs
    exact ⟨span, span', rfl, rfl⟩
  | true =>
    -- the dot stands for the place of the prototypes, and a single key comes after it
    have key : ObjectPath.keys ⟨sourceSegments⟩ = [y] := (List.cons.inj hs).2
    rw [CopySource.isBesidePrototype, ObjectPath.isSingleKey_of_keys_eq key] at apart
    cases apart

/-- A copy between paths that are not those of prototypes writes no parent link. -/
theorem not_relinks_of_no_prototype (spelled : Key.Spelled target) (ht : target ≠ [])
    (spelledSource : Key.Spelled source.path.keys) (hs : source.path.keys ≠ [])
    (noTarget : Key.isPrototypePath target = false)
    (noSource : Key.isPrototypePath (source.keys target) = false) :
    ¬Entries.Relinks (·.copy target (source.keys target)) := by
  have beside_target := spelled.incomparable_link ht noTarget
  refine Entries.not_relinks_copy beside_target fun name => ?_
  refine spelledSource.incomparable_link_behind hs noSource ?_ ?_
  · cases source.relative with
    | false => exact (List.cons_ne_nil Key.prototypes []).symm
    | true =>
      intro (h : target.dropLast = [Key.prototypes])
      rw [Key.isPrototypePath, h] at noTarget
      cases noTarget
  · cases source.relative with
    | false => exact fun h => List.cons_ne_nil _ _ (List.prefix_nil.mp h)
    | true =>
      intro (h : Key.linkPath name <+: target.dropLast)
      exact (beside_target name).2 (h.trans (List.dropLast_prefix target))

/-- A copy that is visited without a problem brings a parent link to no place but that of a
prototype at the root, and it is a parent link that it writes then. The tree is one that has links
at prototypes at the root only, as the trees of all runs do, and no segment on the way has the name
of a key of the tree's own. -/
theorem relinks_of_link_changed
    (inside : Context.Within (.ofSource resolver dsl depth src chain) outer ctx)
    (named : path.Named) (sourceNamed : source.path.Named)
    (unforged : ∀ s ∈ outer ++ path.segments ++ source.path.segments,
      Key.isReserved s.name = false)
    (performs : Performs (object ctx path (some (.copy source))) target f)
    {es : Entries} (distinct : es.Distinct) (linked : es.LinkedAtRoot) {q : List String}
    (changed : (Node.map (f es)).at? (q ++ [Key.parent]) ≠
      (Node.map es).at? (q ++ [Key.parent])) :
    Entries.Relinks f ∧ ∃ name, q ++ [Key.parent] = Key.linkPath name := by
  have steady : ctx.Steady := inside.steady (Context.steady_ofSource resolver dsl depth src chain)
  obtain ⟨-, ht, -, does⟩ := (performs_object_iff steady).mp performs
  obtain ⟨names, sourceNames⟩ := List.forall_mem_append.mp unforged
  have target_named : Key.Named target := by
    have row : target = PathSegment.allKeys (outer ++ path.segments) := by
      rw [ht, inside.blockPath, PathSegment.allKeys_append]
      rfl
    rw [row]
    exact PathSegment.named_allKeys (List.append_ne_nil_of_right_ne_nil outer named) names
  have source_named : Key.Named (source.keys target) :=
    CopySource.named_keys target_named (PathSegment.named_allKeys sourceNamed sourceNames)
  have after := linked.copyOrInherit distinct target_named source_named does
  have link : Key.parent ∈ Key.links := by simp [Key.links]
  obtain ⟨name, rfl⟩ : ∃ name, q = [Key.prototypes, name] := by
    cases stood : (Node.map es).at? (q ++ [Key.parent]) with
    | some n => exact linked q _ link (Option.isSome_of_eq_some stood)
    | none =>
      rw [stood] at changed
      exact after q _ link (Option.isSome_iff_ne_none.mpr changed)
  refine ⟨⟨es, name, ?_⟩, name, rfl⟩
  have ne_nil : Key.linkPath name ≠ [] := List.cons_ne_nil _ _
  rwa [Entries.getPath?_eq_at? _ ne_nil, Entries.getPath?_eq_at? _ ne_nil]

/-! ### Copies that are refused -/

theorem stops_copyBetween_of_ne {path : List String}
    (h : Key.isPrototypePath target ≠ Key.isPrototypePath path) (span : Span) :
    Stops (copyBetween target path span) (.problem ⟨.inheritanceMismatch, span⟩) := by
  unfold copyBetween
  cases ht : Key.isPrototypePath target with
  | false =>
    cases hp : Key.isPrototypePath path with
    | false => exact absurd (ht.trans hp.symm) h
    | true => exact stops_fail _ _
  | true =>
    cases hp : Key.isPrototypePath path with
    | false => exact stops_fail _ _
    | true => exact absurd (ht.trans hp.symm) h

/-- A copy with a prototype on one side only is refused, whatever comes after it in a block. -/
theorem stops_statement_of_ne (allowed : path.Allowed ctx.inPrototype)
    (sourceAllowed : source.path.Allowed ctx.inPrototype)
    (h : Key.isPrototypePath (ctx.blockPath ++ path.keys) ≠
      Key.isPrototypePath (source.keys (ctx.blockPath ++ path.keys)))
    (block : Option (Block Statement)) :
    Stops (statement ctx (.object path (some (.copy source)) block))
      (.problem ⟨.inheritanceMismatch, path.span.join source.path.span⟩) := by
  have copied : Stops (copy ctx (ctx.blockPath ++ path.keys) source
      (path.span.join source.path.span))
      (.problem ⟨.inheritanceMismatch, path.span.join source.path.span⟩) := by
    rw [copy_eq]
    exact (performs_extend sourceAllowed _).bind_stops (stops_copyBetween_of_ne h _)
  have stopped : Stops (object ctx path (some (.copy source)))
      (.problem ⟨.inheritanceMismatch, path.span.join source.path.span⟩) := by
    rw [object_eq]
    exact (performs_extend allowed _).bind_stops ((performs_note _).bind_stops (copied.bind _))
  cases block with
  | none =>
    rw [statement, discard, map_const, Function.comp_apply, map_eq_pure_bind]
    exact stopped.bind _
  | some block =>
    rw [statement]
    exact stopped.bind _

/-- The keys of both sides tell whether they are prototypes, if no name hides it and no key is put
beside a prototype. -/
theorem isPrototypePath_eq
    (inside : Context.Within (.ofSource resolver dsl depth src chain) outer ctx)
    (named : path.Named) (sourceNamed : source.path.Named)
    (apart : source.isBesidePrototype path = false)
    (unlike : ∀ s ∈ outer ++ path.segments ++ source.path.segments, s.name ≠ Key.prototypes) :
    Key.isPrototypePath (ctx.blockPath ++ path.keys) = path.endsInPrototype ∧
      Key.isPrototypePath (source.keys (ctx.blockPath ++ path.keys)) =
        source.path.endsInPrototype := by
  simp only [List.mem_append] at unlike
  have block_unlike : ctx.blockPath.getLast? ≠ some Key.prototypes := by
    have row : ctx.blockPath = PathSegment.allKeys outer := inside.blockPath
    rw [row, PathSegment.getLast?_allKeys]
    intro h
    obtain ⟨s, hs, hn⟩ := Option.map_eq_some_iff.mp h
    exact unlike s (.inl (.inl (List.mem_of_getLast? hs))) hn
  have target := Key.isPrototypePath_append ctx.blockPath named
    (fun s hs => unlike s (.inl (.inr hs))) (fun h => absurd h block_unlike)
  refine ⟨target, Key.isPrototypePath_append _ sourceNamed (fun s hs => unlike s (.inr hs)) ?_⟩
  cases hr : source.relative with
  | false => exact fun h => (Option.some_ne_none _ h.symm).elim
  | true =>
    intro (h : (ctx.blockPath ++ path.keys).dropLast.getLast? = some Key.prototypes)
    have beside : path.endsInPrototype = true := by
      rw [← target, Key.isPrototypePath, h]
      rfl
    simpa [CopySource.isBesidePrototype, hr, beside] using apart

/-! ### Two notions of inheritance -/

/-- A copy that is visited without a problem writes a parent link exactly if it has the form of a
root prototype declaration, and then the one that this form says. A copy with a prototype on one
side is refused. -/
theorem parent_link_iff_declared
    (inside : Context.Within (.ofSource resolver dsl depth src chain) outer ctx)
    (named : path.Named) (sourceNamed : source.path.Named)
    (apart : source.isBesidePrototype path = false) :
    (∀ target f, Performs (object ctx path (some (.copy source))) target f →
      (Entries.Relinks f ↔ isRootPrototypeDeclaration path (some (.copy source)) = true) ∧
      ∀ x s y t, path = ⟨[.prototype x s]⟩ → source.path = ⟨[.prototype y t]⟩ →
        f = (·.set (Key.linkPath x) (.string y))) ∧
    (path.endsInPrototype ≠ source.path.endsInPrototype →
      path.Allowed ctx.inPrototype → source.path.Allowed ctx.inPrototype →
      (∀ s ∈ outer ++ path.segments ++ source.path.segments, s.name ≠ Key.prototypes) →
      ∀ block, Stops (statement ctx (.object path (some (.copy source)) block))
        (.problem ⟨.inheritanceMismatch, path.span.join source.path.span⟩)) := by
  have steady : ctx.Steady := inside.steady (Context.steady_ofSource resolver dsl depth src chain)
  constructor
  · intro target f performs
    obtain ⟨allowed, ht, sourceAllowed, does⟩ := (performs_object_iff steady).mp performs
    cases prototype : Key.isPrototypePath target with
    | true =>
      obtain ⟨x, y, hx, hy, rfl⟩ := Entries.copyOrInherit?_of_prototype does prototype
      rw [hx] at ht hy
      obtain ⟨s, t, hp, hs⟩ :=
        exists_of_root_prototypes inside named apart allowed sourceAllowed ht.symm hy
      have declared : isRootPrototypeDeclaration path (some (.copy source)) = true := by
        simp only [isRootPrototypeDeclaration, hp, hs]
        rfl
      refine ⟨⟨fun _ => declared, fun _ => Entries.relinks_set_linkPath x y⟩, ?_⟩
      intro x' s' y' t' hp' hs'
      cases hp.symm.trans hp'
      cases hs.symm.trans hs'
      rfl
    | false =>
      obtain ⟨noSource, rfl⟩ := Entries.copyOrInherit?_of_no_prototype does prototype
      have not_single : ∀ x s, path ≠ ⟨[.prototype x s]⟩ := by
        rintro x s rfl
        rw [ht] at prototype
        simp [ObjectPath.keys, PathSegment.keys, Key.isPrototypePath] at prototype
      have undeclared : ¬isRootPrototypeDeclaration path (some (.copy source)) = true := by
        intro h
        obtain ⟨single, _⟩ := (Bool.and_eq_true _ _).mp h
        obtain ⟨x, s, hp⟩ := ObjectPath.isSinglePrototype_iff.mp single
        exact not_single x s hp
      have spelled : Key.Spelled target := ht ▸ (inside.spelled trivial).append allowed.spelled_keys
      have target_ne_nil : target ≠ [] := by simp [ht, named.keys_ne_nil]
      have unlinked := not_relinks_of_no_prototype spelled target_ne_nil
        sourceAllowed.spelled_keys sourceNamed.keys_ne_nil prototype noSource
      exact ⟨iff_of_false unlinked undeclared, fun x s y t hp => absurd hp (not_single x s)⟩
  · intro differ allowed sourceAllowed unlike block
    obtain ⟨target, path⟩ := isPrototypePath_eq inside named sourceNamed apart unlike
    refine stops_statement_of_ne allowed sourceAllowed ?_ block
    rwa [target, path]

/-- `prototype(A) < prototype(B)` writes a link, and `a < prototype(B)` is refused. -/
theorem parent_link_iff_declared_of_declaration :
    let prototype (name : String) : PathSegment := .prototype name Span.dummy
    (∃ f, Performs (object .alone ⟨[prototype "A"]⟩ (some (.copy ⟨⟨[prototype "B"]⟩, false⟩)))
        [Key.prototypes, "A"] f ∧
      Entries.Relinks f ∧ f = (·.set (Key.linkPath "A") (.string "B"))) ∧
    Stops (statement .alone
        (.object ⟨[.plain "a" Span.dummy]⟩ (some (.copy ⟨⟨[prototype "B"]⟩, false⟩)) none))
      (.problem ⟨.inheritanceMismatch, Span.dummy.join Span.dummy⟩) := by
  intro prototype
  have steady : Context.alone.Steady := Context.steady_ofSource _ _ _ _ _
  have named (s : PathSegment) : ObjectPath.Named ⟨[s]⟩ := List.cons_ne_nil s []
  have allowed (name : String) : ObjectPath.Allowed false ⟨[prototype name]⟩ :=
    ObjectPath.refusal?_eq_none_iff.mp rfl
  have plain : ObjectPath.Allowed false ⟨[.plain "a" Span.dummy]⟩ :=
    ObjectPath.refusal?_eq_none_iff.mp (by decide +kernel)
  let source : CopySource := ⟨⟨[prototype "B"]⟩, false⟩
  have sourceNamed : source.path.Named := named _
  constructor
  · have performs : Performs (object .alone ⟨[prototype "A"]⟩ (some (.copy source)))
        [Key.prototypes, "A"] (·.set (Key.linkPath "A") (.string "B")) :=
      (performs_object_iff steady).mpr ⟨allowed "A", rfl, allowed "B", rfl⟩
    obtain ⟨relinks, link⟩ :=
      (parent_link_iff_declared .root (named _) sourceNamed rfl).1 _ _ performs
    exact ⟨_, performs, relinks.mpr rfl, link "A" _ "B" _ rfl rfl⟩
  · have unlike : ∀ s ∈ [.plain "a" Span.dummy] ++ source.path.segments,
        PathSegment.name s ≠ Key.prototypes := by
      simp [source, prototype, PathSegment.name, Key.prototypes]
    exact (parent_link_iff_declared .root (named _) sourceNamed rfl).2 (by decide) plain
      (allowed "B") unlike none

/-- At the root, a copy to a prototype from a key beside it writes the key as a parent link. -/
theorem performs_copy_beside_prototype (steady : ctx.Steady) (atRoot : ctx.blockPath = [])
    {key : String} (speakable : Key.Speakable key) (x : String) (s t : Span) :
    Performs (object ctx ⟨[.prototype x s]⟩ (some (.copy ⟨⟨[.plain key t]⟩, true⟩)))
      [Key.prototypes, x] (·.set (Key.linkPath x) (.string key)) := by
  have allowed : ObjectPath.Allowed ctx.inPrototype ⟨[.prototype x s]⟩ :=
    ObjectPath.refusal?_eq_none_iff.mp rfl
  have sourceAllowed : ObjectPath.Allowed ctx.inPrototype ⟨[.plain key t]⟩ := by
    intro s hs
    obtain rfl := List.mem_singleton.mp hs
    exact speakable
  have keys : [Key.prototypes, x] = ctx.blockPath ++ ObjectPath.keys ⟨[.prototype x s]⟩ := by
    rw [atRoot]
    rfl
  exact (performs_object_iff steady).mpr ⟨allowed, keys, sourceAllowed, rfl⟩

/-- So a parent link may be written without a declaration: `prototype(A:B) < .b`. -/
theorem parent_link_without_declaration :
    ¬∀ (resolver : Resolver) (dsl : DslRegistry) (depth : Nat) (src : Source) (chain : List Path)
      (outer : List PathSegment) (ctx : Context) (path : ObjectPath) (source : CopySource)
      (target : List String) (f : Entries → Entries),
      Context.Within (.ofSource resolver dsl depth src chain) outer ctx →
      path.Named → source.path.Named →
      Performs (object ctx path (some (.copy source))) target f →
      (Entries.Relinks f ↔ isRootPrototypeDeclaration path (some (.copy source)) = true) := by
  intro claimed
  have steady : Context.alone.Steady := Context.steady_ofSource _ _ _ _ _
  have speakable : Key.Speakable "b" := Key.refusal?_eq_none_iff.mp (by decide +kernel)
  have performs := performs_copy_beside_prototype steady rfl speakable "A:B" Span.dummy Span.dummy
  have named (s : PathSegment) : ObjectPath.Named ⟨[s]⟩ := List.cons_ne_nil s []
  have declared := (claimed _ _ _ _ _ [] .alone _ _ _ _ .root (named _) (named _) performs).mp
    (Entries.relinks_set_linkPath "A:B" "b")
  cases declared

end Merge

end FusionTree
