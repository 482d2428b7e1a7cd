import FusionTree.Proofs.Merge.Flattening
import FusionTree.Proofs.Merge.LastAssignment
import FusionTree.Proofs.Merge.Places
import FusionTree.Proofs.Merge.Spelling
import FusionTree.Proofs.Parser.Inlining
import FusionTree.Proofs.Tree.Grafting

/-!
# Output in place of a DSL expression

The output of a DSL is merged on a tree of its own, as the value of an assignment, and what stands
there afterwards is assigned in place of the expression. An output that is one value, maybe with a
block that speaks of nothing outside of it, could as well stand there itself: what its block does,
it does below the path of the assignment, and that is the same wherever the path leads, as long as
it is the path of an object.
-/

namespace FusionTree

open Entries

/-! ### Statements about the inside of their block -/

/-- Whether the operation reads nothing outside of the block that it stands in. -/
def Operation.staysInside : Option Operation → Bool
  | some (.copy source) => source.relative
  | _ => true

mutual

/-- Whether the statement includes nothing, copies from beside its targets only, and does not
mention `@private`. -/
def Statement.staysInside : Statement → Bool
  | .inclusion .. => false
  | .object path operation none =>
    !path.mentionsPrivate operation && Operation.staysInside operation
  | .object path operation (some ⟨_, inner, _⟩) =>
    !path.mentionsPrivate operation && Operation.staysInside operation &&
      Statement.allStayInside inner

def Statement.allStayInside : List Statement → Bool
  | [] => true
  | s :: rest => s.staysInside && Statement.allStayInside rest

end

/-! ### Paths of objects -/

/-- The keys lead to an object: not to a tag of one, nor to where it keeps its prototypes. -/
structure Key.OfObject (path : List String) : Prop where
  ne_nil : path ≠ []
  no_tag : ∀ key ∈ path, key ∉ tags
  last : path.getLast? ≠ some prototypes

/-- No property in the path is named like a tag, or like the key of the prototypes. -/
def ObjectPath.ClearOfTags (p : ObjectPath) : Prop :=
  ∀ name span, .metaProperty name span ∈ p.segments → name ∉ Key.prototypes :: Key.tags

theorem ObjectPath.Leads.ofObject_keys {p : ObjectPath} {b : Bool} (leads : p.Leads)
    (allowed : p.Allowed b) (clear : p.ClearOfTags) : Key.OfObject p.keys := by
  have own {name : String} (h : Key.isReserved name = false) :
      name ∉ Key.prototypes :: Key.tags := by
    intro mem
    have reserved : ∀ key ∈ Key.prototypes :: Key.tags, Key.isReserved key = true := by decide
    rw [reserved name mem] at h
    cases h
  have names : ∀ s ∈ p.segments, s.name ∉ Key.prototypes :: Key.tags := by
    intro s hs
    have printable := leads.1.2 s hs
    have free := allowed s hs
    cases s with
    | plain key span | quoted key span => exact own free.2.1
    | metaProperty name span => exact clear name span hs
    | prototype name span =>
      obtain ⟨left, right, _, _, eq⟩ := Rule.exists_of_objectName printable
      exact own (Key.isReserved_eq_false_of_colon (by simp [PathSegment.name, eq]))
  refine ⟨ObjectPath.Named.keys_ne_nil leads.1.1, fun key mem tag => ?_, fun last => ?_⟩
  · obtain ⟨s, hs, hk⟩ := List.mem_flatMap.mp mem
    rw [s.keys_eq] at hk
    rcases List.mem_append.mp hk with place | name
    · have places : ∀ key ∈ [Key.metaProperties, Key.prototypes], key ∉ Key.tags := by decide
      exact places key (by cases s <;> simp_all [PathSegment.place]) tag
    · rw [List.mem_singleton.mp name] at tag
      exact names s hs (List.mem_cons_of_mem _ tag)
  · rw [keys_eq_allKeys, PathSegment.getLast?_allKeys] at last
    obtain ⟨s, hs, eq⟩ := Option.map_eq_some_iff.mp last
    exact names s (List.mem_of_getLast? hs) (eq ▸ List.mem_cons_self)

/-! ### Copies inside a block -/

variable {base base' : List String}

namespace Key

/-- Below the path of an object, a path is that of a prototype if what goes on from there is. -/
theorem isPrototypePath_below (hb : OfObject base) {path : List String} (hp : path ≠ []) :
    isPrototypePath (base ++ path) = isPrototypePath path := by
  obtain ⟨before, last, rfl⟩ := (List.eq_nil_or_concat path).resolve_left hp
  rw [List.concat_eq_append, ← List.append_assoc, isPrototypePath_concat, isPrototypePath_concat]
  obtain rfl | ⟨more, latest, rfl⟩ := List.eq_nil_or_concat before
  · simpa using hb.last
  · rw [List.concat_eq_append, ← List.append_assoc, List.getLast?_concat, List.getLast?_concat]

end Key

/-- No copy between paths below a path sets up inheritance. -/
theorem Entries.copyOrInherit?_below (hb : Key.OfObject base) {target source : List String}
    (ht : target ≠ []) (hs : source ≠ []) :
    copyOrInherit? (base ++ target) (base ++ source) =
      if Key.isPrototypePath target || Key.isPrototypePath source then none
      else some (·.copy (base ++ target) (base ++ source)) := by
  unfold copyOrInherit?
  rw [Key.isPrototypePath_below hb ht, Key.isPrototypePath_below hb hs]
  cases isTarget : Key.isPrototypePath target with
  | false => cases Key.isPrototypePath source <;> rfl
  | true =>
    cases Key.isPrototypePath source with
    | false => rfl
    | true =>
      -- both are prototypes, but the target stands too deep to be one at the root
      have deep : 2 ≤ target.length := by
        match target, isTarget with
        | _ :: _ :: _, _ => simp
      have below : 1 ≤ base.length := List.length_pos_iff.mpr hb.ne_nil
      dsimp only
      split
      · rename_i root _
        have short := congrArg List.length root
        rw [List.length_append] at short
        simp only [List.length_cons, List.length_nil] at short
        omega
      · rfl

/-! ### The same block at another path -/

/-- What the functions do to trees is the same at the two paths. -/
def Entries.ActAlike (base base' : List String) (f f' : Entries → Entries) : Prop :=
  ∃ inside, ActsAt base inside f ∧ ActsAt base' inside f'

theorem Entries.ActAlike.comp {f f' g g' : Entries → Entries} (hg : ActAlike base base' g g')
    (hf : ActAlike base base' f f') : ActAlike base base' (g ∘ f) (g' ∘ f') := by
  obtain ⟨_, g_base, g_base'⟩ := hg
  obtain ⟨_, f_base, f_base'⟩ := hf
  exact ⟨_, g_base.comp f_base, g_base'.comp f_base'⟩

def Context.inside (ctx : Context) (path : List String) (inPrototype : Bool) : Context :=
  { ctx with blockPath := path, inPrototype }

theorem Context.inside_inBlock (ctx : Context) (start : List String) (flag : Bool)
    (path : ObjectPath) (operation : Option Operation) :
    (ctx.inside start flag).inBlock path operation =
      ctx.inside (start ++ path.keys) (isRootPrototypeDeclaration path operation) := rfl

/-- What may stand outside of root prototype declarations may stand anywhere. -/
theorem PathSegment.Allowed.anywhere {segment : PathSegment} (h : segment.Allowed false)
    (b : Bool) : segment.Allowed b := by
  cases segment with
  | metaProperty name span => exact fun isPrivate => absurd (h isPrivate) (by decide)
  | _ => exact h

/-- A context inside blocks differs from that of the root in the path and the flag only. -/
theorem Context.Within.eq_inside {root ctx : Context} {outer : List PathSegment}
    (h : Context.Within root outer ctx) : ctx = root.inside ctx.blockPath ctx.inPrototype := by
  induction h with
  | root => rfl
  | block inside allowed operation ih =>
    rw [ih]
    rfl

namespace Merge

variable {ctx : Context} {f : Entries → Entries}

theorem nodeOf_inside (ctx : Context) (path : List String) (flag : Bool) (value : Value) :
    nodeOf (ctx.inside path flag) value = nodeOf ctx value := by
  cases value <;> rfl

/-- An operation on a path below another one does alike below any other. -/
theorem does_elsewhere (hb : Key.OfObject base) (hb' : Key.OfObject base')
    {p p' target : List String} (ht : target ≠ []) {flag : Bool} (flag' : Bool) {path : ObjectPath}
    {operation : Option Operation} (noPrivate : path.mentionsPrivate operation = false)
    (stays : Operation.staysInside operation = true) {src : Source}
    (read : ∀ op ∈ operation, op.ReadFrom src)
    (does : Operation.DoesAny (ctx.inside p flag) (base ++ target) f operation) :
    ∃ f', Operation.DoesAny (ctx.inside p' flag') (base' ++ target) f' operation ∧
      ActAlike base base' f f' := by
  rcases operation with _ | value | span | source
  · obtain rfl : f = id := does
    exact ⟨id, rfl, id, .refl base, .refl base'⟩
  · obtain ⟨n, hn, rfl⟩ := does
    rw [nodeOf_inside] at hn
    exact ⟨_, ⟨n, by rwa [nodeOf_inside], rfl⟩, _, .set base ht n, .set base' ht n⟩
  · obtain rfl : f = (·.unset (base ++ target)) := does
    exact ⟨_, rfl, _, .unset base ht, .unset base' ht⟩
  · obtain ⟨allowed, copies⟩ := does
    have seen (start : List String) :
        source.keys (start ++ target) = start ++ (target.dropLast ++ source.path.keys) := by
      rw [CopySource.keys, if_pos (show source.relative = true from stays), Key.parentPath,
        List.dropLast_append_of_ne_nil ht, List.append_assoc]
    have named : target.dropLast ++ source.path.keys ≠ [] := by
      have := ObjectPath.Named.keys_ne_nil (read _ rfl).1
      simp [this]
    rw [seen, copyOrInherit?_below hb ht named] at copies
    split at copies
    · cases copies
    · rename_i plain
      obtain rfl := Option.some.inj copies
      refine ⟨_, ⟨?_, ?_⟩, _, .copy base ht named, .copy base' ht named⟩
      · exact allowed.of_no_private (Bool.or_eq_false_iff.mp noPrivate).2
      · rw [seen, copyOrInherit?_below hb' ht named, if_neg plain]

/-- An object statement without its block does alike below any other path, and its path may stand in
any block. -/
theorem object_elsewhere (hb : Key.OfObject base) (hb' : Key.OfObject base') {path : ObjectPath}
    {operation : Option Operation} {start : List String} {flag : Bool} (flag' : Bool)
    (noPrivate : path.mentionsPrivate operation = false)
    (stays : Operation.staysInside operation = true) {src : Source} (named : path.ReadFrom src)
    (read : ∀ op ∈ operation, op.ReadFrom src) (allowed : path.Allowed flag)
    (does : Operation.DoesAny (ctx.inside (base ++ start) flag) (base ++ start ++ path.keys) f
      operation) :
    path.Allowed flag' ∧ ∃ f', Operation.DoesAny (ctx.inside (base' ++ start) flag')
      (base' ++ start ++ path.keys) f' operation ∧ ActAlike base base' f f' := by
  have below : start ++ path.keys ≠ [] := by
    have := ObjectPath.Named.keys_ne_nil named.1
    simp [this]
  refine ⟨allowed.of_no_private (Bool.or_eq_false_iff.mp noPrivate).1, ?_⟩
  rw [List.append_assoc] at does ⊢
  exact does_elsewhere hb hb' below flag' noPrivate stays read does

/-- Statements about the inside of a block do alike in a block with any other path. The paths of the
blocks inside go on from both paths alike. -/
theorem performs_elsewhere (steady : ctx.Steady) (hb : Key.OfObject base) (hb' : Key.OfObject base')
    {ss : List Statement} (stay : Statement.allStayInside ss = true) {src : Source}
    (read : Statement.AllReadFrom src ss) {start : List String} {flag : Bool} (flag' : Bool)
    (h : Performs (statements (ctx.inside (base ++ start) flag) ss) () f) :
    ∃ f', Performs (statements (ctx.inside (base' ++ start) flag') ss) () f' ∧
      ActAlike base base' f f' := by
  have steady_inside (path : List String) (flag : Bool) : (ctx.inside path flag).Steady := steady
  induction ss using Statement.induction generalizing start flag flag' f with
  | nil =>
    obtain rfl := performs_statements_nil_iff.mp h
    exact ⟨id, performs_statements_nil_iff.mpr rfl, id, .refl base, .refl base'⟩
  | inclusion pattern span rest ih => cases stay
  | object path operation rest ih =>
    obtain ⟨here, later⟩ := Bool.and_eq_true_iff.mp stay
    obtain ⟨noPrivate, stays⟩ := Bool.and_eq_true_iff.mp here
    obtain ⟨⟨named, readOp⟩, readRest⟩ := read
    obtain ⟨allowed, g, k, does, hk, rfl⟩ :=
      (performs_statements_object_iff (steady_inside _ _)).mp h
    obtain ⟨allowed', g', does', alike⟩ :=
      object_elsewhere hb hb' flag' (by simpa using noPrivate) stays named readOp allowed does
    obtain ⟨k', hk', alikeRest⟩ := ih later readRest flag' hk
    exact ⟨k' ∘ g', (performs_statements_object_iff (steady_inside _ _)).mpr
      ⟨allowed', g', k', does', hk', rfl⟩, alikeRest.comp alike⟩
  | block path operation openBrace inner closeBrace rest ihInner ih =>
    obtain ⟨here, later⟩ := Bool.and_eq_true_iff.mp stay
    obtain ⟨head, stayInner⟩ := Bool.and_eq_true_iff.mp here
    obtain ⟨noPrivate, stays⟩ := Bool.and_eq_true_iff.mp head
    obtain ⟨⟨named, readOp, _, readInner, _⟩, readRest⟩ := read
    obtain ⟨allowed, g, i, k, does, hi, hk, rfl⟩ :=
      (performs_statements_block_iff (steady_inside _ _)).mp h
    obtain ⟨allowed', g', does', alike⟩ :=
      object_elsewhere hb hb' flag' (by simpa using noPrivate) stays named readOp allowed does
    -- the block inside begins farther below the same two paths
    rw [Context.inside_inBlock, List.append_assoc] at hi
    obtain ⟨i', hi', alikeInner⟩ := ihInner stayInner readInner _ hi
    obtain ⟨k', hk', alikeRest⟩ := ih later readRest flag' hk
    refine ⟨k' ∘ i' ∘ g', (performs_statements_block_iff (steady_inside _ _)).mpr
      ⟨allowed', g', i', k', does', ?_, hk', rfl⟩, alikeRest.comp (alikeInner.comp alike)⟩
    rw [Context.inside_inBlock, List.append_assoc]
    exact hi'

/-- A value with such a block comes to one node, wherever it is assigned to a path at which nothing
stands. -/
theorem performs_assigned_elsewhere (steady : ctx.Steady) (root : ctx.blockPath = [])
    {p p' : ObjectPath} (hp : Key.OfObject p.keys) (hp' : Key.OfObject p'.keys) {value : Value}
    {block : Option (Block Statement)}
    (stay : ∀ b ∈ block, Statement.allStayInside b.statements = true) {src : Source}
    (read : ∀ b ∈ block, Statement.AllReadFrom src b.statements)
    (allowed : p'.Allowed ctx.inPrototype)
    (h : Performs (statements ctx [.object p (some (.assign value)) block]) () f) :
    ∃ f' m, Performs (statements ctx [.object p' (some (.assign value)) block]) () f' ∧
      (∀ es : Entries, es.Vacant p.keys → f es = es.set p.keys m) ∧
      ∀ es : Entries, es.Vacant p'.keys → f' es = es.set p'.keys m := by
  cases block with
  | none =>
    obtain ⟨_, n, hn, rfl⟩ := (performs_one_object_iff steady).mp h
    refine ⟨_, n, (performs_one_object_iff steady).mpr ⟨allowed, n, hn, rfl⟩, fun _ _ => ?_,
      fun _ _ => ?_⟩
    · rw [root, List.nil_append]
    · rw [root, List.nil_append]
  | some b =>
    obtain ⟨_, g, i, ⟨n, hn, rfl⟩, hi, rfl⟩ := (performs_one_block_iff steady).mp h
    have inside (path : ObjectPath) : ctx.inBlock path (some (.assign value)) =
        ctx.inside (path.keys ++ []) false := by
      simp only [Context.inBlock, Context.inside, root, List.nil_append, List.append_nil]
      rfl
    rw [inside] at hi
    obtain ⟨i', hi', φ, hφ, hφ'⟩ :=
      performs_elsewhere steady hp hp' (stay _ rfl) (read _ rfl) false hi
    rw [← inside] at hi'
    refine ⟨_, φ n, (performs_one_block_iff steady).mpr
      ⟨allowed, _, i', ⟨n, hn, rfl⟩, hi', rfl⟩, fun es vacant => ?_, fun es vacant => ?_⟩
    · rw [root]
      exact hφ es n vacant
    · rw [root]
      exact hφ' es n vacant

end Merge

/-! ### Outputs that could stand in place of the expression -/

/-- The path that the output of a DSL is assigned to on a tree of its own. -/
def ObjectPath.ofOutput : ObjectPath :=
  ⟨[.plain "value" Span.dummy]⟩

theorem Source.assigning_ofOutput (output : String) :
    assigning .ofOutput output = ofString ("value = " ++ output) none := by
  have print : String.ofList ObjectPath.ofOutput.print ++ " = " = "value = " := by decide
  rw [assigning, print]

/-- Whether the output is one value, maybe with a block that includes nothing, copies from beside
its targets only, and does not mention `@private`. -/
def IsSelfContained (output : String) : Prop :=
  ∃ path value block, (Source.ofString ("value = " ++ output) none).statements? =
      some [.object path (some (.assign value)) block] ∧
    ∀ b ∈ block, Statement.allStayInside b.statements = true

namespace Merge

variable {resolver : Resolver} {dsl : DslRegistry} {depth : Nat} {src : Source}
  {chain : List Path} {f : Entries → Entries}

/-- Both merges succeed from the state and leave the same tree, or both stop. -/
def EndsAlike (m n : Merge Unit) (s : MergeState) : Prop :=
  (∃ t t', m s = .ok () t ∧ n s = .ok () t' ∧ t.tree = t'.tree) ∨
    ∃ e e' t t', m s = .error e t ∧ n s = .error e' t'

theorem EndsAlike.of_performs {m n : Merge Unit} {s : MergeState} (hm : Steady m) (hn : Steady n)
    (there : ∀ f, Performs m () f → ∃ g, Performs n () g ∧ f s.tree = g s.tree)
    (back : ∀ g, Performs n () g → ∃ f, Performs m () f) : EndsAlike m n s := by
  rcases hm with ⟨⟨⟩, f, hf⟩ | ⟨stop, hstop⟩
  · obtain ⟨g, hg, same⟩ := there f hf
    obtain ⟨j, hj⟩ := hf s
    obtain ⟨j', hj'⟩ := hg s
    exact .inl ⟨_, _, hj, hj', same⟩
  · rcases hn with ⟨⟨⟩, g, hg⟩ | ⟨stop', hstop'⟩
    · obtain ⟨f, hf⟩ := back g hg
      exact absurd hf hstop.not_performs
    · obtain ⟨t, ht⟩ := hstop s
      obtain ⟨t', ht'⟩ := hstop' s
      exact .inr ⟨_, _, t, t', ht, ht'⟩

/-- Behind any path the text of a value and its block performs what it is read as. -/
theorem performs_assigning_iff {p path : ObjectPath} (leads : p.Leads) {output : String}
    {value : Value} {block : Option (Block Statement)}
    (read : (Source.ofString ("value = " ++ output) none).statements? =
      some [.object path (some (.assign value)) block]) :
    Performs (source resolver dsl (depth + 1) (.assigning p output) chain) () f ↔
      Performs (statements (.ofSource resolver dsl depth (.assigning p output) chain)
        [.object p (some (.assign value)) block]) () f := by
  have steady := Context.steady_ofSource resolver dsl depth (.assigning p output) chain
  have alike := Source.parse_assigning (p := .ofOutput) (by decide) leads output
  rw [Source.assigning_ofOutput] at alike
  rw [performs_source_succ_iff]
  unfold Source.statements? at read ⊢
  generalize (Source.ofString ("value = " ++ output) none).parse = out at alike read
  generalize (Source.assigning p output).parse = out' at alike
  cases alike with
  | error => cases read
  | @ok d d' _ _ renamed _ =>
    obtain ⟨path', op, block', rest, first, _, same⟩ := renamed
    obtain ⟨⟨⟩, rfl⟩ := List.cons.inj (first.symm.trans (Option.some.inj read))
    simp only [Option.some.injEq, exists_eq_left']
    rw [← performs_bareAll_iff steady, same, performs_bareAll_iff steady]

theorem Performs.allowed_of_object {ctx : Context} (steady : ctx.Steady) {path : ObjectPath}
    {operation : Option Operation} {block : Option (Block Statement)} {rest : List Statement}
    (h : Performs (statements ctx (.object path operation block :: rest)) () f) :
    path.Allowed ctx.inPrototype := by
  cases block with
  | none => exact ((performs_statements_object_iff steady).mp h).1
  | some b => exact ((performs_statements_block_iff steady).mp h).1

theorem ofOutput_allowed : ObjectPath.ofOutput.Allowed false :=
  ObjectPath.refusal?_eq_none_iff.mp (by decide +kernel)

theorem ofObject_ofOutput : Key.OfObject ObjectPath.ofOutput.keys :=
  ObjectPath.Leads.ofObject_keys (by decide) ofOutput_allowed
    (by simp [ObjectPath.ClearOfTags, ObjectPath.ofOutput])

theorem allReadFrom_block {path : ObjectPath} {operation : Option Operation}
    {block : Option (Block Statement)} {rest : List Statement}
    (h : Statement.AllReadFrom src (.object path operation block :: rest)) :
    ∀ b ∈ block, Statement.AllReadFrom src b.statements := by
  rintro b ⟨⟩
  exact h.1.2.2.2.1

/-- Where an output performs something on a tree of its own, it does in place of the expression,
and at a path where nothing stands it leaves there what it leaves on its own tree. -/
theorem performs_inlined {p : ObjectPath} (leads : p.Leads) (clear : p.ClearOfTags)
    (allowed : p.Allowed false) {output : String} (selfContained : IsSelfContained output)
    {g : Entries → Entries}
    (h : Performs (source resolver dsl depth (.ofString ("value = " ++ output) none) chain) () g) :
    ∃ f, Performs (source resolver dsl depth (.assigning p output) chain) () f ∧
      ∀ es : Entries, es.Vacant p.keys →
        f es = es.set p.keys ((Entries.get? (g []) "value").getD .null) := by
  obtain ⟨path, value, block, read, stay⟩ := selfContained
  cases depth with
  | zero => exact absurd h (stops_throw .depthExceeded).not_performs
  | succ depth =>
    rw [← Source.assigning_ofOutput, performs_assigning_iff (by decide) read] at h
    obtain ⟨f, m, hf, own, inlined⟩ := performs_assigned_elsewhere
      (Context.steady_ofSource _ _ _ _ _) rfl ofObject_ofOutput
      (leads.ofObject_keys allowed clear) stay
      (allReadFrom_block (Source.allReadFrom_of_statements? read)) allowed h
    refine ⟨f, (performs_assigning_iff leads read).mpr hf, fun es vacant => ?_⟩
    have empty : Entries.Vacant [] ObjectPath.ofOutput.keys :=
      ⟨ofObject_ofOutput.ne_nil, ofObject_ofOutput.no_tag, rfl⟩
    rw [inlined es vacant, own [] empty]
    rfl

/-- Where an output performs something in place of the expression, it does on a tree of its own. -/
theorem performs_of_inlined {p : ObjectPath} (leads : p.Leads) (clear : p.ClearOfTags)
    {output : String} (selfContained : IsSelfContained output)
    (h : Performs (source resolver dsl depth (.assigning p output) chain) () f) :
    p.Allowed false ∧ ∃ g,
      Performs (source resolver dsl depth (.ofString ("value = " ++ output) none) chain) () g := by
  obtain ⟨path, value, block, read, stay⟩ := selfContained
  cases depth with
  | zero => exact absurd h (stops_throw .depthExceeded).not_performs
  | succ depth =>
    have steady := Context.steady_ofSource resolver dsl depth (.assigning p output) chain
    rw [performs_assigning_iff leads read] at h
    have allowed : p.Allowed false := Performs.allowed_of_object steady h
    obtain ⟨g, _, hg, _⟩ := performs_assigned_elsewhere steady rfl
      (leads.ofObject_keys allowed clear) ofObject_ofOutput stay
      (allReadFrom_block (Source.allReadFrom_of_statements? read)) ofOutput_allowed h
    refine ⟨allowed, g, ?_⟩
    rw [← Source.assigning_ofOutput]
    exact (performs_assigning_iff (by decide) read).mpr hg

/-- The assignment of a DSL expression assigns what its output leaves under its key on a tree of its
own, and does nothing else. -/
theorem performs_dsl_assignment_iff {ctx : Context} (steady : ctx.Steady) {path : ObjectPath}
    {identifier code output : String} {span : Span} {transpiler : Transpiler}
    (registered : ctx.dsl.get? identifier = some transpiler)
    (transpiled : transpiler code = .ok output) :
    Performs (statement ctx (.object path (some (.assign (.dsl identifier code span))) none)) () f ↔
      path.Allowed ctx.inPrototype ∧ ∃ g,
        Performs (ctx.enter (.ofString ("value = " ++ output) none) ctx.chain) () g ∧
        f = (·.set (ctx.blockPath ++ path.keys) ((Entries.get? (g []) "value").getD .null)) := by
  rw [← statements_singleton, performs_one_object_iff steady]
  refine and_congr_right fun _ => ?_
  constructor
  · rintro ⟨n, hn, rfl⟩
    obtain ⟨transpiler', output', g, ht, ho, hg, rfl⟩ := (performs_dslNode_iff steady).mp hn
    obtain rfl := Option.some.inj (registered.symm.trans ht)
    obtain rfl := Except.ok.inj (transpiled.symm.trans ho)
    exact ⟨g, hg, rfl⟩
  · rintro ⟨g, hg, rfl⟩
    exact ⟨_, (performs_dslNode_iff steady).mpr
      ⟨transpiler, output, g, registered, transpiled, hg, rfl⟩, rfl⟩

/-- Where an output is one value, maybe with a block that speaks of nothing outside of it, and
nothing stands at a path yet, the assignment of the DSL expression and the output in its place make
the same tree, or both stop, unless a property in the path is named like a tag or like the key of
the prototypes. Whatever the output is, the assignment of the expression assigns what the output
leaves under its key on a tree of its own, and does nothing else. -/
theorem dsl_output_inlined {ctx : Context} {outer : List PathSegment} {path : ObjectPath}
    {identifier code output : String} {transpiler : Transpiler} (span : Span)
    (inside : Context.Within (.ofSource resolver dsl depth src chain) outer ctx)
    (registered : dsl.get? identifier = some transpiler)
    (transpiled : transpiler code = .ok output) :
    let assignment := Statement.object path (some (.assign (.dsl identifier code span))) none
    let whole : ObjectPath := ⟨outer ++ path.segments⟩
    (IsSelfContained output → whole.Leads → whole.ClearOfTags →
      (path.Allowed ctx.inPrototype → whole.Allowed false) →
      ∀ s, s.tree.getPath? whole.keys = none →
        EndsAlike (statement ctx assignment)
          (source resolver dsl depth (.assigning whole output) (chain ++ src.path.toList)) s) ∧
    ∀ s tree, (∃ t, statement ctx assignment s = .ok () t ∧ t.tree = tree) ↔
      path.Allowed ctx.inPrototype ∧ ∃ t,
        source resolver dsl depth (.ofString ("value = " ++ output) none)
          (chain ++ src.path.toList) {} = .ok () t ∧
        tree = s.tree.set whole.keys ((t.tree.get? "value").getD .null) := by
  intro assignment whole
  have steady := inside.steady (Context.steady_ofSource resolver dsl depth src chain)
  have target : ctx.blockPath ++ path.keys = whole.keys := by
    rw [inside.blockPath]
    exact (PathSegment.allKeys_append outer path.segments).symm
  have effect {f : Entries → Entries} : Performs (statement ctx assignment) () f ↔
      path.Allowed ctx.inPrototype ∧ ∃ g,
        Performs (source resolver dsl depth (.ofString ("value = " ++ output) none)
          (chain ++ src.path.toList)) () g ∧
        f = (·.set whole.keys ((Entries.get? (g []) "value").getD .null)) := by
    rw [← target]
    rw [inside.eq_inside] at steady ⊢
    exact performs_dsl_assignment_iff steady registered transpiled
  refine ⟨fun selfContained leads clear spellable s absent => ?_, fun s tree => ⟨?_, ?_⟩⟩
  · refine .of_performs (steady_statement steady _) (steady_source _ _ _) ?_ ?_
    · intro f hf
      obtain ⟨allowed, g, hg, rfl⟩ := effect.mp hf
      obtain ⟨f', hf', inlined⟩ :=
        performs_inlined leads clear (spellable allowed) selfContained hg
      have object := leads.ofObject_keys (spellable allowed) clear
      have vacant : s.tree.Vacant whole.keys :=
        ⟨object.ne_nil, object.no_tag, (getPath?_eq_at? _ object.ne_nil).symm.trans absent⟩
      exact ⟨f', hf', (inlined s.tree vacant).symm⟩
    · intro f' hf'
      obtain ⟨allowed, g, hg⟩ := performs_of_inlined leads clear selfContained hf'
      have here : path.Allowed ctx.inPrototype := fun segment hs =>
        PathSegment.Allowed.anywhere (allowed segment (List.mem_append_right _ hs)) _
      exact ⟨_, effect.mpr ⟨here, g, hg, rfl⟩⟩
  · rintro ⟨t, ok, rfl⟩
    obtain ⟨f, hf, eq⟩ := (steady_statement steady assignment).performs_of_ok ok
    obtain ⟨allowed, g, hg, rfl⟩ := effect.mp hf
    obtain ⟨j, hj⟩ := hg {}
    exact ⟨allowed, _, hj, eq⟩
  · rintro ⟨allowed, t, ok, rfl⟩
    obtain ⟨g, hg, eq⟩ := (steady_source depth _ _).performs_of_ok ok
    obtain ⟨j, hj⟩ := effect.mpr ⟨allowed, g, hg, rfl⟩ s
    exact ⟨_, hj, by rw [eq]⟩

/-- An output that is a null with a block, which copies from beside its target. -/
def copyOutput : String :=
  "null \x7b b < .c \x7d"

def copySource : Source :=
  .ofString ("value = " ++ copyOutput) none

def copyBlock : Block Statement :=
  ⟨⟨copySource, 13, 14⟩,
    [.object ⟨[.plain "b" ⟨copySource, 15, 16⟩]⟩
      (some (.copy ⟨⟨[.plain "c" ⟨copySource, 20, 21⟩]⟩, true⟩)) none],
    ⟨copySource, 22, 23⟩⟩

theorem statements_copySource :
    copySource.statements? = some [.object ⟨[.plain "value" ⟨copySource, 0, 5⟩]⟩
      (some (.assign (.null ⟨copySource, 8, 12⟩))) (some copyBlock)] := by
  with_unfolding_all rfl

theorem isSelfContained_copyOutput : IsSelfContained copyOutput := by
  refine ⟨_, _, _, statements_copySource, ?_⟩
  rintro b ⟨⟩
  decide

def copyDsl : DslRegistry :=
  ({} : DslRegistry).register "d" fun _ => .ok copyOutput

/-- Behind a path the output does what its block copies there, unless the copy sets up an
inheritance. -/
theorem performs_copyOutput_iff {p : ObjectPath} (leads : p.Leads) {f : Entries → Entries} :
    Performs (source resolver dsl (depth + 1) (.assigning p copyOutput) chain) () f ↔
      p.Allowed false ∧ ∃ copies,
        copyOrInherit? (p.keys ++ ["b"]) (p.keys ++ ["c"]) = some copies ∧
        f = copies ∘ (·.set p.keys .null) := by
  have steady := Context.steady_ofSource resolver dsl depth (.assigning p copyOutput) chain
  have b : ObjectPath.Allowed false ⟨[.plain "b" ⟨copySource, 15, 16⟩]⟩ :=
    ObjectPath.refusal?_eq_none_iff.mp (by decide +kernel)
  have c : ObjectPath.Allowed false ⟨[.plain "c" ⟨copySource, 20, 21⟩]⟩ :=
    ObjectPath.refusal?_eq_none_iff.mp (by decide +kernel)
  rw [performs_assigning_iff leads statements_copySource, performs_one_block_iff steady]
  refine and_congr_right fun _ => ?_
  have inner (i : Entries → Entries) : Performs (statements
      ((Context.ofSource resolver dsl depth (.assigning p copyOutput) chain).inBlock p
        (some (.assign (.null ⟨copySource, 8, 12⟩)))) copyBlock.statements) () i ↔
      copyOrInherit? (p.keys ++ ["b"]) (p.keys ++ ["c"]) = some i := by
    refine (performs_one_object_iff (by exact steady)).trans ?_
    have copies : (CopySource.mk ⟨[.plain "c" ⟨copySource, 20, 21⟩]⟩ true).keys (p.keys ++ ["b"]) =
        p.keys ++ ["c"] := congrArg (· ++ ["c"]) List.dropLast_concat
    constructor
    · rintro ⟨_, _, does⟩
      exact copies ▸ does
    · intro does
      exact ⟨b, c, copies.symm ▸ does⟩
  constructor
  · rintro ⟨_, copies, ⟨n, hn, rfl⟩, does, rfl⟩
    obtain ⟨rfl, -⟩ := performs_pure_iff.mp hn
    exact ⟨copies, (inner copies).mp does, rfl⟩
  · rintro ⟨copies, does, rfl⟩
    exact ⟨_, copies, ⟨.null, performs_pure _, rfl⟩, (inner copies).mpr does, rfl⟩

/-- The output as the value of an assignment of its own. -/
theorem performs_copySource :
    Performs (source resolver dsl (depth + 1) (.ofString ("value = " ++ copyOutput) none) chain) ()
      ((·.copy ["value", "b"] ["value", "c"]) ∘ (·.set ["value"] .null)) := by
  rw [← Source.assigning_ofOutput, performs_copyOutput_iff (by decide)]
  exact ⟨ofOutput_allowed, _, rfl, rfl⟩

/-- At `a` the expression and its output in its place make the same tree, with both of the keys that
the block speaks of. -/
theorem dsl_output_inlined_of_copy :
    let assignment : Statement :=
      .object ⟨[.plain "a" Span.dummy]⟩ (some (.assign (.dsl "d" "" Span.dummy))) none
    let ctx := Context.ofSource RunOptions.noFiles copyDsl 1 Source.nowhere []
    EndsAlike (statement ctx assignment)
        (source RunOptions.noFiles copyDsl 1 (.assigning ⟨[.plain "a" Span.dummy]⟩ copyOutput) [])
        {} ∧
      ∃ t, statement ctx assignment {} = .ok () t ∧
        t.tree = [("a", .map [("c", .map []), ("b", .map [])])] := by
  intro assignment ctx
  have plain : ObjectPath.Allowed false ⟨[.plain "a" Span.dummy]⟩ :=
    ObjectPath.refusal?_eq_none_iff.mp (by decide +kernel)
  have registered : copyDsl.get? "d" = some fun _ => .ok copyOutput := rfl
  have inside : Context.Within ctx [] ctx := .root
  have own : Performs (source RunOptions.noFiles copyDsl 1
      (.ofString ("value = " ++ copyOutput) none) []) () _ := performs_copySource
  constructor
  · exact (dsl_output_inlined Span.dummy inside registered rfl).1 isSelfContained_copyOutput
      (by decide) (by simp [ObjectPath.ClearOfTags]) (fun _ => plain) {} rfl
  · obtain ⟨_, ok⟩ := own {}
    exact ((dsl_output_inlined Span.dummy inside registered rfl).2 {} _).mpr ⟨plain, _, ok, rfl⟩

/-- Behind a property named like the key of prototypes the keys of a block pass for prototypes, and
no copy may be made between them, while on a tree of its own the same output is accepted. -/
theorem dsl_output_not_always_inlined :
    ¬∀ (resolver : Resolver) (dsl : DslRegistry) (depth : Nat) (src : Source) (chain : List Path)
      (path : ObjectPath) (identifier code output : String) (transpiler : Transpiler) (span : Span),
      dsl.get? identifier = some transpiler → transpiler code = .ok output →
      IsSelfContained output → path.Leads → ∀ s : MergeState, s.tree.getPath? path.keys = none →
      EndsAlike
        (statement (.ofSource resolver dsl depth src chain)
          (.object path (some (.assign (.dsl identifier code span))) none))
        (source resolver dsl depth (.assigning path output) (chain ++ src.path.toList)) s := by
  intro claimed
  let p : ObjectPath := ⟨[.metaProperty Key.prototypes Span.dummy]⟩
  have leads : p.Leads := by decide
  have steady := Context.steady_ofSource RunOptions.noFiles copyDsl 1 Source.nowhere []
  have allowed : p.Allowed false := ObjectPath.refusal?_eq_none_iff.mp (by decide +kernel)
  have registered : copyDsl.get? "d" = some fun _ => .ok copyOutput := rfl
  have assigned : Performs (statement (.ofSource RunOptions.noFiles copyDsl 1 Source.nowhere [])
      (.object p (some (.assign (.dsl "d" "" Span.dummy))) none)) () _ :=
    (performs_dsl_assignment_iff steady registered rfl).mpr ⟨allowed, _, performs_copySource, rfl⟩
  obtain ⟨_, ok⟩ := assigned {}
  rcases claimed RunOptions.noFiles copyDsl 1 Source.nowhere [] p "d" "" copyOutput _ Span.dummy
    registered rfl isSelfContained_copyOutput leads {} rfl with
    ⟨t, t', -, inlined, -⟩ | ⟨e, e', t, t', stops, -⟩
  · obtain ⟨f, hf, -⟩ := (steady_source _ _ _).performs_of_ok inlined
    obtain ⟨_, copies, does, -⟩ := (performs_copyOutput_iff leads).mp hf
    cases does
  · exact absurd (ok.symm.trans stops) (by simp)

end Merge

end FusionTree
