import FusionTree.Proofs.Merge.Accounting
import FusionTree.Proofs.Merge.Keys

/-!
# What operations perform

When a merge accepts an operation on a path, and what it does to the tree then. A context is
`Steady` if entering a source is, and reports what it stops for; then every operation is steady too.
What an operation does depends on the context only by what can be entered from it and by whether
`@private` is allowed.
-/

namespace FusionTree

/-- Entering a source from the context does the same from every state, and reports what it stops
for. -/
def Context.Steady (ctx : Context) : Prop :=
  ∀ source chain, Merge.Steady (ctx.enter source chain) ∧
    Merge.Reports (ctx.enter source chain) fun _ => True

def CopySource.keys (source : CopySource) (target : List String) : List String :=
  (if source.relative then Key.parentPath target else []) ++ source.path.keys

/-- What a copy between two paths does to the tree; `none` where it is refused. -/
def Entries.copyOrInherit? (target source : List String) : Option (Entries → Entries) :=
  match Key.isPrototypePath target, Key.isPrototypePath source with
  | true, true =>
    match target, source with
    | [_, _], [_, parent] => some (·.set (target ++ [Key.parent]) (.string parent))
    | _, _ => none
  | false, false => some (·.copy target source)
  | _, _ => none

/-- Between prototypes a copy writes a name, otherwise it copies. -/
theorem Entries.copyOrInherit?_eq_some {target source : List String} {f : Entries → Entries}
    (h : copyOrInherit? target source = some f) :
    (Key.isPrototypePath target = false ∧ f = (·.copy target source)) ∨
      ∃ parent, f = (·.set (target ++ [Key.parent]) (.string parent)) := by
  unfold copyOrInherit? at h
  split at h
  · split at h
    · exact .inr ⟨_, (Option.some.inj h).symm⟩
    · cases h
  · rename_i notPrototype _
    exact .inl ⟨notPrototype, (Option.some.inj h).symm⟩
  · cases h

/-- What an operation on a path does to the tree, where the context accepts it. -/
def Operation.Does (ctx : Context) (target : List String) (f : Entries → Entries) :
    Operation → Prop
  | .assign value => ∃ n, Merge.Performs (Merge.nodeOf ctx value) n id ∧ f = (·.set target n)
  | .unset _ => f = (·.unset target)
  | .copy source => source.path.Allowed ctx.inPrototype ∧
      Entries.copyOrInherit? target (source.keys target) = some f

def Operation.DoesAny (ctx : Context) (target : List String) (f : Entries → Entries) :
    Option Operation → Prop
  | none => f = id
  | some op => op.Does ctx target f

def Operation.Allowed (inPrototype : Bool) : Option Operation → Prop
  | some (.copy source) => source.path.Allowed inPrototype
  | _ => True

namespace Merge

variable {ctx : Context} {f : Entries → Entries}

/-! ### Values -/

theorem performs_outputValue {identifier output : String} {span : Span} {g : Entries → Entries}
    (steady : ctx.Steady)
    (h : Performs (ctx.enter (Source.ofString ("value = " ++ output) none) ctx.chain) () g) :
    Performs (outputValue ctx identifier output span) ((Entries.get? (g []) "value").getD .null)
      id :=
  (h.apart (steady _ _).2).bind_quiet (performs_pure _)

theorem exists_stops_outputValue {identifier output : String} {span : Span} {stop : Stop}
    (steady : ctx.Steady)
    (h : Stops (ctx.enter (Source.ofString ("value = " ++ output) none) ctx.chain) stop) :
    ∃ stop', Stops (outputValue ctx identifier output span) stop' := by
  have apart := h.apart (steady _ _).2
  cases stop with
  | problem p => exact ⟨_, apart.bind_stops (stops_fail _ span)⟩
  | depthExceeded => exact ⟨_, apart.bind_stops (stops_throw _)⟩

theorem quiet_outputValue (steady : ctx.Steady) (identifier output : String) (span : Span) :
    Quiet (outputValue ctx identifier output span) := by
  rcases (steady (Source.ofString ("value = " ++ output) none) ctx.chain).1 with
    ⟨⟨⟩, g, hg⟩ | ⟨stop, hstop⟩
  · exact (performs_outputValue steady hg).quiet
  · obtain ⟨_, h⟩ := exists_stops_outputValue steady hstop
    exact h.quiet

theorem quiet_dslNode (steady : ctx.Steady) (identifier code : String) (span : Span) :
    Quiet (dslNode ctx identifier code span) := by
  unfold dslNode
  split
  · exact (stops_fail _ _).quiet
  · refine (performs_record _).quiet.bind fun _ => ?_
    split
    · exact (stops_fail _ _).quiet
    · exact (performs_note _).quiet.bind fun _ => quiet_outputValue steady _ _ _

/-- A DSL expression stands for what its output leaves on a tree of its own. -/
theorem performs_dslNode_iff (steady : ctx.Steady) {identifier code : String} {span : Span}
    {n : Node} :
    Performs (dslNode ctx identifier code span) n id ↔
      ∃ transpiler output g, ctx.dsl.get? identifier = some transpiler ∧
        transpiler code = .ok output ∧
        Performs (ctx.enter (Source.ofString ("value = " ++ output) none) ctx.chain) () g ∧
        n = (Entries.get? (g []) "value").getD .null := by
  unfold dslNode
  cases ht : ctx.dsl.get? identifier with
  | none => simpa using (stops_fail _ _).not_performs
  | some transpiler =>
    cases ho : transpiler code with
    | error message =>
      have hstop (cause : Cause) : Stops (record (·.use identifier code) >>= fun _ =>
          (fail cause span : Merge Node)) (.problem ⟨cause, span⟩) :=
        (performs_record _).bind_stops (stops_fail cause span)
      simpa [ho] using (hstop _).not_performs
    | ok output =>
      have quiet : Quiet (note (.dslOutputRead identifier) >>= fun _ =>
          outputValue ctx identifier output span) :=
        (performs_note _).quiet.bind fun _ => quiet_outputValue steady _ _ _
      simp only [ho]
      rw [(performs_record _).performs_bind_iff fun _ => quiet.steady,
        (performs_note _).performs_bind_iff fun _ => (quiet_outputValue steady _ _ _).steady]
      rcases (steady (Source.ofString ("value = " ++ output) none) ctx.chain).1 with
        ⟨⟨⟩, g, hg⟩ | ⟨stop, hstop⟩
      · constructor
        · intro h
          exact ⟨transpiler, output, g, rfl, ho, hg, (h.unique (performs_outputValue steady hg)).1⟩
        · rintro ⟨_, output', g', ⟨⟩, ho', hg', rfl⟩
          obtain rfl : output = output' := Except.ok.inj (ho.symm.trans ho')
          exact performs_outputValue steady hg'
      · constructor
        · intro h
          obtain ⟨_, hstop'⟩ := exists_stops_outputValue steady hstop
          exact absurd h hstop'.not_performs
        · rintro ⟨_, output', g', ⟨⟩, ho', hg', rfl⟩
          obtain rfl : output = output' := Except.ok.inj (ho.symm.trans ho')
          exact absurd hg' hstop.not_performs

theorem quiet_nodeOf (steady : ctx.Steady) (value : Value) : Quiet (nodeOf ctx value) := by
  cases value with
  | dsl identifier code span => exact quiet_dslNode steady identifier code span
  | _ => exact (performs_pure _).quiet

/-! ### Operations -/

def copyBetween (target path : List String) (span : Span) : Merge Unit :=
  match Key.isPrototypePath target, Key.isPrototypePath path with
  | true, true =>
    match target, path with
    | [_, _], [_, parent] => update (·.set (target ++ [Key.parent]) (.string parent))
    | _, _ => fail .nestedInheritance span
  | false, false => update (·.copy target path)
  | _, _ => fail .inheritanceMismatch span

theorem copy_eq (ctx : Context) (target : List String) (source : CopySource) (span : Span) :
    copy ctx target source span =
      extend ctx (if source.relative then Key.parentPath target else []) source.path.segments >>=
        fun path => copyBetween target path span := rfl

theorem steady_copyBetween (target path : List String) (span : Span) :
    Steady (copyBetween target path span) := by
  unfold copyBetween
  split
  · split
    · exact (performs_update _).steady
    · exact (stops_fail _ _).steady
  · exact (performs_update _).steady
  · exact (stops_fail _ _).steady

theorem performs_copyBetween_iff {target path : List String} {span : Span} :
    Performs (copyBetween target path span) () f ↔ Entries.copyOrInherit? target path = some f := by
  have updates (g : Entries → Entries) : Performs (update g) () f ↔ some g = some f := by
    constructor
    · intro h
      rw [((performs_update g).unique h).2]
    · rintro ⟨⟩
      exact performs_update _
  have fails (cause : Cause) : Performs (fail cause span) () f ↔ none = some f := by
    simpa using (stops_fail cause span).not_performs
  unfold copyBetween Entries.copyOrInherit?
  split
  · split
    · exact updates _
    · exact fails _
  · exact updates _
  · exact fails _

theorem performs_copy_iff {target : List String} {source : CopySource} {span : Span} :
    Performs (copy ctx target source span) () f ↔
      source.path.Allowed ctx.inPrototype ∧
        Entries.copyOrInherit? target (source.keys target) = some f := by
  rw [copy_eq, (quiet_extend _ _ _).performs_bind_iff fun _ => steady_copyBetween _ _ _]
  constructor
  · rintro ⟨path, hpath, hf⟩
    obtain ⟨allowed, rfl⟩ := performs_extend_iff.mp hpath
    exact ⟨allowed, performs_copyBetween_iff.mp hf⟩
  · rintro ⟨allowed, hf⟩
    exact ⟨_, performs_extend_iff.mpr ⟨allowed, rfl⟩, performs_copyBetween_iff.mpr hf⟩

theorem steady_operate (steady : ctx.Steady) (target : List String) (span : Span)
    (op : Operation) : Steady (operate ctx target span op) := by
  cases op with
  | assign value =>
    exact (quiet_nodeOf steady value).steady.bind fun _ => (performs_update _).steady
  | unset => exact (performs_update (·.unset target)).steady
  | copy source =>
    exact (quiet_extend _ _ _).steady.bind fun _ => steady_copyBetween _ _ _

theorem performs_operate_iff (steady : ctx.Steady) {target : List String} {span : Span}
    {op : Operation} : Performs (operate ctx target span op) () f ↔ op.Does ctx target f := by
  cases op with
  | assign value =>
    change Performs (Merge.nodeOf ctx value >>= fun n => update (·.set target n)) () f ↔ _
    rw [(quiet_nodeOf steady value).performs_bind_iff fun _ => (performs_update _).steady]
    constructor
    · rintro ⟨n, hn, hf⟩
      exact ⟨n, hn, (hf.unique (performs_update _)).2⟩
    · rintro ⟨n, hn, rfl⟩
      exact ⟨n, hn, performs_update _⟩
  | unset =>
    constructor
    · intro h
      exact (h.unique (performs_update (·.unset target))).2
    · rintro rfl
      exact performs_update (·.unset target)
  | copy source => exact performs_copy_iff

/-! ### Object statements -/

def operateAny (ctx : Context) (path : ObjectPath) (target : List String) :
    Option Operation → Merge Unit
  | none => pure ()
  | some op => operate ctx target (path.span.join op.span) op

theorem object_eq (ctx : Context) (path : ObjectPath) (operation : Option Operation) :
    object ctx path operation =
      extend ctx ctx.blockPath path.segments >>= fun target =>
        note (.objectVisited target) >>= fun _ =>
          operateAny ctx path target operation >>= fun _ => pure target := by
  cases operation <;> rfl

theorem steady_operateAny (steady : ctx.Steady) (path : ObjectPath) (target : List String)
    (operation : Option Operation) : Steady (operateAny ctx path target operation) := by
  cases operation with
  | none => exact (performs_pure ()).steady
  | some op => exact steady_operate steady target _ op

theorem performs_operateAny_iff (steady : ctx.Steady) {path : ObjectPath} {target : List String}
    {operation : Option Operation} :
    Performs (operateAny ctx path target operation) () f ↔
      Operation.DoesAny ctx target f operation := by
  cases operation with
  | none =>
    constructor
    · intro h
      exact (performs_pure_iff.mp h).2
    · rintro rfl
      exact performs_pure ()
  | some op => exact performs_operate_iff steady

theorem steady_noted (steady : ctx.Steady) (path : ObjectPath) (operation : Option Operation)
    (target : List String) :
    Steady (note (.objectVisited target) >>= fun _ =>
      operateAny ctx path target operation >>= fun _ => pure target) :=
  (performs_note _).steady.bind fun _ =>
    (steady_operateAny steady path target operation).bind fun _ => (performs_pure target).steady

theorem steady_object (steady : ctx.Steady) (path : ObjectPath) (operation : Option Operation) :
    Steady (object ctx path operation) := by
  rw [object_eq]
  exact (quiet_extend _ _ _).steady.bind (steady_noted steady path operation)

/-- An object statement apart from its block: its path is accepted, and then the operation does to
it what it says. -/
theorem performs_object_iff (steady : ctx.Steady) {path : ObjectPath}
    {operation : Option Operation} {target : List String} :
    Performs (object ctx path operation) target f ↔
      path.Allowed ctx.inPrototype ∧ target = ctx.blockPath ++ path.keys ∧
        Operation.DoesAny ctx target f operation := by
  have after (t : List String) :
      Performs (note (.objectVisited t) >>= fun _ =>
          operateAny ctx path t operation >>= fun _ => pure t) target f ↔
        target = t ∧ Operation.DoesAny ctx t f operation := by
    have operated := steady_operateAny steady path t operation
    rw [(performs_note _).performs_bind_iff fun _ =>
        operated.bind fun _ => (performs_pure t).steady,
      performs_bind_pure_iff operated, performs_operateAny_iff steady]
  rw [object_eq, (quiet_extend _ _ _).performs_bind_iff (steady_noted steady path operation)]
  constructor
  · rintro ⟨t, ht, h⟩
    obtain ⟨rfl, does⟩ := (after t).mp h
    obtain ⟨allowed, rfl⟩ := performs_extend_iff.mp ht
    exact ⟨allowed, rfl, does⟩
  · rintro ⟨allowed, rfl, does⟩
    exact ⟨_, performs_extend_iff.mpr ⟨allowed, rfl⟩, (after _).mpr ⟨rfl, does⟩⟩

/-- An object statement and what comes after it, which may depend on the path. -/
theorem performs_object_bind_iff (steady : ctx.Steady) {path : ObjectPath}
    {operation : Option Operation} {k : List String → Merge Unit} (hk : ∀ t, Steady (k t)) :
    Performs (object ctx path operation >>= k) () f ↔
      path.Allowed ctx.inPrototype ∧ ∃ g h,
        Operation.DoesAny ctx (ctx.blockPath ++ path.keys) g operation ∧
        Performs (k (ctx.blockPath ++ path.keys)) () h ∧ f = h ∘ g := by
  rw [performs_bind_iff (steady_object steady path operation) hk]
  constructor
  · rintro ⟨target, g, h, hg, hh, rfl⟩
    obtain ⟨allowed, rfl, does⟩ := (performs_object_iff steady).mp hg
    exact ⟨allowed, g, h, does, hh, rfl⟩
  · rintro ⟨allowed, g, h, does, hh, rfl⟩
    exact ⟨_, g, h, (performs_object_iff steady).mpr ⟨allowed, rfl, does⟩, hh, rfl⟩

/-- The same with a block, which may depend on the path, before what comes after it. -/
theorem performs_object_block_iff (steady : ctx.Steady) {path : ObjectPath}
    {operation : Option Operation} {inner : List String → Merge Unit} {rest : Merge Unit}
    (hi : ∀ t, Steady (inner t)) (hr : Steady rest) :
    Performs (object ctx path operation >>= fun t => inner t >>= fun _ => rest) () f ↔
      path.Allowed ctx.inPrototype ∧ ∃ g i h,
        Operation.DoesAny ctx (ctx.blockPath ++ path.keys) g operation ∧
        Performs (inner (ctx.blockPath ++ path.keys)) () i ∧ Performs rest () h ∧
        f = h ∘ i ∘ g := by
  rw [performs_object_bind_iff steady fun t => (hi t).bind fun _ => hr]
  simp only [performs_seq_iff (hi _) hr]
  constructor
  · rintro ⟨allowed, g, _, does, ⟨i, h, hi, hh, rfl⟩, rfl⟩
    exact ⟨allowed, g, i, h, does, hi, hh, rfl⟩
  · rintro ⟨allowed, g, i, h, does, hi, hh, rfl⟩
    exact ⟨allowed, g, h ∘ i, does, ⟨i, h, hi, hh, rfl⟩, rfl⟩

end Merge

/-! ### Contexts from which more can be entered -/

/-- The first context stands in the same file as the second, and sources that can be entered from
the second can be entered from the first with the same effect. -/
structure Context.Extends (ctx' ctx : Context) : Prop where
  resolver : ctx'.resolver = ctx.resolver
  dsl : ctx'.dsl = ctx.dsl
  file : ctx'.file = ctx.file
  chain : ctx'.chain = ctx.chain
  enter : ∀ source chain g, Merge.Performs (ctx.enter source chain) () g →
    Merge.Performs (ctx'.enter source chain) () g

theorem Merge.Performs.nodeOf_of_extends {ctx ctx' : Context} {value : Value} {n : Node}
    (h : Performs (nodeOf ctx value) n id) (steady : ctx.Steady) (steady' : ctx'.Steady)
    (larger : ctx'.Extends ctx) : Performs (nodeOf ctx' value) n id := by
  cases value with
  | dsl identifier code span =>
    obtain ⟨transpiler, output, g, ht, ho, hg, hn⟩ := (performs_dslNode_iff steady).mp h
    refine (performs_dslNode_iff steady').mpr ⟨transpiler, output, g, ?_, ho, ?_, hn⟩
    · rw [larger.dsl, ht]
    · rw [larger.chain]
      exact larger.enter _ _ _ hg
  | _ => exact h

namespace Operation.DoesAny

variable {ctx ctx' : Context} {target : List String} {f : Entries → Entries}
  {operation : Option Operation}

theorem allowed (h : DoesAny ctx target f operation) : Allowed ctx.inPrototype operation := by
  cases operation with
  | none => trivial
  | some op =>
    cases op with
    | copy source => exact h.1
    | _ => trivial

theorem of_extends (h : DoesAny ctx target f operation) (steady : ctx.Steady)
    (steady' : ctx'.Steady) (larger : ctx'.Extends ctx)
    (allowed : Allowed ctx'.inPrototype operation) : DoesAny ctx' target f operation := by
  cases operation with
  | none => exact h
  | some op =>
    cases op with
    | assign value =>
      obtain ⟨n, hn, hf⟩ := h
      exact ⟨n, hn.nodeOf_of_extends steady steady' larger, hf⟩
    | unset span => exact h
    | copy source => exact ⟨allowed, h.2⟩

end Operation.DoesAny

end FusionTree
