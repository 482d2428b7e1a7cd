import FusionTree.Proofs.Merge.Statement

/-!
# What copies come to

A merge comes to a change of the tree or to a cause for which it stops, and for a copy the outcome
can be computed: the first segment that may not stand where it does is the cause, and after that the
keys of both paths decide. Two merges that come to the same `Agree`, though they may show different
places and note different steps.
-/

namespace FusionTree

namespace Merge

variable {α : Type}

/-! ### Outcomes -/

/-- What the merge does from every state: it changes the tree by a function, or it stops for a
cause. -/
def ComesTo (m : Merge Unit) : Except Cause (Entries → Entries) → Prop
  | .ok f => Performs m () f
  | .error cause => StopsFor m cause

/-- The merges make the same tree of every tree, or stop for the same cause. -/
def Agree (m n : Merge Unit) : Prop :=
  ∀ s, (∃ t t', m s = .ok () t ∧ n s = .ok () t' ∧ t.tree = t'.tree) ∨
    ∃ p p' t t', m s = .error (.problem p) t ∧ n s = .error (.problem p') t' ∧ p.cause = p'.cause

variable {outcome : Except Cause (Entries → Entries)}

theorem ComesTo.agree {m n : Merge Unit} (h : ComesTo m outcome) (h' : ComesTo n outcome) :
    Agree m n := by
  intro s
  cases outcome with
  | ok f =>
    obtain ⟨j, hj⟩ := h s
    obtain ⟨j', hj'⟩ := h' s
    exact .inl ⟨_, _, hj, hj', rfl⟩
  | error cause =>
    obtain ⟨span, hs⟩ := h
    obtain ⟨span', hs'⟩ := h'
    obtain ⟨t, ht⟩ := hs s
    obtain ⟨t', ht'⟩ := hs' s
    exact .inr ⟨_, _, t, t', ht, ht', rfl⟩

theorem Performs.bind_comesTo {m : Merge α} {k : α → Merge Unit} {a : α} (h : Performs m a id)
    (h' : ComesTo (k a) outcome) : ComesTo (m >>= k) outcome := by
  cases outcome with
  | ok f => exact h.bind_quiet h'
  | error cause => exact h.bind_stopsFor h'

theorem ComesTo.bind_pure {m : Merge Unit} (h : ComesTo m outcome) :
    ComesTo (m >>= fun _ => pure ()) outcome := by
  cases outcome with
  | ok f => exact Performs.bind h (performs_pure ())
  | error cause => exact StopsFor.bind h _

/-! ### Copies -/

def copyOrRefuse (target path : List String) : Except Cause (Entries → Entries) :=
  match Entries.copyOrInherit? target path with
  | some f => .ok f
  | none =>
    .error (if Key.isPrototypePath target && Key.isPrototypePath path then .nestedInheritance
      else .inheritanceMismatch)

/-- What the copy `p < source` comes to, where its paths lead to the keys `target` and `path`. -/
def copyOutcome (inPrototype : Bool) (p source : ObjectPath) (target path : List String) :
    Except Cause (Entries → Entries) :=
  match (p.refusal? inPrototype).or (source.refusal? inPrototype) with
  | some cause => .error cause
  | none => copyOrRefuse target path

/-- Paths matter to the outcome by why they are refused, and by their keys. -/
theorem copyOutcome_congr {b c : Bool} {p source p' source' : ObjectPath}
    (h : (p.refusal? b).or (source.refusal? b) = (p'.refusal? c).or (source'.refusal? c))
    (target path : List String) :
    copyOutcome b p source target path = copyOutcome c p' source' target path := by
  unfold copyOutcome
  rw [h]

theorem comesTo_copyBetween (target path : List String) (span : Span) :
    ComesTo (copyBetween target path span) (copyOrRefuse target path) := by
  unfold copyBetween copyOrRefuse Entries.copyOrInherit?
  split
  · rename_i ht hp
    split
    · exact performs_update _
    · rw [ht, hp]
      exact stopsFor_fail _ span
  · exact performs_update _
  · rename_i not_both _
    have : (Key.isPrototypePath target && Key.isPrototypePath path) = false := by
      rw [Bool.eq_false_iff, ne_eq, Bool.and_eq_true]
      exact fun ⟨ht, hp⟩ => not_both ht hp
    simp only [this, Bool.false_eq_true, if_false]
    exact stopsFor_fail _ span

theorem statement_object_eq (ctx : Context) (path : ObjectPath) (operation : Option Operation) :
    statement ctx (.object path operation none) =
      extend ctx ctx.blockPath path.segments >>= fun target =>
        note (.objectVisited target) >>= fun _ =>
          operateAny ctx path target operation >>= fun _ => pure () := by
  rw [statement, discard, map_const, Function.comp_apply, map_eq_pure_bind, object_eq]
  simp only [bind_assoc, pure_bind, Function.const_apply]

/-- A copy is refused for its first segment that may not stand there, on the left side before the
right one; otherwise the keys of both paths tell what it does. -/
theorem comesTo_copy (ctx : Context) (p : ObjectPath) (source : CopySource) :
    ComesTo (statement ctx (.object p (some (.copy source)) none))
      (copyOutcome ctx.inPrototype p source.path (ctx.blockPath ++ p.keys)
        (source.keys (ctx.blockPath ++ p.keys))) := by
  rw [statement_object_eq, copyOutcome]
  cases hp : p.refusal? ctx.inPrototype with
  | some cause => exact (stopsFor_extend hp _).bind _
  | none =>
    have extended := performs_extend (ObjectPath.refusal?_eq_none_iff.mp hp) ctx.blockPath
    refine extended.bind_comesTo ((performs_note _).bind_comesTo (ComesTo.bind_pure ?_))
    simp only [Option.none_or]
    change ComesTo (copy ctx _ source _) _
    rw [copy_eq]
    cases hs : source.path.refusal? ctx.inPrototype with
    | some cause => exact (stopsFor_extend hs _).bind _
    | none =>
      exact (performs_extend (ObjectPath.refusal?_eq_none_iff.mp hs) _).bind_comesTo
        (comesTo_copyBetween _ _ _)

end Merge

end FusionTree
