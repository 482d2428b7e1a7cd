import FusionTree.Proofs.Merge.Nesting
import FusionTree.Proofs.Merge.Outcome

/-!
# Copies from beside the target

A leading dot before the source of a copy stands for the keys of the target without the last one. If
the target ends in a key, these are the keys of the path it is in, and the copy is the absolute one
that spells out the path on both sides. If it ends in a property `@name` or in a prototype, the dot
stands for the place where the object keeps those.
-/

namespace FusionTree

open PathSegment (allKeys allKeys_append)

/-- The statement `before.last < .source`. -/
def Statement.relativeCopy (before : List PathSegment) (last : PathSegment)
    (source : List PathSegment) : Statement :=
  .object ⟨before ++ [last]⟩ (some (.copy ⟨⟨source⟩, true⟩)) none

/-- The statement `target < source`. -/
def Statement.absoluteCopy (target source : List PathSegment) : Statement :=
  .object ⟨target⟩ (some (.copy ⟨⟨source⟩, false⟩)) none

/-- The dot stands for the object that the target is in, and for the place in it that the last
segment of the target is kept at. -/
theorem CopySource.keys_relative (path : ObjectPath) (start : List String)
    (before : List PathSegment) (last : PathSegment) :
    CopySource.keys ⟨path, true⟩ (start ++ ObjectPath.keys ⟨before ++ [last]⟩) =
      start ++ allKeys before ++ last.place ++ path.keys := by
  have target : start ++ ObjectPath.keys ⟨before ++ [last]⟩ =
      start ++ allKeys before ++ last.place ++ [last.name] := by
    simp [ObjectPath.keys_eq_allKeys, last.keys_eq]
  simp only [CopySource.keys, if_true, Key.parentPath, target, List.dropLast_concat]

namespace Merge

variable {resolver : Resolver} {dsl : DslRegistry} {depth : Nat} {src : Source}
  {chain : List Path} {ctx root : Context} {outer before source target : List PathSegment}
  {last : PathSegment} {b c : Bool}

/-! ### Why a copy is refused -/

/-- Segments that may stand there do not change why the ones behind them are refused. -/
theorem refusal?_behind (allowed : ∀ s ∈ outer, s.Allowed b)
    (isPublic : ∀ s ∈ target, s.isPrivate = false) :
    ObjectPath.refusal? b ⟨outer ++ target⟩ = ObjectPath.refusal? c ⟨target⟩ := by
  have outer_none : ObjectPath.refusal? b ⟨outer⟩ = none :=
    ObjectPath.refusal?_eq_none_iff.mpr allowed
  rw [ObjectPath.refusal?_append, outer_none, Option.none_or]
  exact ObjectPath.refusal?_of_not_isPrivate isPublic b c

/-- A refusal on the left side comes before all on the right, so spelling out what the target begins
with in the source adds none. -/
theorem refusal?_or_spelled_out :
    (ObjectPath.refusal? c ⟨before ++ [last]⟩).or (ObjectPath.refusal? c ⟨before ++ source⟩) =
      (ObjectPath.refusal? c ⟨before ++ [last]⟩).or (ObjectPath.refusal? c ⟨source⟩) := by
  simp only [ObjectPath.refusal?_append]
  cases ObjectPath.refusal? c ⟨before⟩ <;> rfl

/-! ### What a copy comes to -/

/-- A relative copy inside blocks goes from the place that its target is kept at. -/
theorem comesTo_relativeCopy (inside : root.Within outer ctx) (atRoot : root.blockPath = [])
    (isPublic : ∀ s ∈ before ++ [last] ++ source, s.isPrivate = false) :
    ComesTo (statement ctx (.relativeCopy before last source))
      (copyOutcome c ⟨before ++ [last]⟩ ⟨source⟩ (allKeys (outer ++ before ++ [last]))
        (allKeys (outer ++ before) ++ last.place ++ allKeys source)) := by
  have same_refusal :
      (ObjectPath.refusal? c ⟨before ++ [last]⟩).or (ObjectPath.refusal? c ⟨source⟩) =
        (ObjectPath.refusal? ctx.inPrototype ⟨before ++ [last]⟩).or
          (ObjectPath.refusal? ctx.inPrototype ⟨source⟩) := by
    have left : ∀ s ∈ before ++ [last], s.isPrivate = false :=
      fun s hs => isPublic s (List.mem_append_left _ hs)
    have right : ∀ s ∈ source, s.isPrivate = false :=
      fun s hs => isPublic s (List.mem_append_right _ hs)
    rw [ObjectPath.refusal?_of_not_isPrivate left c ctx.inPrototype,
      ObjectPath.refusal?_of_not_isPrivate right c ctx.inPrototype]
  have block : ctx.blockPath = allKeys outer := by rw [inside.blockPath, atRoot, List.nil_append]
  have h := comesTo_copy ctx ⟨before ++ [last]⟩ ⟨⟨source⟩, true⟩
  rw [block, CopySource.keys_relative] at h
  rw [copyOutcome_congr same_refusal, List.append_assoc outer, allKeys_append outer,
    allKeys_append outer]
  exact h

/-- An absolute copy at the root that spells out the path of the blocks is refused for what stands
behind that path. -/
theorem comesTo_absoluteCopy (atRoot : root.blockPath = [])
    (allowed : ∀ s ∈ outer, s.Allowed root.inPrototype)
    (isPublic : ∀ s ∈ before ++ [last] ++ source, s.isPrivate = false) :
    ComesTo (statement root (.absoluteCopy (outer ++ before ++ [last]) (outer ++ before ++ source)))
      (copyOutcome c ⟨before ++ [last]⟩ ⟨source⟩ (allKeys (outer ++ before ++ [last]))
        (allKeys (outer ++ before ++ source))) := by
  have left : ∀ s ∈ before ++ [last], s.isPrivate = false :=
    fun s hs => isPublic s (List.mem_append_left _ hs)
  have right : ∀ s ∈ before ++ source, s.isPrivate = false := by
    intro s hs
    rcases List.mem_append.mp hs with hs | hs
    · exact left s (List.mem_append_left _ hs)
    · exact isPublic s (List.mem_append_right _ hs)
  have same_refusal :
      (ObjectPath.refusal? root.inPrototype ⟨outer ++ (before ++ [last])⟩).or
          (ObjectPath.refusal? root.inPrototype ⟨outer ++ (before ++ source)⟩) =
        (ObjectPath.refusal? c ⟨before ++ [last]⟩).or (ObjectPath.refusal? c ⟨source⟩) := by
    rw [refusal?_behind allowed left, refusal?_behind allowed right, refusal?_or_spelled_out]
  have h := comesTo_copy root ⟨outer ++ before ++ [last]⟩ ⟨⟨outer ++ before ++ source⟩, false⟩
  rw [atRoot] at h
  rw [← copyOutcome_congr same_refusal, ← List.append_assoc, ← List.append_assoc]
  exact h

/-! ### The leading dot -/

/-- Beside a key, a copy with a leading dot is the absolute copy that spells out the path of the
target on both sides, at a root where that path may be spelled out. Beside anything else, it is the
copy from the place that the target is kept at. -/
theorem relative_copy_from_beside
    (inside : Context.Within (.ofSource resolver dsl depth src chain) outer ctx)
    (isPublic : ∀ s ∈ before ++ [last] ++ source, s.isPrivate = false) :
    (last.isKey = true → ∀ inPrototype, (∀ s ∈ outer, s.Allowed inPrototype) →
      Agree (statement ctx (.relativeCopy before last source))
        (statement { Context.ofSource resolver dsl depth src chain with inPrototype }
          (.absoluteCopy (outer ++ before ++ [last]) (outer ++ before ++ source)))) ∧
    (CopySource.isBesidePrototype ⟨⟨source⟩, true⟩ ⟨before ++ [last]⟩ = false →
      ComesTo (statement ctx (.relativeCopy before last source))
        (copyOutcome false ⟨before ++ [last]⟩ ⟨source⟩ (allKeys (outer ++ before ++ [last]))
          (allKeys (outer ++ before) ++ last.place ++ allKeys source))) := by
  have relative := comesTo_relativeCopy inside rfl isPublic (c := false)
  refine ⟨fun key inPrototype allowed => relative.agree ?_, fun _ => relative⟩
  have same_keys : allKeys (outer ++ before) ++ last.place ++ allKeys source =
      allKeys (outer ++ before ++ source) := by
    have place : last.place = [] := by
      cases last with
      | plain | quoted => rfl
      | metaProperty | prototype => cases key
    rw [place, List.append_nil, allKeys_append (outer ++ before)]
  rw [same_keys]
  exact comesTo_absoluteCopy rfl allowed isPublic

/-- In the block `n.m`, `a < .b` copies as `n.m.a < n.m.b` does at the root. -/
theorem relative_copy_from_beside_in_block :
    let key (name : String) : PathSegment := .plain name Span.dummy
    let ctx := Context.alone.inBlock ⟨[key "n", key "m"]⟩ none
    Agree (statement ctx (.relativeCopy [] (key "a") [key "b"]))
      (statement .alone
        (.absoluteCopy [key "n", key "m", key "a"] [key "n", key "m", key "b"])) := by
  intro key ctx
  have allowed : ObjectPath.Allowed false ⟨[key "n", key "m"]⟩ :=
    ObjectPath.refusal?_eq_none_iff.mp (by decide +kernel)
  have inside : Context.alone.Within [key "n", key "m"] ctx := .block .root allowed none
  have isPublic : ∀ s ∈ [] ++ [key "a"] ++ [key "b"], s.isPrivate = false := by decide
  exact (relative_copy_from_beside inside isPublic).1 rfl false allowed

/-- Beside a property the dot stands for the place of the properties: `a.@x < .b` does not copy what
`a.@x < a.b` does. -/
theorem relative_copy_beside_property :
    ¬∀ (resolver : Resolver) (dsl : DslRegistry) (depth : Nat) (src : Source) (chain : List Path)
      (outer : List PathSegment) (ctx : Context) (before : List PathSegment) (last : PathSegment)
      (source : List PathSegment) (inPrototype : Bool),
      Context.Within (.ofSource resolver dsl depth src chain) outer ctx →
      (∀ s ∈ before ++ [last] ++ source, s.isPrivate = false) →
      (∀ s ∈ outer, s.Allowed inPrototype) →
      Agree (statement ctx (.relativeCopy before last source))
        (statement { Context.ofSource resolver dsl depth src chain with inPrototype }
          (.absoluteCopy (outer ++ before ++ [last]) (outer ++ before ++ source))) := by
  intro claimed
  let a : PathSegment := .plain "a" Span.dummy
  let b : PathSegment := .plain "b" Span.dummy
  let x : PathSegment := .metaProperty "x" Span.dummy
  have relative : Performs (statement .alone (.relativeCopy [a] x [b])) ()
      (·.copy ["a", Key.metaProperties, "x"] ["a", Key.metaProperties, "b"]) :=
    comesTo_copy .alone ⟨[a, x]⟩ ⟨⟨[b]⟩, true⟩
  have absolute : Performs (statement .alone (.absoluteCopy [a, x] [a, b])) ()
      (·.copy ["a", Key.metaProperties, "x"] ["a", "b"]) :=
    comesTo_copy .alone ⟨[a, x]⟩ ⟨⟨[a, b]⟩, false⟩
  let start : MergeState := { tree := [("a", .map [("b", .int 1)])] }
  obtain ⟨j, hr⟩ := relative start
  obtain ⟨j', ha⟩ := absolute start
  have agree := claimed _ _ _ _ _ [] .alone [a] x [b] false .root (by decide)
    (fun _ h => absurd h List.not_mem_nil) start
  rcases agree with ⟨t, t', hr', ha', same⟩ | ⟨p, p', t, t', hr', _⟩
  · obtain rfl := (EStateM.Result.ok.inj (hr.symm.trans hr')).2
    obtain rfl := (EStateM.Result.ok.inj (ha.symm.trans ha')).2
    have copied := congrArg (·.getPath? ["a", Key.metaProperties, "x"]) same
    cases copied
  · cases hr.symm.trans hr'

end Merge

end FusionTree
