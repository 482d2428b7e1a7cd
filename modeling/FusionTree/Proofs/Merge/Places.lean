import FusionTree.Proofs.Merge.Statement
import FusionTree.Proofs.Parser.Printing

/-!
# Places change nothing

Statements perform the same wherever they were read: the places of their parts are shown with
problems and play no other part.
-/

namespace FusionTree

theorem PathSegment.keys_bare (s : PathSegment) : s.bare.keys = s.keys := by
  cases s <;> rfl

theorem PathSegment.allowed_bare (s : PathSegment) (b : Bool) : s.bare.Allowed b ↔ s.Allowed b := by
  cases s <;> rfl

theorem ObjectPath.keys_bare (p : ObjectPath) : p.bare.keys = p.keys := by
  simp [keys, bare, List.flatMap_map, PathSegment.keys_bare]

theorem ObjectPath.allowed_bare (p : ObjectPath) (b : Bool) : p.bare.Allowed b ↔ p.Allowed b := by
  simp [Allowed, bare, PathSegment.allowed_bare]

theorem ObjectPath.isSinglePrototype_bare (p : ObjectPath) :
    p.bare.isSinglePrototype = p.isSinglePrototype := by
  obtain ⟨segments⟩ := p
  match segments with
  | [] | .plain .. :: _ | .quoted .. :: _ | .metaProperty .. :: _ => rfl
  | .prototype _ _ :: [] | .prototype _ _ :: _ :: _ => rfl

theorem isRootPrototypeDeclaration_bare (path : ObjectPath) (operation : Option Operation) :
    isRootPrototypeDeclaration path.bare (operation.map Operation.bare) =
      isRootPrototypeDeclaration path operation := by
  rcases operation with _ | value | span | source
  · rfl
  · rfl
  · rfl
  · simp [isRootPrototypeDeclaration, Operation.bare, CopySource.bare,
      ObjectPath.isSinglePrototype_bare]

theorem CopySource.keys_bare (source : CopySource) (target : List String) :
    source.bare.keys target = source.keys target := by
  rw [CopySource.keys, CopySource.keys, bare, ObjectPath.keys_bare]

theorem Context.inBlock_bare (ctx : Context) (path : ObjectPath) (operation : Option Operation) :
    ctx.inBlock path.bare (operation.map Operation.bare) = ctx.inBlock path operation := by
  simp only [Context.inBlock, ObjectPath.keys_bare, isRootPrototypeDeclaration_bare]

namespace Merge

variable {ctx : Context} {f : Entries → Entries}

theorem performs_nodeOf_bare_iff (steady : ctx.Steady) {value : Value} {n : Node} :
    Performs (nodeOf ctx value.bare) n id ↔ Performs (nodeOf ctx value) n id := by
  cases value with
  | dsl identifier code span =>
    exact (performs_dslNode_iff steady).trans (performs_dslNode_iff steady).symm
  | _ => rfl

theorem doesAny_bare_iff (steady : ctx.Steady) {target : List String}
    {operation : Option Operation} :
    Operation.DoesAny ctx target f (operation.map Operation.bare) ↔
      Operation.DoesAny ctx target f operation := by
  rcases operation with _ | value | span | source
  · rfl
  · exact exists_congr fun n => and_congr_left' (performs_nodeOf_bare_iff steady)
  · rfl
  · exact and_congr (ObjectPath.allowed_bare _ _) (by rw [CopySource.keys_bare])

theorem performs_includeFiles_dummy_iff (steady : ctx.Steady) {pattern : String} (span : Span)
    {files : List Path} :
    Performs (includeFiles ctx pattern Span.dummy files) () f ↔
      Performs (includeFiles ctx pattern span files) () f := by
  induction files generalizing f with
  | nil => rfl
  | cons file rest ih =>
    simp only [performs_includeFiles_cons_iff steady, performs_includeFile_iff steady, ih]

/-- Statements perform what they perform without their places. -/
theorem performs_bareAll_iff (steady : ctx.Steady) {ss : List Statement} :
    Performs (statements ctx (Statement.bareAll ss)) () f ↔ Performs (statements ctx ss) () f := by
  induction ss using Statement.induction generalizing ctx f with
  | nil => rfl
  | inclusion pattern span rest ih =>
    rw [Statement.bareAll, Statement.bare]
    simp only [performs_statements_inclusion_iff steady, ih steady,
      performs_includeFiles_dummy_iff steady span]
  | object path operation rest ih =>
    rw [Statement.bareAll, Statement.bare]
    simp only [performs_statements_object_iff steady, ih steady, ObjectPath.keys_bare,
      ObjectPath.allowed_bare, doesAny_bare_iff steady]
  | block path operation openBrace inner closeBrace rest ihInner ih =>
    rw [Statement.bareAll, Statement.bare]
    simp only [performs_statements_block_iff steady, ih steady, ObjectPath.keys_bare,
      ObjectPath.allowed_bare, doesAny_bare_iff steady, Context.inBlock_bare,
      ihInner (steady.inBlock path operation)]

end Merge

end FusionTree
