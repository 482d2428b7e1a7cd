import FusionTree.Parser.Statement

/-!
# Paths as they are read

A parser `Ensures` what holds of every value it succeeds with. The object paths in a source all have
a segment, since a path is read by its first one.
-/

namespace FusionTree

def ObjectPath.Named (path : ObjectPath) : Prop := path.segments ≠ []

mutual

/-- Whether the statement speaks of paths with segments only. -/
def Statement.Named : Statement → Prop
  | .inclusion .. => True
  | .object path _ none => path.Named
  | .object path _ (some ⟨_, inner, _⟩) => path.Named ∧ Statement.AllNamed inner

def Statement.AllNamed : List Statement → Prop
  | [] => True
  | s :: rest => s.Named ∧ Statement.AllNamed rest

end

theorem Statement.allNamed_of_forall {ss : List Statement} (h : ∀ s ∈ ss, s.Named) :
    Statement.AllNamed ss := by
  induction ss with
  | nil => trivial
  | cons s rest ih => exact ⟨h s (by simp), ih fun t ht => h t (by simp [ht])⟩

namespace Parser

variable {α β : Type}

def Ensures (p : Parser α) (P : α → Prop) : Prop :=
  ∀ s a s', p.run s = .ok a s' → P a

theorem ensures_pure {P : α → Prop} {a : α} (h : P a) : (pure a : Parser α).Ensures P := by
  intro s b s' hb
  rw [run_pure] at hb
  cases hb
  exact h

theorem ensures_fail {P : α → Prop} (cause : Cause) (span : Span) :
    (fail cause span : Parser α).Ensures P :=
  fun _ _ _ h => by cases h

theorem Ensures.bind {p : Parser α} {f : α → Parser β} {P : α → Prop} {Q : β → Prop}
    (hp : p.Ensures P) (hf : ∀ a, P a → (f a).Ensures Q) : (p >>= f).Ensures Q := by
  intro s b s' h
  rw [run_bind] at h
  split at h
  · rename_i a s₁ hr
    exact hf a (hp s a s₁ hr) s₁ b s' h
  · cases h

theorem Ensures.bind_right {p : Parser α} {f : α → Parser β} {Q : β → Prop}
    (hf : ∀ a, (f a).Ensures Q) : (p >>= f).Ensures Q :=
  Ensures.bind (P := fun _ => True) (fun _ _ _ _ => trivial) fun a _ => hf a

theorem ensures_failHere {P : α → Prop} (error : SyntaxError) :
    (failHere error : Parser α).Ensures P :=
  Ensures.bind_right fun span => ensures_fail _ span

theorem ensures_onToken {P : α → Prop} {kind : TokenKind} {found : Token → Parser α}
    {otherwise : Parser α} (hf : ∀ t, (found t).Ensures P) (ho : otherwise.Ensures P) :
    (onToken kind found otherwise).Ensures P := by
  refine Ensures.bind_right fun token => ?_
  cases token with
  | some t => exact hf t
  | none => exact ho

theorem Ensures.repeatUntil {done : Parser Bool} {p : Parser α} {progress : p.Progresses}
    {P : α → Prop} (h : p.Ensures P) :
    (repeatUntil done p progress).Ensures fun as => ∀ a ∈ as, P a := by
  intro s as s' hr
  replace hr : repeatUntilFrom done p progress s = .ok as s' := hr
  fun_induction repeatUntilFrom done p progress s generalizing as s' with
  | case1 => cases hr
  | case2 => cases hr; simp
  | case3 => cases hr
  | case4 => cases hr
  | case5 s s₁ hd a s₂ hp lt as s₃ hl ih =>
    cases hr
    intro b hb
    rcases List.mem_cons.mp hb with rfl | hb
    · exact h _ _ _ hp
    · exact ih _ _ hl b hb

theorem ensures_objectPath : objectPath.Ensures ObjectPath.Named := by
  refine Ensures.bind_right fun first => Ensures.bind_right fun more => ensures_pure ?_
  exact List.cons_ne_nil first more

theorem ensures_inclusion (inBlock : Bool) : (inclusion inBlock).Ensures Statement.Named := by
  refine Ensures.bind_right fun keyword => Ensures.bind_right fun _ => ?_
  refine Ensures.bind_right fun ⟨pattern, span⟩ => Ensures.bind_right fun _ => ?_
  exact Ensures.bind_right fun _ => ensures_pure trivial

theorem ensures_block {contents : Option (Parser (List Statement))} {P : List Statement → Prop}
    (h : ∀ p, contents = some p → p.Ensures P) :
    (block contents).Ensures fun b => P b.statements := by
  refine Ensures.bind_right fun openBrace => ?_
  cases contents with
  | none => exact ensures_fail _ _
  | some p =>
    refine (h p rfl).bind fun statements hs => ?_
    exact ensures_onToken (fun t => ensures_pure hs) (ensures_fail _ _)

theorem ensures_object {inBlock : Bool} {contents : Option (Parser (List Statement))}
    (h : ∀ p, contents = some p → p.Ensures Statement.AllNamed) :
    (object inBlock contents).Ensures Statement.Named := by
  refine ensures_objectPath.bind fun path hp => Ensures.bind_right fun _ => ?_
  refine Ensures.bind_right fun afterPath => Ensures.bind_right fun operation => ?_
  refine Ensures.bind_right fun _ => Ensures.bind_right fun opens => ?_
  split
  · refine (ensures_block h).bind fun b hb => ensures_pure ?_
    rw [Statement.Named]
    exact ⟨hp, hb⟩
  · cases operation with
    | none => exact ensures_fail _ _
    | some op =>
      refine Ensures.bind_right fun _ => ensures_pure ?_
      rw [Statement.Named]
      exact hp

theorem ensures_statement {inBlock : Bool} {contents : Option (Parser (List Statement))}
    (h : ∀ p, contents = some p → p.Ensures Statement.AllNamed) :
    (statement inBlock contents).Ensures Statement.Named := by
  refine Ensures.bind_right fun isInclude => ?_
  split
  · exact ensures_inclusion inBlock
  · refine Ensures.bind_right fun isObject => ?_
    split
    · exact ensures_object h
    · exact ensures_failHere _

theorem Ensures.repeatUntil_allNamed {done : Parser Bool} {p : Parser Statement}
    {progress : p.Progresses} (h : p.Ensures Statement.Named) :
    (Parser.repeatUntil done p progress).Ensures Statement.AllNamed :=
  fun s ss s' hs => Statement.allNamed_of_forall (h.repeatUntil s ss s' hs)

theorem ensures_statements (room : Nat) (inBlock : Bool) :
    (statements room inBlock).Ensures Statement.AllNamed := by
  induction room generalizing inBlock with
  | zero => exact (ensures_statement fun _ hp => by cases hp).repeatUntil_allNamed
  | succ room ih =>
    refine (ensures_statement fun p hp => ?_).repeatUntil_allNamed
    cases hp
    exact ih true

theorem ensures_document : document.Ensures fun d => Statement.AllNamed d.statements := by
  refine (ensures_statements maxNesting false).bind fun statements hs => ?_
  exact Ensures.bind_right fun lexer => ensures_pure hs

end Parser

theorem Source.allNamed_of_parse {src : Source} {document : Document} {r : Reading}
    (h : src.parse = .ok document r) : Statement.AllNamed document.statements :=
  Parser.ensures_document _ _ _ h

end FusionTree
