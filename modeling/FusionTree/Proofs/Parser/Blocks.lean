import FusionTree.Proofs.Parser.Abreast
import FusionTree.Proofs.Parser.MissingTokens
import FusionTree.Proofs.Parser.Paths
import FusionTree.Proofs.Parser.Printing

/-!
# Blocks within statements

What may stand in the block of a statement matters for reading the statement only behind the brace
that opens the block. A list of statements that is read with some room for blocks nests no deeper
than that, and is read with any other room that it does not exceed.
-/

namespace FusionTree

open Statement

/-- The beginning of a statement with a block: what stands before the block, and its brace. -/
structure Opening where
  path : ObjectPath
  operation : Option Operation
  brace : Token

namespace Parser

def beforeBrace : Parser (Option (ObjectPath × Option Operation)) := do
  if ← accept .inclusion then return none
  if ← acceptAny pathStarts then
    let path ← objectPath
    skipSmallGap
    let operation ← operation?
    skipSmallGap
    return some (path, operation)
  return none

/-- Reads a statement up to the brace that opens its block, and the brace, if there is one. -/
def opening : Parser (Option Opening) := do
  match ← beforeBrace with
  | none => return none
  | some (path, operation) =>
    onToken .openBrace (fun brace => return some ⟨path, operation, brace⟩) (return none)

def closing (o : Opening) (statements : List Statement) : Parser Statement :=
  onToken .closeBrace
    (fun closeBrace =>
      return .object o.path o.operation (some ⟨o.brace.span, statements, closeBrace.span⟩))
    (fail (.syntactic .unclosedBlock) o.brace.span)

def goOn (contents : Option (Parser (List Statement))) (o : Opening) : Parser Statement :=
  match contents with
  | none => fail (.syntactic (.nestingTooDeep maxNesting)) o.brace.span
  | some contents => contents >>= closing o

def noContents : Option (Parser (List Statement)) :=
  some (failHere .expectedStatement)

variable {inBlock : Bool} {contents : Option (Parser (List Statement))} {s s' : Reading}
variable {o : Opening} {st : Statement} {ss : List Statement}

/-- What has been looked at is a brace, and a block begins with it. -/
theorem run_block_of_lookahead {t : Token} (looked : s.lexer.lookahead = some t)
    (brace : t.kind = .openBrace) (path : ObjectPath) (operation : Option Operation) :
    (do return .object path operation (some (← block contents)) : Parser Statement).run s =
      (goOn contents ⟨path, operation, t⟩).run { s with lexer := s.lexer.consume } := by
  have taken : s.lexer.take .openBrace = (some t, s.lexer.consume) := by
    simp [Lexer.take, Lexer.tryMatch_of_lookahead looked, Lexer.holds, looked, brace]
  have opens : (expect .openBrace).run s = .ok t { s with lexer := s.lexer.consume } :=
    run_expect_eq_ok_iff.mpr ⟨by rw [taken], by rw [taken]⟩
  cases contents with
  | none => simp [block, opens, goOn, fail]
  | some p =>
    simp only [block, run_bind, opens, goOn, closing, onToken]
    cases p.run { s with lexer := s.lexer.consume } with
    | error => rfl
    | ok ss s₁ =>
      simp only [take]
      cases (s₁.lexer.take .closeBrace).1 <;> rfl

/-- What may stand in a block matters only if one is opened. -/
theorem run_statement_eq (inBlock : Bool) (contents : Option (Parser (List Statement)))
    (s : Reading) :
    (statement inBlock contents).run s =
      match opening.run s with
      | .ok (some o) s' => (goOn contents o).run s'
      | _ => (statement inBlock noContents).run s := by
  simp only [statement, opening, beforeBrace, object, run_bind]
  cases (accept .inclusion).run s with
  | error => rfl
  | ok isInclude s₁ =>
  cases isInclude with
  | true => rfl
  | false =>
  simp only [Bool.false_eq_true, if_false, run_bind]
  cases (acceptAny pathStarts).run s₁ with
  | error => rfl
  | ok isObject s₂ =>
  cases isObject with
  | false => rfl
  | true =>
  simp only [if_true, run_bind]
  cases objectPath.run s₂ with
  | error => rfl
  | ok path s₃ =>
  simp only
  cases skipSmallGap.run s₃ with
  | error => rfl
  | ok _ s₄ =>
  simp only [getLexer]
  cases operation?.run s₄ with
  | error => rfl
  | ok operation s₅ =>
  simp only
  cases skipSmallGap.run s₅ with
  | error => rfl
  | ok _ s₆ =>
  simp only [run_pure, onToken, run_bind, accept, take]
  cases held : (s₆.lexer.tryMatch .openBrace).holds .openBrace with
  | false => simp [Lexer.take, held]
  | true =>
    obtain ⟨t, looked, brace⟩ := Lexer.exists_of_holds held
    have taken : s₆.lexer.take .openBrace = (some t, (s₆.lexer.tryMatch .openBrace).consume) := by
      simp [Lexer.take, held, looked]
    simp only [if_true, taken, run_pure]
    exact run_block_of_lookahead looked brace path operation

/-! ### Depth -/

theorem depthAll_le_iff {bound : Nat} :
    depthAll ss ≤ bound ↔ ∀ st ∈ ss, st.depth ≤ bound := by
  induction ss with
  | nil => simp [depthAll]
  | cons st ss ih => simp only [depthAll, Nat.max_le, ih, List.forall_mem_cons]

theorem ensures_depth_object {bound : Nat}
    (h : ∀ p, contents = some p → p.Ensures (depthAll · < bound)) :
    (object inBlock contents).Ensures (·.depth ≤ bound) := by
  refine Ensures.bind_right fun path => Ensures.bind_right fun _ => ?_
  refine Ensures.bind_right fun afterPath => Ensures.bind_right fun operation => ?_
  refine Ensures.bind_right fun _ => Ensures.bind_right fun opens => ?_
  split
  · exact (ensures_block h).bind fun b hb => ensures_pure hb
  · cases operation with
    | none => exact ensures_fail _ _
    | some op => exact Ensures.bind_right fun _ => ensures_pure (Nat.zero_le _)

theorem ensures_depth_statement {bound : Nat}
    (h : ∀ p, contents = some p → p.Ensures (depthAll · < bound)) :
    (statement inBlock contents).Ensures (·.depth ≤ bound) := by
  refine Ensures.bind_right fun isInclude => ?_
  split
  · refine Ensures.bind_right fun keyword => Ensures.bind_right fun _ => ?_
    refine Ensures.bind_right fun ⟨pattern, span⟩ => Ensures.bind_right fun _ => ?_
    exact Ensures.bind_right fun _ => ensures_pure (Nat.zero_le _)
  · refine Ensures.bind_right fun isObject => ?_
    split
    · exact ensures_depth_object h
    · exact ensures_failHere _

/-- Statements that are read with some room nest no deeper. -/
theorem ensures_depth_statements (room : Nat) (inBlock : Bool) :
    (statements room inBlock).Ensures (depthAll · ≤ room) := by
  have all {bound : Nat} {done : Parser Bool} {p : Parser Statement} {progress : p.Progresses}
      (h : p.Ensures (·.depth ≤ bound)) :
      (repeatUntil done p progress).Ensures (depthAll · ≤ bound) :=
    fun s ss s' ran => depthAll_le_iff.mpr (h.repeatUntil s ss s' ran)
  induction room generalizing inBlock with
  | zero => exact all (ensures_depth_statement nofun)
  | succ room ih =>
    refine all (ensures_depth_statement fun p hp => ?_)
    cases hp
    exact fun s ss s' ran => Nat.lt_succ_of_le (ih true s ss s' ran)

theorem ensures_depth_contentsIn (room : Nat) :
    (statement inBlock (contentsIn room)).Ensures (·.depth ≤ room) := by
  refine ensures_depth_statement fun p hp => ?_
  cases room with
  | zero => cases hp
  | succ room =>
    cases hp
    exact fun s ss s' ran => Nat.lt_succ_of_le (ensures_depth_statements room true s ss s' ran)

/-! ### Room -/

theorem ensures_depth_closing : (closing o ss).Ensures (·.depth = depthAll ss + 1) := by
  refine ensures_onToken (fun closeBrace => ensures_pure ?_) (ensures_fail _ _)
  rw [depth]

theorem repeatUntil_of_imp {done : Parser Bool} {p q : Parser Statement} {progress : p.Progresses}
    {progress' : q.Progresses} {bound : Nat}
    (imp : ∀ s st s', p.run s = .ok st s' → st.depth ≤ bound → q.run s = .ok st s')
    (read : (repeatUntil done p progress).run s = .ok ss s') (fits : depthAll ss ≤ bound) :
    (repeatUntil done q progress').run s = .ok ss s' := by
  change repeatUntilFrom done p progress s = .ok ss s' at read
  rw [repeatUntil_eq]
  fun_induction repeatUntilFrom done p progress s generalizing ss s' with
  | case1 => cases read
  | case2 s s₁ asked =>
    cases read
    simp [asked]
  | case3 => cases read
  | case4 => cases read
  | case5 s s₁ asked st s₂ first lt more s₃ rest ih =>
    cases read
    obtain ⟨here, there⟩ := Nat.max_le.mp fits
    have behind := ih there rest
    rw [← repeatUntil_eq] at behind
    simp [asked, imp s₁ st s₂ first here, behind]

/-- What reads the lists of statements in blocks with more room reads a statement with more, too. -/
theorem run_statement_of_lists {room room' : Nat}
    (lists : ∀ k, room' = k + 1 → ∀ room s ss s', (statements room true).run s = .ok ss s' →
      depthAll ss ≤ k → (statements k true).run s = .ok ss s')
    (read : (statement inBlock (contentsIn room)).run s = .ok st s') (fits : st.depth ≤ room') :
    (statement inBlock (contentsIn room')).run s = .ok st s' := by
  rw [run_statement_eq] at read ⊢
  cases opens : opening.run s with
  | error e s₁ => simpa only [opens] using read
  | ok o s₁ =>
    cases o with
    | none => simpa only [opens] using read
    | some o =>
      simp only [opens] at read ⊢
      cases room with
      | zero => cases read
      | succ room =>
        simp only [contentsIn, goOn, run_bind] at read
        cases inside : (statements room true).run s₁ with
        | error => simp [inside] at read
        | ok ss s₂ =>
          simp only [inside] at read
          have depth := ensures_depth_closing _ _ _ read
          obtain ⟨k, rfl⟩ : ∃ k, room' = k + 1 := ⟨room' - 1, by omega⟩
          have inside' := lists k rfl room s₁ ss s₂ inside (by omega)
          simpa only [contentsIn, goOn, run_bind, inside'] using read

/-- Statements that are read with some room for blocks are read with any room that is enough. -/
theorem run_statements_of_depth_le {room : Nat} (room' : Nat)
    (read : (statements room inBlock).run s = .ok ss s') (fits : depthAll ss ≤ room') :
    (statements room' inBlock).run s = .ok ss s' := by
  induction room' generalizing room inBlock s ss s' with
  | zero =>
    rw [statements_eq] at read ⊢
    exact repeatUntil_of_imp (fun _ _ _ => run_statement_of_lists nofun) read fits
  | succ k ih =>
    rw [statements_eq] at read ⊢
    refine repeatUntil_of_imp (fun _ _ _ => run_statement_of_lists ?_) read fits
    rintro _ ⟨⟩ room s ss s' read fits
    exact ih read fits

/-- A statement that is read with some room for blocks is read with any room that is enough. -/
theorem run_statement_of_depth_le {room : Nat} (room' : Nat)
    (read : (statement inBlock (contentsIn room)).run s = .ok st s') (fits : st.depth ≤ room') :
    (statement inBlock (contentsIn room')).run s = .ok st s' :=
  run_statement_of_lists (fun k _ _ _ _ _ => run_statements_of_depth_le k) read fits

end Parser

end FusionTree
