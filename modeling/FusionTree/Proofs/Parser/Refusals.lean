import FusionTree.Parser.Statement

/-!
# Why sources are refused

A source is not read for one of two kinds of causes: no rule matches where a token has to be, or the
tokens there do not go on as the grammar says. Nothing else is refused before the statements are
merged.
-/

namespace FusionTree

def Cause.IsOfReading : Cause → Prop
  | lexical .. | syntactic _ => True
  | _ => False

namespace Parser

variable {α β : Type}

def RefusesReading (p : Parser α) : Prop :=
  ∀ s e s', p.run s = .error e s' → e.cause.IsOfReading

/-! ### Rules -/

theorem refuses_pure (a : α) : RefusesReading (pure a) := fun _ _ _ h => by cases h

theorem RefusesReading.bind {p : Parser α} {f : α → Parser β} (hp : p.RefusesReading)
    (hf : ∀ a, (f a).RefusesReading) : (p >>= f).RefusesReading := by
  intro s e s' h
  rw [run_bind] at h
  split at h
  · exact hf _ _ _ _ h
  · rename_i failed
    cases h
    exact hp _ _ _ failed

theorem refuses_syntactic (error : SyntaxError) (span : Span) :
    RefusesReading (fail (.syntactic error) span : Parser α) := by
  rintro s _ _ ⟨⟩
  trivial

theorem refuses_lexical (kind : TokenKind) (found : Option Char) (span : Span) :
    RefusesReading (fail (.lexical kind found) span : Parser α) := by
  rintro s _ _ ⟨⟩
  trivial

/-- A parser that never fails. -/
theorem refuses_of_ok {p : Parser α} (h : ∀ s, ∃ a s', p.run s = .ok a s') :
    p.RefusesReading := by
  intro s e s' failed
  obtain ⟨a, s', ok⟩ := h s
  rw [ok] at failed
  cases failed

theorem refuses_failHere (error : SyntaxError) : RefusesReading (failHere error : Parser α) :=
  (refuses_of_ok fun _ => ⟨_, _, rfl⟩).bind fun _ => refuses_syntactic _ _

theorem refuses_getLexer : RefusesReading getLexer := refuses_of_ok fun _ => ⟨_, _, rfl⟩

theorem refuses_noteInclude (pattern : String) : RefusesReading (noteInclude pattern) :=
  refuses_of_ok fun _ => ⟨_, _, rfl⟩

theorem refuses_accept (kind : TokenKind) : RefusesReading (accept kind) :=
  refuses_of_ok fun _ => ⟨_, _, rfl⟩

theorem refuses_take (kind : TokenKind) : RefusesReading (take kind) :=
  refuses_of_ok fun _ => ⟨_, _, rfl⟩

theorem refuses_skipSmallGap : RefusesReading skipSmallGap := refuses_of_ok fun _ => ⟨_, _, rfl⟩

theorem refuses_skipBigGap : RefusesReading skipBigGap := refuses_of_ok fun _ => ⟨_, _, rfl⟩

theorem refuses_onToken {kind : TokenKind} {found : Token → Parser α} {otherwise : Parser α}
    (hf : ∀ t, (found t).RefusesReading) (ho : otherwise.RefusesReading) :
    (onToken kind found otherwise).RefusesReading := by
  refine (refuses_take kind).bind fun token => ?_
  cases token with
  | some t => exact hf t
  | none => exact ho

theorem refuses_expect (kind : TokenKind) : RefusesReading (expect kind) := by
  refine refuses_onToken refuses_pure (refuses_getLexer.bind fun lexer => ?_)
  split
  · exact refuses_failHere _
  · exact refuses_lexical _ _ _

theorem RefusesReading.eachAfter {kind : TokenKind} {ne : kind ≠ .endOfInput} {p : Parser α}
    (hp : p.RefusesReading) : (eachAfter kind ne p).RefusesReading := by
  intro s e s' h
  change eachAfterFrom kind ne p s = .error e s' at h
  fun_induction eachAfterFrom kind ne p s with
  | case1 => cases h
  | case2 s t lexer ht e₁ s₁ failed =>
    cases h
    exact hp _ _ _ failed
  | case3 s t lexer ht a s₁ ok lt e₂ s₂ failed ih =>
    cases h
    exact ih failed
  | case4 => cases h

theorem RefusesReading.repeatUntil {done : Parser Bool} {p : Parser α} {progress : p.Progresses}
    (hd : done.RefusesReading) (hp : p.RefusesReading) :
    (repeatUntil done p progress).RefusesReading := by
  intro s e s' h
  change repeatUntilFrom done p progress s = .error e s' at h
  fun_induction repeatUntilFrom done p progress s with
  | case1 s e₁ s₁ failed =>
    cases h
    exact hd _ _ _ failed
  | case2 => cases h
  | case3 s s₁ ok e₂ s₂ failed =>
    cases h
    exact hp _ _ _ failed
  | case4 s s₁ ok a s₂ ok' lt e₃ s₃ failed ih =>
    cases h
    exact ih failed
  | case5 => cases h

/-! ### The grammar -/

theorem refuses_pathSegment : RefusesReading pathSegment :=
  refuses_onToken
    (fun _ => (refuses_onToken refuses_pure (refuses_failHere _)).bind fun _ =>
      (refuses_expect _).bind fun _ => refuses_pure _) <|
  refuses_onToken (fun _ => (refuses_expect _).bind fun _ => refuses_pure _) <|
  refuses_onToken (fun _ => refuses_pure _) <|
  refuses_onToken (fun _ => refuses_pure _) <|
  refuses_onToken (fun _ => refuses_pure _) <| refuses_failHere _

theorem refuses_objectPath : RefusesReading objectPath :=
  refuses_pathSegment.bind fun _ => refuses_pathSegment.eachAfter.bind fun _ => refuses_pure _

theorem refuses_value : RefusesReading value :=
  refuses_onToken (fun _ => refuses_pure _) <|
  refuses_onToken (fun _ => refuses_pure _) <|
  refuses_onToken (fun _ => refuses_pure _) <|
  refuses_onToken (fun _ => refuses_onToken (fun _ => refuses_pure _) (refuses_syntactic _ _)) <|
  refuses_onToken (fun _ => refuses_pure _) <|
  refuses_onToken (fun _ => refuses_pure _) <|
  refuses_onToken (fun _ => refuses_pure _) <|
  refuses_onToken (fun _ => refuses_pure _) <|
  refuses_onToken (fun _ => refuses_pure _) <|
  refuses_onToken (fun _ => refuses_pure _) <| refuses_failHere _

theorem refuses_operation? : RefusesReading operation? :=
  refuses_onToken
    (fun _ => refuses_skipSmallGap.bind fun _ => refuses_value.bind fun _ => refuses_pure _) <|
  refuses_onToken (fun _ => refuses_pure _) <|
  refuses_onToken
    (fun _ => refuses_skipSmallGap.bind fun _ => (refuses_take _).bind fun _ =>
      refuses_objectPath.bind fun _ => refuses_pure _) <| refuses_pure _

theorem refuses_endOfStatement (inBlock : Bool) : RefusesReading (endOfStatement inBlock) := by
  refine refuses_skipSmallGap.bind fun _ => (refuses_accept _).bind fun atEnd => ?_
  split
  · exact refuses_pure _
  refine (refuses_take _).bind fun newline => ?_
  split
  · exact refuses_pure _
  split
  · refine (refuses_accept _).bind fun closes => ?_
    split
    · exact refuses_pure _
    · exact refuses_failHere _
  · exact refuses_failHere _

theorem refuses_inclusion (inBlock : Bool) : RefusesReading (inclusion inBlock) := by
  have pattern : RefusesReading filePattern :=
    refuses_onToken (fun _ => refuses_pure _) <|
    refuses_onToken (fun _ => refuses_pure _) <|
    refuses_onToken (fun _ => refuses_pure _) <| refuses_failHere _
  exact (refuses_expect _).bind fun _ => (refuses_take _).bind fun _ => pattern.bind fun _ =>
    (refuses_endOfStatement inBlock).bind fun _ => (refuses_noteInclude _).bind fun _ =>
      refuses_pure _

def ContentsRefuse (contents : Option (Parser (List Statement))) : Prop :=
  ∀ p, contents = some p → p.RefusesReading

variable {contents : Option (Parser (List Statement))}

theorem refuses_block (h : ContentsRefuse contents) : RefusesReading (block contents) := by
  refine (refuses_expect _).bind fun openBrace => ?_
  cases contents with
  | none => exact refuses_syntactic _ _
  | some p =>
    exact (h p rfl).bind fun _ => refuses_onToken (fun _ => refuses_pure _) (refuses_syntactic _ _)

theorem refuses_object (inBlock : Bool) (h : ContentsRefuse contents) :
    RefusesReading (object inBlock contents) := by
  refine refuses_objectPath.bind fun _ => refuses_skipSmallGap.bind fun _ =>
    refuses_getLexer.bind fun _ => refuses_operation?.bind fun operation =>
    refuses_skipSmallGap.bind fun _ => (refuses_accept _).bind fun opens => ?_
  split
  · exact (refuses_block h).bind fun _ => refuses_pure _
  · cases operation with
    | none => exact refuses_syntactic _ _
    | some op => exact (refuses_endOfStatement inBlock).bind fun _ => refuses_pure _

theorem refuses_acceptAny (kinds : List TokenKind) : RefusesReading (acceptAny kinds) := by
  induction kinds with
  | nil => exact refuses_pure _
  | cons kind kinds ih =>
    refine (refuses_accept kind).bind fun accepted => ?_
    split
    · exact refuses_pure _
    · exact ih

theorem refuses_statement (inBlock : Bool) (h : ContentsRefuse contents) :
    RefusesReading (statement inBlock contents) := by
  refine (refuses_accept _).bind fun isInclude => ?_
  split
  · exact refuses_inclusion inBlock
  refine (refuses_acceptAny _).bind fun isObject => ?_
  split
  · exact refuses_object inBlock h
  · exact refuses_failHere _

theorem refuses_endOfStatements (inBlock : Bool) : RefusesReading (endOfStatements inBlock) := by
  refine refuses_skipBigGap.bind fun _ => (refuses_accept _).bind fun atEnd => ?_
  split
  · exact refuses_pure _
  split
  · exact refuses_accept _
  · exact refuses_pure _

theorem refuses_statements (room : Nat) (inBlock : Bool) :
    RefusesReading (statements room inBlock) := by
  induction room generalizing inBlock with
  | zero => exact (refuses_endOfStatements _).repeatUntil (refuses_statement _ nofun)
  | succ room ih =>
    refine (refuses_endOfStatements _).repeatUntil (refuses_statement _ fun p hp => ?_)
    cases hp
    exact ih true

end Parser

/-- Why a source cannot be read: a token is missing, or tokens stand where the grammar has none of
their kind. -/
theorem Source.isOfReading_of_parse {src : Source} {p : Problem} {r : Reading}
    (h : src.parse = .error p r) : p.cause.IsOfReading := by
  have document : Parser.document.RefusesReading :=
    (Parser.refuses_statements maxNesting false).bind fun _ =>
      Parser.refuses_getLexer.bind fun _ => Parser.refuses_pure _
  exact document _ _ _ h

end FusionTree
