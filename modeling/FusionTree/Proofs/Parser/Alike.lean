import FusionTree.Proofs.Parser.PathRoundTrip

/-!
# Parsers do not see where they stand

What a parser makes of a text does not depend on the source around it. Two readings with the same
text left and the same lookahead are `Alike`, wherever they stand in their sources, and from alike
readings a parser comes to alike ends: both times it fails, or both times it succeeds, with values
that differ in places only, and leaves readings that are alike again. There is one rule for each way
to put parsers together, and one fact for each rule of the grammar.
-/

namespace FusionTree

def Token.bare (t : Token) : TokenKind × List Char :=
  (t.kind, t.lexeme)

namespace Statement

theorem bare_object_congr {path path' : ObjectPath} (h : path.bare = path'.bare)
    (op : Option Operation) (block : Option (Block Statement)) :
    (object path op block).bare = (object path' op block).bare := by
  cases block <;> simp only [Statement.bare, h]

theorem bareAll_eq_map (ss : List Statement) : bareAll ss = ss.map bare := by
  induction ss with
  | nil => rfl
  | cons s rest ih => rw [bareAll, List.map_cons, ih]

end Statement

namespace Lexer

/-- The lexers differ in places only. -/
structure Alike (lx other : Lexer) : Prop where
  rest : lx.rest = other.rest
  lookahead : lx.lookahead.map Token.bare = other.lookahead.map Token.bare

variable {lx other : Lexer}

theorem Alike.consume (h : lx.Alike other) : lx.consume.Alike other.consume :=
  ⟨h.rest, rfl⟩

theorem holds_eq (lx : Lexer) (kind : TokenKind) :
    lx.holds kind = (lx.lookahead.map Token.bare).any (·.1 = kind) := by
  cases h : lx.lookahead <;> simp [holds, h, Token.bare]

theorem Alike.holds (h : lx.Alike other) (kind : TokenKind) : lx.holds kind = other.holds kind := by
  rw [holds_eq, holds_eq, h.lookahead]

theorem Alike.isSome_lookahead (h : lx.Alike other) :
    lx.lookahead.isSome = other.lookahead.isSome := by
  simpa using congrArg Option.isSome h.lookahead

theorem Alike.takeLexeme (h : lx.Alike other) (kind : TokenKind) (lexeme : List Char) :
    (lx.takeLexeme kind lexeme).Alike (other.takeLexeme kind lexeme) := by
  cases lexeme with
  | nil => exact h
  | cons c tail => exact ⟨by simp [Lexer.takeLexeme, h.rest], rfl⟩

theorem Alike.generate (h : lx.Alike other) (kind : TokenKind) :
    (lx.generate kind).Alike (other.generate kind) := by
  have lexeme := h.takeLexeme kind ((kind.lexeme? lx.rest).getD [])
  unfold Lexer.generate
  rw [← h.rest]
  split
  · exact ⟨by simp only [h.rest], rfl⟩
  · exact lexeme

theorem Alike.tryMatch (h : lx.Alike other) (kind : TokenKind) :
    (lx.tryMatch kind).Alike (other.tryMatch kind) := by
  unfold Lexer.tryMatch
  rw [← h.isSome_lookahead]
  split
  · exact h
  · exact h.generate kind

theorem Alike.take (h : lx.Alike other) (kind : TokenKind) :
    (lx.take kind).1.map Token.bare = (other.take kind).1.map Token.bare ∧
      (lx.take kind).2.Alike (other.take kind).2 := by
  have matched := h.tryMatch kind
  unfold Lexer.take
  dsimp only
  rw [← matched.holds kind]
  split
  · exact ⟨matched.lookahead, matched.consume⟩
  · exact ⟨rfl, matched⟩

theorem Alike.takeAny (h : lx.Alike other) (kinds : List TokenKind) :
    (lx.takeAny kinds).1 = (other.takeAny kinds).1 ∧
      (lx.takeAny kinds).2.Alike (other.takeAny kinds).2 := by
  induction kinds generalizing lx other with
  | nil => exact ⟨rfl, h⟩
  | cons kind kinds ih =>
    obtain ⟨same, behind⟩ := h.take kind
    cases taken : (lx.take kind).1 with
    | some token =>
      rw [taken, Option.map_some] at same
      obtain ⟨token', taken', _⟩ := Option.map_eq_some_iff.mp same.symm
      rw [takeAny_of_some taken, takeAny_of_some taken']
      exact ⟨rfl, behind⟩
    | none =>
      rw [taken, Option.map_none] at same
      have taken' := Option.map_eq_none_iff.mp same.symm
      rw [takeAny_of_none taken, takeAny_of_none taken']
      exact ih behind

theorem Alike.skip (h : lx.Alike other) (kinds : List TokenKind)
    (noEnd : TokenKind.endOfInput ∉ kinds) :
    (lx.skip kinds noEnd).Alike (other.skip kinds noEnd) := by
  fun_induction Lexer.skip kinds noEnd lx generalizing other with
  | case1 lx next eq lt ih =>
    obtain ⟨same, behind⟩ := h.takeAny kinds
    rw [eq] at same behind
    rw [skip_of_true same.symm]
    exact ih behind
  | case2 lx next eq =>
    obtain ⟨same, behind⟩ := h.takeAny kinds
    rw [eq] at same behind
    rwa [skip_of_false same.symm]

end Lexer

namespace Parser

/-- Both outcomes are problems, or related values with readings left that are alike. -/
inductive Outcome.Alike {α β : Type} (E : α → β → Prop) : Outcome α → Outcome β → Prop
  | ok {a : α} {b : β} {s t : Reading} (same : E a b) (behind : s.lexer.Alike t.lexer) :
      Outcome.Alike E (.ok a s) (.ok b t)
  | error {p q : Problem} {s t : Reading} : Outcome.Alike E (.error p s) (.error q t)

/-- From readings that are alike the parsers come to outcomes that are alike. -/
def Alike {α β : Type} (E : α → β → Prop) (p : Parser α) (q : Parser β) : Prop :=
  ∀ s t : Reading, s.lexer.Alike t.lexer → Outcome.Alike E (p.run s) (q.run t)

/-- The parsers are alike, with values that a function makes the same. -/
abbrev AlikeUpTo {α γ : Type} (e : α → γ) (p q : Parser α) : Prop :=
  Alike (fun a b => e a = e b) p q

section Rules

variable {α β γ δ : Type} {E : α → β → Prop} {F : γ → δ → Prop} {p : Parser α} {q : Parser β}

theorem alike_pure {a : α} {b : β} (h : E a b) : Alike E (pure a) (pure b) :=
  fun _ _ alike => .ok h alike

theorem Outcome.Alike.bind {f : α → Parser γ} {g : β → Parser δ} {s t : Reading}
    (h : Outcome.Alike E (p.run s) (q.run t))
    (h' : ∀ a b s' t', p.run s = .ok a s' → E a b → s'.lexer.Alike t'.lexer →
      Outcome.Alike F ((f a).run s') ((g b).run t')) :
    Outcome.Alike F ((p >>= f).run s) ((q >>= g).run t) := by
  rw [run_bind, run_bind]
  generalize hp : p.run s = out at h
  generalize q.run t = out' at h
  cases h with
  | ok same behind => exact h' _ _ _ _ hp same behind
  | error => exact .error

theorem Alike.bind {f : α → Parser γ} {g : β → Parser δ} (h : Alike E p q)
    (h' : ∀ a b, E a b → Alike F (f a) (g b)) : Alike F (p >>= f) (q >>= g) :=
  fun s t alike => (h s t alike).bind fun a b s' t' _ same behind => h' a b same s' t' behind

theorem Outcome.Alike.mono {E' : α → β → Prop} {out : Outcome α} {out' : Outcome β}
    (h : Outcome.Alike E out out') (le : ∀ a b, E a b → E' a b) : Outcome.Alike E' out out' := by
  cases h with
  | ok same behind => exact .ok (le _ _ same) behind
  | error => exact .error

theorem Alike.mono {E' : α → β → Prop} (h : Alike E p q) (le : ∀ a b, E a b → E' a b) :
    Alike E' p q :=
  fun s t alike => (h s t alike).mono le

theorem alike_fail (cause cause' : Cause) (span span' : Span) :
    Alike E (fail cause span) (fail cause' span') :=
  fun _ _ _ => .error

theorem alike_failHere (error error' : SyntaxError) : Alike E (failHere error) (failHere error') :=
  fun _ _ _ => .error

theorem alike_getLexer : AlikeUpTo (fun lx => lx.lookahead.map Token.bare) getLexer getLexer :=
  fun _ _ alike => .ok alike.lookahead alike

theorem alike_noteInclude (pattern pattern' : String) :
    Alike (· = ·) (noteInclude pattern) (noteInclude pattern') :=
  fun _ _ alike => .ok rfl alike

theorem alike_accept (kind : TokenKind) : Alike (· = ·) (accept kind) (accept kind) :=
  fun _ _ alike => .ok ((alike.tryMatch kind).holds kind) (alike.tryMatch kind)

theorem alike_take (kind : TokenKind) : AlikeUpTo (Option.map Token.bare) (take kind) (take kind) :=
  fun _ _ alike => .ok (alike.take kind).1 (alike.take kind).2

theorem alike_skipSmallGap : Alike (· = ·) skipSmallGap skipSmallGap :=
  fun _ _ alike => .ok rfl (alike.skip _ _)

theorem alike_skipBigGap : Alike (· = ·) skipBigGap skipBigGap :=
  fun _ _ alike => .ok rfl (alike.skip _ _)

theorem alike_onToken {kind : TokenKind} {found : Token → Parser α} {found' : Token → Parser β}
    (h : ∀ t u, t.lexeme = u.lexeme → Alike E (found t) (found' u)) (otherwise : Alike E p q) :
    Alike E (onToken kind found p) (onToken kind found' q) := by
  refine (alike_take kind).bind fun token token' same => ?_
  cases token with
  | none =>
    cases token' with
    | none => exact otherwise
    | some => cases same
  | some t =>
    cases token' with
    | none => cases same
    | some u => exact h t u (congrArg Prod.snd (Option.some.inj same))

theorem alike_expect (kind : TokenKind) : AlikeUpTo Token.lexeme (expect kind) (expect kind) := by
  refine alike_onToken (fun t u same => alike_pure same) ?_
  refine alike_getLexer.bind fun lexer lexer' same => ?_
  cases hl : lexer.lookahead with
  | none =>
    cases hl' : lexer'.lookahead with
    | none => exact alike_fail _ _ _ _
    | some => simp [hl, hl'] at same
  | some =>
    cases hl' : lexer'.lookahead with
    | none => simp [hl, hl'] at same
    | some => exact alike_failHere _ _

/-! ### Repetitions -/

variable {r r' : Parser α} {e : α → γ}

theorem Alike.eachAfter {kind : TokenKind} {ne : kind ≠ .endOfInput} (h : AlikeUpTo e r r') :
    AlikeUpTo (List.map e) (eachAfter kind ne r) (eachAfter kind ne r') := by
  intro s t alike
  -- only what the first reading has left gets less: the second one takes the same steps
  induction size : s.unread using Nat.strongRecOn generalizing s t with
  | ind n ih =>
  rw [eachAfter_eq kind ne r, eachAfter_eq kind ne r']
  refine (alike_take kind s t alike).bind fun token token' s₁ t₁ taken same behind => ?_
  cases token with
  | none =>
    cases token' with
    | none => exact .ok rfl behind
    | some => cases same
  | some token =>
    cases token' with
    | none => cases same
    | some token' =>
      have less : s₁.unread < n := size ▸ unread_lt_of_take ne taken
      refine (h s₁ t₁ behind).bind fun a b s₂ t₂ read same behind => ?_
      have less' : s₂.unread < n := Nat.lt_of_le_of_lt (r.unread_le read) less
      refine (ih _ less' s₂ t₂ behind rfl).bind fun as bs s₃ t₃ _ sames behind => ?_
      exact .ok (by rw [List.map_cons, List.map_cons, same, sames]) behind

theorem Alike.repeatUntil {done done' : Parser Bool} {progress : r.Progresses}
    {progress' : r'.Progresses} (hd : Alike (· = ·) done done') (h : AlikeUpTo e r r') :
    AlikeUpTo (List.map e) (repeatUntil done r progress) (repeatUntil done' r' progress') := by
  intro s t alike
  induction size : s.unread using Nat.strongRecOn generalizing s t with
  | ind n ih =>
  rw [repeatUntil_eq done r, repeatUntil_eq done' r']
  refine (hd s t alike).bind fun isDone isDone' s₁ t₁ asked same behind => ?_
  obtain rfl : isDone = isDone' := same
  split
  · exact .ok rfl behind
  · refine (h s₁ t₁ behind).bind fun a b s₂ t₂ read same behind => ?_
    have less : s₂.unread < n :=
      Nat.lt_of_lt_of_le (progress _ _ _ read) (size ▸ done.unread_le asked)
    refine (ih _ less s₂ t₂ behind rfl).bind fun as bs s₃ t₃ _ sames behind => ?_
    exact .ok (by rw [List.map_cons, List.map_cons, same, sames]) behind

end Rules

/-! ### The grammar -/

theorem alike_quotedKey {t u : Token} (same : t.lexeme = u.lexeme) :
    AlikeUpTo PathSegment.bare (quotedKey t) (quotedKey u) :=
  alike_pure (by simp [PathSegment.bare, Token.inner, same])

theorem alike_pathSegment : AlikeUpTo PathSegment.bare pathSegment pathSegment := by
  refine alike_onToken (fun start start' _ => ?_) ?_
  · have name : AlikeUpTo Token.lexeme (onToken .objectName pure (failHere .expectedPrototypeName))
        (onToken .objectName pure (failHere .expectedPrototypeName)) :=
      alike_onToken (fun t u same => alike_pure same) (alike_failHere _ _)
    refine name.bind fun t u same => (alike_expect _).bind fun close close' _ => alike_pure ?_
    simp [PathSegment.bare, Token.text, same]
  refine alike_onToken (fun start start' _ => ?_) ?_
  · refine (alike_expect _).bind fun t u same => alike_pure ?_
    simp [PathSegment.bare, Token.text, same]
  refine alike_onToken (fun t u same => alike_quotedKey same) ?_
  refine alike_onToken (fun t u same => alike_quotedKey same) ?_
  refine alike_onToken (fun t u same => alike_pure ?_) (alike_failHere _ _)
  simp [PathSegment.bare, Token.text, same]

theorem alike_objectPath : AlikeUpTo ObjectPath.bare objectPath objectPath :=
  alike_pathSegment.bind fun first first' same => alike_pathSegment.eachAfter.bind
    fun more more' sames => alike_pure (by simp only [ObjectPath.bare, List.map_cons, same, sames])

theorem alike_dslValue {t u : Token} (same : t.lexeme = u.lexeme) :
    AlikeUpTo Value.bare (dslValue t) (dslValue u) :=
  alike_onToken (fun code code' sameCode => alike_pure
      (by simp [Value.bare, Token.text, Token.inner, same, sameCode]))
    (alike_fail _ _ _ _)

theorem alike_value : AlikeUpTo Value.bare value value := by
  have plain {kind : TokenKind} {toValue : Token → Value} {otherwise : Parser Value}
      (byLexeme : ∀ t u : Token, t.lexeme = u.lexeme → (toValue t).bare = (toValue u).bare)
      (ho : AlikeUpTo Value.bare otherwise otherwise) :
      AlikeUpTo Value.bare (onToken kind (fun t => pure (toValue t)) otherwise)
        (onToken kind (fun t => pure (toValue t)) otherwise) :=
    alike_onToken (fun t u same => alike_pure (byLexeme t u same)) ho
  refine plain (fun t u same => by simp [Value.bare, Token.inner, same]) ?_
  refine plain (fun t u same => by simp [Value.bare, Token.inner, same]) ?_
  refine plain (fun t u same => by simp [Value.bare, Token.text, same]) ?_
  refine alike_onToken (fun t u same => alike_dslValue same) ?_
  refine plain (fun t u same => by simp [Value.bare, Token.inner, same]) ?_
  refine plain (fun t u same => by simp [Value.bare, same]) ?_
  refine plain (fun t u same => by simp [Value.bare, same]) ?_
  refine plain (fun _ _ _ => rfl) ?_
  refine plain (fun _ _ _ => rfl) ?_
  exact plain (fun _ _ _ => rfl) (alike_failHere _ _)

theorem alike_operation? :
    AlikeUpTo (Option.map Operation.bare) operation? operation? := by
  refine alike_onToken (fun _ _ _ => ?_) ?_
  · refine alike_skipSmallGap.bind fun _ _ _ => alike_value.bind fun x y same => alike_pure ?_
    simp [Operation.bare, same]
  refine alike_onToken (fun t u _ => alike_pure rfl) ?_
  refine alike_onToken (fun _ _ _ => ?_) (alike_pure rfl)
  refine alike_skipSmallGap.bind fun _ _ _ => (alike_take _).bind fun dot dot' sameDot => ?_
  refine alike_objectPath.bind fun path path' same => alike_pure ?_
  have dots : dot.isSome = dot'.isSome := by simpa using congrArg Option.isSome sameDot
  simp [Operation.bare, CopySource.bare, same, dots]

theorem alike_endOfStatement (inBlock : Bool) :
    Alike (· = ·) (endOfStatement inBlock) (endOfStatement inBlock) := by
  refine alike_skipSmallGap.bind fun _ _ _ => (alike_accept _).bind fun atEnd atEnd' same => ?_
  obtain rfl : atEnd = atEnd' := same
  split
  · exact alike_pure rfl
  · refine (alike_take _).bind fun newline newline' same => ?_
    have found : newline.isSome = newline'.isSome := by simpa using congrArg Option.isSome same
    rw [found]
    split
    · exact alike_pure rfl
    · split
      · refine (alike_accept _).bind fun closes closes' same => ?_
        obtain rfl : closes = closes' := same
        split
        · exact alike_pure rfl
        · exact alike_failHere _ _
      · exact alike_failHere _ _

theorem alike_filePattern : AlikeUpTo Prod.fst filePattern filePattern :=
  alike_onToken (fun t u same => alike_pure (by simp [Token.inner, same])) <|
  alike_onToken (fun t u same => alike_pure (by simp [Token.inner, same])) <|
  alike_onToken (fun t u same => alike_pure (by simp [Token.text, same])) <| alike_failHere _ _

theorem alike_inclusion (inBlock : Bool) :
    AlikeUpTo Statement.bare (inclusion inBlock) (inclusion inBlock) := by
  refine (alike_expect _).bind fun _ _ _ => (alike_take _).bind fun _ _ _ => ?_
  refine alike_filePattern.bind fun ⟨pattern, span⟩ ⟨pattern', span'⟩ same => ?_
  refine (alike_endOfStatement inBlock).bind fun _ _ _ => ?_
  refine (alike_noteInclude _ _).bind fun _ _ _ => alike_pure ?_
  have same : pattern = pattern' := same
  simp [Statement.bare, same]

theorem alike_block {contents : Option (Parser (List Statement))}
    (h : ∀ p, contents = some p → AlikeUpTo Statement.bareAll p p) :
    AlikeUpTo (fun b => Statement.bareAll b.statements) (block contents) (block contents) := by
  refine (alike_expect _).bind fun openBrace openBrace' _ => ?_
  cases contents with
  | none => exact alike_fail _ _ _ _
  | some p =>
    refine (h p rfl).bind fun ss ss' same => ?_
    exact alike_onToken (fun _ _ _ => alike_pure same) (alike_fail _ _ _ _)

def behindPath (inBlock : Bool) (contents : Option (Parser (List Statement)))
    (path : ObjectPath) : Parser Statement := do
  skipSmallGap
  let afterPath ← getLexer
  let operation ← operation?
  skipSmallGap
  if ← accept .openBrace then
    return .object path operation (some (← block contents))
  match operation with
  | none =>
    fail (.syntactic .expectedOperationOrBlock) (afterPath.charSpan afterPath.cursor)
  | some _ =>
    endOfStatement inBlock
    return .object path operation none

theorem object_eq_bind (inBlock : Bool) (contents : Option (Parser (List Statement))) :
    object inBlock contents = objectPath >>= behindPath inBlock contents := rfl

/-- What stands behind a path is read alike behind another one. -/
theorem alike_behindPath (inBlock : Bool) {contents : Option (Parser (List Statement))}
    (h : ∀ p, contents = some p → AlikeUpTo Statement.bareAll p p) (path path' : ObjectPath) :
    Alike (fun s s' => ∃ op block, s = .object path op block ∧
        s'.bare = (Statement.object path' op block).bare)
      (behindPath inBlock contents path) (behindPath inBlock contents path') := by
  refine alike_skipSmallGap.bind fun _ _ _ => alike_getLexer.bind fun _ _ _ => ?_
  refine alike_operation?.bind fun op op' sameOp => alike_skipSmallGap.bind fun _ _ _ => ?_
  refine (alike_accept _).bind fun opens opens' sameOpens => ?_
  subst sameOpens
  split
  · refine (alike_block h).bind fun b b' same => alike_pure ⟨op, some b, rfl, ?_⟩
    simp only [Statement.bare, sameOp, same]
  · cases op with
    | none =>
      cases op' with
      | none => exact alike_fail _ _ _ _
      | some => cases sameOp
    | some op =>
      cases op' with
      | none => cases sameOp
      | some op' =>
        refine (alike_endOfStatement inBlock).bind fun _ _ _ => alike_pure ⟨some op, none, rfl, ?_⟩
        simp only [Statement.bare, sameOp]

theorem alike_object (inBlock : Bool) {contents : Option (Parser (List Statement))}
    (h : ∀ p, contents = some p → AlikeUpTo Statement.bareAll p p) :
    AlikeUpTo Statement.bare (object inBlock contents) (object inBlock contents) := by
  rw [object_eq_bind]
  refine alike_objectPath.bind fun path path' same =>
    (alike_behindPath inBlock h path path').mono ?_
  rintro _ s' ⟨op, block, rfl, eq⟩
  exact (Statement.bare_object_congr same op block).trans eq.symm

theorem alike_acceptAny (kinds : List TokenKind) :
    Alike (· = ·) (acceptAny kinds) (acceptAny kinds) := by
  induction kinds with
  | nil => exact alike_pure rfl
  | cons kind kinds ih =>
    refine (alike_accept kind).bind fun accepted accepted' same => ?_
    subst same
    split
    · exact alike_pure rfl
    · exact ih

theorem alike_statement (inBlock : Bool) {contents : Option (Parser (List Statement))}
    (h : ∀ p, contents = some p → AlikeUpTo Statement.bareAll p p) :
    AlikeUpTo Statement.bare (statement inBlock contents) (statement inBlock contents) := by
  refine (alike_accept _).bind fun isInclude isInclude' same => ?_
  subst same
  split
  · exact alike_inclusion inBlock
  · refine (alike_acceptAny _).bind fun isObject isObject' same => ?_
    subst same
    split
    · exact alike_object inBlock h
    · exact alike_failHere _ _

theorem alike_endOfStatements (inBlock : Bool) :
    Alike (· = ·) (endOfStatements inBlock) (endOfStatements inBlock) := by
  refine alike_skipBigGap.bind fun _ _ _ => (alike_accept _).bind fun atEnd atEnd' same => ?_
  subst same
  split
  · exact alike_pure rfl
  · split
    · exact alike_accept _
    · exact alike_pure rfl

theorem alike_statements (room : Nat) (inBlock : Bool) :
    AlikeUpTo Statement.bareAll (statements room inBlock) (statements room inBlock) := by
  have bareAll_eq : Statement.bareAll = List.map Statement.bare := funext Statement.bareAll_eq_map
  induction room generalizing inBlock with
  | zero =>
    rw [bareAll_eq]
    exact Alike.repeatUntil (alike_endOfStatements inBlock) (alike_statement inBlock nofun)
  | succ room ih =>
    rw [bareAll_eq] at ih ⊢
    refine Alike.repeatUntil (alike_endOfStatements inBlock) (alike_statement inBlock ?_)
    rintro _ ⟨⟩
    rw [bareAll_eq]
    exact ih true

end Parser

end FusionTree
