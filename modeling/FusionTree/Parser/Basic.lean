import FusionTree.Problem.Basic
import FusionTree.Token.Lexer

/-!
# Parsers

A parser reads from a lexer and gives a value or one problem; a problem is reported where it arises.
The type carries the fact that a parser never gives text back, so every combination of parsers has
it too; a parser that also takes something whenever it succeeds `Progresses`, and only such a parser
may be repeated.
-/

namespace FusionTree

/-- What a parser has reached: the lexer, the patterns of the include statements read so far, the
latest first, and the problems reported so far, the earliest first. -/
structure Reading where
  lexer : Lexer
  included : List String := []
  problems : List Problem := []

namespace Reading

def unread (s : Reading) : Nat := s.lexer.unread

def patterns (s : Reading) : List String := s.included.reverse

end Reading

/-- A value and what is left, or a problem and what had been reached by then. -/
abbrev Outcome (α : Type) := EStateM.Result Problem Reading α

/-- A reader of values that never gives text back. -/
structure Parser (α : Type) where
  run : Reading → Outcome α
  unread_le : ∀ {s a s'}, run s = .ok a s' → s'.unread ≤ s.unread

namespace Parser

variable {α β : Type}

protected def pure (a : α) : Parser α where
  run s := .ok a s
  unread_le h := by cases h; exact Nat.le_refl _

protected def bind (p : Parser α) (f : α → Parser β) : Parser β where
  run s :=
    match p.run s with
    | .ok a s' => (f a).run s'
    | .error e s' => .error e s'
  unread_le {s _ _} h := by
    split at h
    · rename_i hp
      exact Nat.le_trans ((f _).unread_le h) (p.unread_le hp)
    · cases h

instance : Monad Parser where
  pure := Parser.pure
  bind := Parser.bind

@[simp] theorem run_pure (a : α) (s : Reading) : (pure a : Parser α).run s = .ok a s := rfl

@[simp] theorem run_bind (p : Parser α) (f : α → Parser β) (s : Reading) :
    (p >>= f).run s =
      match p.run s with
      | .ok a s' => (f a).run s'
      | .error e s' => .error e s' := rfl

/-- The parser takes something whenever it succeeds. -/
def Progresses (p : Parser α) : Prop :=
  ∀ s a s', p.run s = .ok a s' → s'.unread < s.unread

theorem Progresses.bind {p : Parser α} (hp : p.Progresses) (f : α → Parser β) :
    (p >>= f).Progresses := by
  intro s b s' h
  rw [run_bind] at h
  split at h
  · rename_i hr
    exact Nat.lt_of_le_of_lt ((f _).unread_le h) (hp _ _ _ hr)
  · cases h

theorem Progresses.bind_right {p : Parser α} {f : α → Parser β} (hf : ∀ a, (f a).Progresses) :
    (p >>= f).Progresses := by
  intro s b s' h
  rw [run_bind] at h
  split at h
  · rename_i hr
    exact Nat.lt_of_lt_of_le (hf _ _ _ _ h) (p.unread_le hr)
  · cases h

def fail (cause : Cause) (span : Span) : Parser α where
  run s := .error ⟨cause, span⟩ { s with problems := s.problems ++ [⟨cause, span⟩] }
  unread_le h := by cases h

theorem progresses_fail (cause : Cause) (span : Span) : (fail cause span : Parser α).Progresses :=
  fun _ _ _ h => by cases h

/-- The lookahead, or else the character after the cursor, as a place. -/
def here : Parser Span where
  run s :=
    .ok (match s.lexer.lookahead with
      | some token => token.span
      | none => s.lexer.charSpan s.lexer.cursor) s
  unread_le h := by cases h; exact Nat.le_refl _

def failHere (error : SyntaxError) : Parser α :=
  here >>= fail (.syntactic error)

theorem progresses_failHere (error : SyntaxError) : (failHere error : Parser α).Progresses :=
  Progresses.bind_right fun span => progresses_fail _ span

def getLexer : Parser Lexer where
  run s := .ok s.lexer s
  unread_le h := by cases h; exact Nat.le_refl _

def noteInclude (pattern : String) : Parser Unit where
  run s := .ok () { s with included := pattern :: s.included }
  unread_le h := by cases h; exact Nat.le_refl _

/-- Asks for a token of a kind without consuming it. -/
def accept (kind : TokenKind) : Parser Bool where
  run s :=
    let lexer := s.lexer.tryMatch kind
    .ok (lexer.holds kind) { s with lexer }
  unread_le h := by cases h; exact Lexer.unread_tryMatch_le _ _

def take (kind : TokenKind) : Parser (Option Token) where
  run s :=
    let (token, lexer) := s.lexer.take kind
    .ok token { s with lexer }
  unread_le h := by cases h; exact Lexer.unread_take_le _ _

/-- Skips spaces and comments but stops at a newline. -/
def skipSmallGap : Parser Unit where
  run s := .ok () { s with lexer := s.lexer.skipSmallGap }
  unread_le h := by cases h; exact Lexer.unread_skipSmallGap_le _

def skipBigGap : Parser Unit where
  run s := .ok () { s with lexer := s.lexer.skipBigGap }
  unread_le h := by cases h; exact Lexer.unread_skipBigGap_le _

def onToken (kind : TokenKind) (found : Token → Parser α) (otherwise : Parser α) : Parser α := do
  match ← take kind with
  | some token => found token
  | none => otherwise

theorem progresses_onToken {kind : TokenKind} {otherwise : Parser α} (ne : kind ≠ .endOfInput)
    (found : Token → Parser α) (ho : otherwise.Progresses) :
    (onToken kind found otherwise).Progresses := by
  intro s a s' h
  simp only [onToken, run_bind, take] at h
  split at h
  · rename_i token taken
    exact Nat.lt_of_le_of_lt ((found token).unread_le h)
      (Lexer.unread_take_lt s.lexer ne (by simp [taken]))
  · exact Nat.lt_of_lt_of_le (ho _ _ _ h) (Lexer.unread_take_le _ _)

/-- Consumes a token of a kind or fails: with a syntax error if another token is next, and with a
lexical one if the rule of the kind did not match. -/
def expect (kind : TokenKind) : Parser Token :=
  onToken kind pure do
    let lexer ← getLexer
    match lexer.lookahead with
    | some found => failHere (.unexpectedToken kind found.kind)
    | none => fail (.lexical kind lexer.peekChar) (lexer.charSpan lexer.cursor)

theorem progresses_expect {kind : TokenKind} (ne : kind ≠ .endOfInput) :
    (expect kind).Progresses :=
  progresses_onToken ne _ <| Progresses.bind_right fun lexer => by
    split
    · exact progresses_failHere _
    · exact progresses_fail _ _

def eachAfterFrom (kind : TokenKind) (ne : kind ≠ .endOfInput) (p : Parser α) (s : Reading) :
    Outcome (List α) :=
  match ht : s.lexer.take kind with
  | (none, lexer) => .ok [] { s with lexer }
  | (some _, lexer) =>
    match hp : p.run { s with lexer } with
    | .error e s' => .error e s'
    | .ok a s' =>
      have : s'.unread < s.unread :=
        Nat.lt_of_le_of_lt (p.unread_le hp) (by
          have := Lexer.unread_take_lt s.lexer ne (by rw [ht]; rfl)
          rwa [ht] at this)
      match eachAfterFrom kind ne p s' with
      | .error e s'' => .error e s''
      | .ok as s'' => .ok (a :: as) s''
termination_by s.unread

theorem unread_eachAfterFrom_le {kind : TokenKind} {ne : kind ≠ .endOfInput} {p : Parser α}
    {s s' : Reading} {as : List α} (h : eachAfterFrom kind ne p s = .ok as s') :
    s'.unread ≤ s.unread := by
  fun_induction eachAfterFrom kind ne p s generalizing as s' with
  | case1 s lexer ht =>
    cases h
    have := Lexer.unread_take_le s.lexer kind
    rwa [ht] at this
  | case2 => cases h
  | case3 => cases h
  | case4 s _ lexer ht a s₁ hp lt as s₂ hl ih =>
    cases h
    exact Nat.le_trans (ih hl) (Nat.le_of_lt lt)

/-- Repeats a parser as long as a token of a kind stands before it. -/
def eachAfter (kind : TokenKind) (ne : kind ≠ .endOfInput) (p : Parser α) : Parser (List α) where
  run := eachAfterFrom kind ne p
  unread_le := unread_eachAfterFrom_le

def repeatUntilFrom (done : Parser Bool) (p : Parser α) (progress : p.Progresses) (s : Reading) :
    Outcome (List α) :=
  match hd : done.run s with
  | .error e s' => .error e s'
  | .ok true s' => .ok [] s'
  | .ok false s' =>
    match hp : p.run s' with
    | .error e s'' => .error e s''
    | .ok a s'' =>
      have : s''.unread < s.unread :=
        Nat.lt_of_lt_of_le (progress _ _ _ hp) (done.unread_le hd)
      match repeatUntilFrom done p progress s'' with
      | .error e s₃ => .error e s₃
      | .ok as s₃ => .ok (a :: as) s₃
termination_by s.unread

theorem unread_repeatUntilFrom_le {done : Parser Bool} {p : Parser α} {progress : p.Progresses}
    {s s' : Reading} {as : List α} (h : repeatUntilFrom done p progress s = .ok as s') :
    s'.unread ≤ s.unread := by
  fun_induction repeatUntilFrom done p progress s generalizing as s' with
  | case1 => cases h
  | case2 s s₁ hd => cases h; exact done.unread_le hd
  | case3 => cases h
  | case4 => cases h
  | case5 s s₁ hd a s₂ hp lt as s₃ hl ih =>
    cases h
    exact Nat.le_trans (ih hl) (Nat.le_of_lt lt)

def repeatUntil (done : Parser Bool) (p : Parser α) (progress : p.Progresses) :
    Parser (List α) where
  run := repeatUntilFrom done p progress
  unread_le := unread_repeatUntilFrom_le

end Parser

end FusionTree
