import FusionTree.Proofs.Parser.Reading
import FusionTree.Proofs.Token.Tiling

/-!
# The text that parsers take

A lexer `Follows` a text if that text is what has been consumed of its source: a lookahead begins
right behind it. A parser `Takes` from there if, whenever it succeeds, it has gone on to a longer
text, and the value it gives has a property of that text. There is one rule for each way to put
parsers together. -/

namespace FusionTree

open Text

def Lexer.pending (lx : Lexer) : List Char :=
  (lx.lookahead.map Token.lexeme).getD []

/-- The token is the piece of the source behind the first text and in front of the second. It is
the end of the input, or the rule of its kind has found it there. -/
structure Token.StandsBetween (t : Token) (src : Source) (before rest : List Char) : Prop where
  span : t.span = src.piece before t.lexeme
  rule : (t.kind = .endOfInput ∧ t.lexeme = []) ∨
    t.kind.lexeme? (t.lexeme ++ rest) = some t.lexeme

/-- The text has been consumed of the source, and the lexer goes on behind it. -/
structure Lexer.Follows (lx : Lexer) (src : Source) (before : List Char) : Prop where
  source : lx.source = src
  text : src.text = before ++ (lx.pending ++ lx.rest)
  cursor : lx.cursor = byteLength (before ++ lx.pending)
  lookahead : ∀ t, lx.lookahead = some t → t.StandsBetween src before lx.rest

def Reading.Follows (s : Reading) (src : Source) : Prop :=
  ∃ before, s.lexer.Follows src before

/-- The token is a piece of the source behind the text, of the kind and with its shape. -/
structure Token.TakenAt (t : Token) (src : Source) (before : List Char) (kind : TokenKind) :
    Prop where
  kind_eq : t.kind = kind
  span : t.span = src.piece before t.lexeme
  shape : kind ≠ .endOfInput → kind.Shape t.lexeme

namespace Lexer

variable {lx : Lexer} {src : Source} {before : List Char}

theorem follows_ofSource (src : Source) : (ofSource src).Follows src [] :=
  ⟨rfl, rfl, rfl, nofun⟩

theorem Follows.tryMatch (h : lx.Follows src before) (kind : TokenKind) :
    (lx.tryMatch kind).Follows src before := by
  obtain ⟨source, text, cursor, lookahead⟩ := id h
  rcases lx.tryMatch_cases kind with ⟨_, same⟩ | ⟨noLookahead, nothing, ended⟩ |
    ⟨lexeme, rest, noLookahead, eq, rule, found⟩ | ⟨_, _, _, same⟩
  · rwa [same]
  · have noPending : lx.pending = [] := by simp [pending, noLookahead]
    rw [noPending] at text cursor
    rw [ended]
    refine ⟨source, text, cursor, ?_⟩
    rintro _ ⟨⟩
    refine ⟨?_, .inl ⟨rfl, rfl⟩⟩
    simp [ahead, Source.piece, source, cursor]
  · have noPending : lx.pending = [] := by simp [pending, noLookahead]
    rw [noPending] at text cursor
    rw [found]
    refine ⟨source, by simpa [pending, past, eq] using text, by simp [pending, past, cursor], ?_⟩
    rintro _ ⟨⟩
    refine ⟨?_, .inr (by rw [eq] at rule; exact rule)⟩
    simp [ahead, Source.piece, source, cursor]
  · rwa [same]

theorem Follows.consume {t : Token} (h : lx.Follows src before) (looked : lx.lookahead = some t) :
    lx.consume.Follows src (before ++ t.lexeme) := by
  have pending : lx.pending = t.lexeme := by simp [pending, looked]
  refine ⟨h.source, ?_, ?_, nofun⟩
  · rw [List.append_assoc, ← pending]
    exact h.text
  · rw [← pending]
    simpa [Lexer.pending, Lexer.consume] using h.cursor

/-- The source goes on with the text. -/
theorem Follows.isPrefix (h : lx.Follows src before) : before <+: src.text :=
  ⟨_, h.text.symm⟩

theorem Follows.take_none (h : lx.Follows src before) {kind : TokenKind}
    (nothing : (lx.take kind).1 = none) : (lx.take kind).2.Follows src before := by
  unfold Lexer.take at nothing ⊢
  dsimp only at nothing ⊢
  split at nothing
  · rename_i holds
    have empty : (lx.tryMatch kind).lookahead = none := nothing
    rw [Lexer.holds, empty] at holds
    cases holds
  · rename_i lacks
    rw [if_neg lacks]
    exact h.tryMatch kind

theorem Follows.take_some (h : lx.Follows src before) {kind : TokenKind} {t : Token}
    (taken : (lx.take kind).1 = some t) :
    (lx.take kind).2.Follows src (before ++ t.lexeme) ∧ t.TakenAt src before kind := by
  unfold Lexer.take at taken ⊢
  dsimp only at taken ⊢
  split at taken
  · rename_i holds
    have looked : (lx.tryMatch kind).lookahead = some t := taken
    have matched := h.tryMatch kind
    have stands := matched.lookahead t looked
    have same : t.kind = kind := by
      rw [Lexer.holds, looked] at holds
      simpa using holds
    rw [if_pos holds]
    refine ⟨matched.consume looked, same, stands.span, fun other => ?_⟩
    rcases stands.rule with ⟨ended, _⟩ | rule
    · exact absurd (same.symm.trans ended) other
    · rw [same] at rule
      exact TokenKind.shape_of_lexeme? rule
  · cases taken

theorem Follows.takeAny (h : lx.Follows src before) {kinds : List TokenKind}
    (noEnd : TokenKind.endOfInput ∉ kinds) :
    ∃ text, (lx.takeAny kinds).2.Follows src (before ++ text) ∧
      ((lx.takeAny kinds).1 = true → text ≠ []) := by
  induction kinds generalizing lx with
  | nil => exact ⟨[], by simpa [Lexer.takeAny] using h, by simp [Lexer.takeAny]⟩
  | cons kind kinds ih =>
    obtain ⟨ne, noEnd⟩ := not_or.mp (mt List.mem_cons.mpr noEnd)
    cases taken : (lx.take kind).1 with
    | some t =>
      obtain ⟨follows, found⟩ := h.take_some taken
      rw [takeAny_of_some taken]
      exact ⟨t.lexeme, follows, fun _ => (found.shape (Ne.symm ne)).ne_nil⟩
    | none =>
      rw [takeAny_of_none taken]
      exact ih (h.take_none taken) noEnd

theorem Follows.skip (h : lx.Follows src before) (kinds : List TokenKind)
    (noEnd : TokenKind.endOfInput ∉ kinds) :
    ∃ text, (lx.skip kinds noEnd).Follows src (before ++ text) := by
  refine skip_induction (P := fun lx => ∃ text, lx.Follows src (before ++ text)) ?_
    ⟨[], by rwa [List.append_nil]⟩
  rintro lx ⟨first, follows⟩
  obtain ⟨more, follows, _⟩ := follows.takeAny noEnd
  exact ⟨first ++ more, by rwa [← List.append_assoc]⟩

end Lexer

namespace Parser

variable {α β : Type} {src : Source} {before : List Char}

/-- Whenever the parser succeeds behind the text, it has gone on to a longer one, and that text and
the value have the property. -/
def Takes (src : Source) (before : List Char) (p : Parser α) (Q : List Char → α → Prop) : Prop :=
  ∀ s a s', s.lexer.Follows src before → p.run s = .ok a s' →
    ∃ after, before <+: after ∧ s'.lexer.Follows src after ∧ Q after a

/-- A reading of the source stays one. -/
theorem follows_of_takes {p : Parser α} {Q : List Char → List Char → α → Prop} {s s' : Reading}
    {a : α} (takes : ∀ before, Takes src before p (Q before)) (follows : s.Follows src)
    (ran : p.run s = .ok a s') : s'.Follows src := by
  obtain ⟨before, follows⟩ := follows
  obtain ⟨after, _, follows', _⟩ := takes before s a s' follows ran
  exact ⟨after, follows'⟩

section Rules

variable {p : Parser α} {f : α → Parser β} {P Q : List Char → α → Prop} {R : List Char → β → Prop}

/-- The property may also use that the text has become longer, and that the source goes on with
it. -/
theorem Takes.mono (h : Takes src before p P)
    (imp : ∀ after a, before <+: after → after <+: src.text → P after a → Q after a) :
    Takes src before p Q := by
  intro s a s' follows run
  obtain ⟨after, further, follows', ha⟩ := h s a s' follows run
  exact ⟨after, further, follows', imp after a further follows'.isPrefix ha⟩

/-- The text that is reached is one that the source goes on with. -/
theorem Takes.inSource (h : Takes src before p Q) :
    Takes src before p fun after a => after <+: src.text ∧ Q after a :=
  h.mono fun _ _ _ le ha => ⟨le, ha⟩

theorem takes_pure {a : α} (h : Q before a) : Takes src before (pure a) Q := by
  intro s b s' follows run
  rw [run_pure] at run
  cases run
  exact ⟨before, List.prefix_rfl, follows, h⟩

theorem Takes.bind (hp : Takes src before p P)
    (hf : ∀ between a, before <+: between → P between a → Takes src between (f a) R) :
    Takes src before (p >>= f) R := by
  intro s b s' follows run
  rw [run_bind] at run
  split at run
  · rename_i a s₁ first
    obtain ⟨between, further, follows₁, ha⟩ := hp s a s₁ follows first
    obtain ⟨after, further', follows₂, hb⟩ := hf between a further ha s₁ b s' follows₁ run
    exact ⟨after, further.trans further', follows₂, hb⟩
  · cases run

theorem takes_fail (cause : Cause) (span : Span) : Takes src before (fail cause span) Q :=
  fun _ _ _ _ run => by cases run

theorem takes_failHere (error : SyntaxError) : Takes src before (failHere error) Q :=
  fun _ _ _ _ run => by cases run

/-- A parser that consumes nothing. -/
theorem takes_nothing (h : ∀ s a s', p.run s = .ok a s' → s.lexer.Follows src before →
    s'.lexer.Follows src before) : Takes src before p fun after _ => after = before := by
  intro s a s' follows run
  exact ⟨before, List.prefix_rfl, h s a s' run follows, rfl⟩

theorem takes_getLexer : Takes src before getLexer fun after lexer =>
    after = before ∧ lexer.source = src := by
  intro s lexer s' follows run
  cases run
  exact ⟨before, List.prefix_rfl, follows, rfl, follows.source⟩

theorem takes_noteInclude (pattern : String) :
    Takes src before (noteInclude pattern) fun after _ => after = before :=
  takes_nothing fun _ _ _ run follows => by cases run; exact follows

theorem takes_accept (kind : TokenKind) :
    Takes src before (accept kind) fun after _ => after = before :=
  takes_nothing fun _ _ _ run follows => by cases run; exact follows.tryMatch kind

theorem takes_skipSmallGap : Takes src before skipSmallGap fun _ _ => True := by
  intro s a s' follows run
  cases run
  obtain ⟨gap, follows⟩ := follows.skip [.space, .slashComment, .hashComment, .blockComment]
    (by decide)
  exact ⟨before ++ gap, List.prefix_append _ _, follows, trivial⟩

theorem takes_skipBigGap : Takes src before skipBigGap fun _ _ => True := by
  intro s a s' follows run
  cases run
  obtain ⟨gap, follows⟩ := follows.skip
    [.space, .newline, .slashComment, .hashComment, .blockComment] (by decide)
  exact ⟨before ++ gap, List.prefix_append _ _, follows, trivial⟩

theorem takes_take (kind : TokenKind) :
    Takes src before (take kind) fun after token =>
      match token with
      | some t => after = before ++ t.lexeme ∧ t.TakenAt src before kind
      | none => after = before := by
  intro s token s' follows run
  obtain ⟨rfl, rfl⟩ :
      (s.lexer.take kind).1 = token ∧ { s with lexer := (s.lexer.take kind).2 } = s' := by
    simpa [take] using run
  cases taken : (s.lexer.take kind).1 with
  | some t =>
    obtain ⟨follows', taken'⟩ := follows.take_some taken
    exact ⟨before ++ t.lexeme, List.prefix_append _ _, follows', rfl, taken'⟩
  | none => exact ⟨before, List.prefix_rfl, follows.take_none taken, rfl⟩

theorem takes_onToken {kind : TokenKind} {found : Token → Parser α} {otherwise : Parser α}
    (hf : ∀ t : Token, t.TakenAt src before kind → Takes src (before ++ t.lexeme) (found t) Q)
    (ho : Takes src before otherwise Q) : Takes src before (onToken kind found otherwise) Q := by
  refine (takes_take kind).bind fun after token _ h => ?_
  cases token with
  | some t =>
    obtain ⟨rfl, taken⟩ := h
    exact hf t taken
  | none =>
    obtain rfl : after = before := h
    exact ho

theorem takes_expect (kind : TokenKind) :
    Takes src before (expect kind) fun after t =>
      after = before ++ t.lexeme ∧ t.TakenAt src before kind := by
  refine takes_onToken (fun t taken => takes_pure ⟨rfl, taken⟩) ?_
  refine takes_getLexer.bind fun after lexer _ _ => ?_
  split
  · exact takes_failHere _
  · exact takes_fail _ _

/-! ### Repetitions -/

/-- Items from one text to a longer one, each with a token of the kind before it. -/
inductive EachBehind (kind : TokenKind) (P : List Char → List Char → α → Prop) :
    List Char → List Char → List α → Prop
  | nil {before : List Char} : EachBehind kind P before before []
  | cons {before mark between after : List Char} {a : α} {as : List α} (marked : kind.Shape mark)
      (item : P (before ++ mark) between a) (rest : EachBehind kind P between after as) :
      EachBehind kind P before after (a :: as)

theorem Takes.eachAfter {kind : TokenKind} {ne : kind ≠ .endOfInput}
    {P : List Char → List Char → α → Prop} (h : ∀ before, Takes src before p (P before)) :
    Takes src before (eachAfter kind ne p) (EachBehind kind P before) := by
  intro s as s' follows run
  replace run : eachAfterFrom kind ne p s = .ok as s' := run
  fun_induction eachAfterFrom kind ne p s generalizing before as s' with
  | case1 s lexer ht =>
    cases run
    have nothing : (s.lexer.take kind).1 = none := by rw [ht]
    have behind := follows.take_none nothing
    rw [ht] at behind
    exact ⟨before, List.prefix_rfl, behind, .nil⟩
  | case2 => cases run
  | case3 => cases run
  | case4 s t lexer ht a s₁ hp lt as s₂ hl ih =>
    cases run
    have found : (s.lexer.take kind).1 = some t := by rw [ht]
    obtain ⟨behind, taken⟩ := follows.take_some found
    rw [ht] at behind
    obtain ⟨between, further, behind, ha⟩ := h _ _ _ _ behind hp
    obtain ⟨after, further', behind, has⟩ := ih _ _ behind hl
    exact ⟨after, (List.prefix_append _ _).trans (further.trans further'), behind,
      .cons (taken.shape ne) ha has⟩

/-- Items from one text to a longer one, with any text between them. -/
inductive InTurn (P : List Char → List Char → α → Prop) :
    List Char → List Char → List α → Prop
  | nil {before after : List Char} (gap : before <+: after) : InTurn P before after []
  | cons {before start between after : List Char} {a : α} {as : List α} (gap : before <+: start)
      (item : P start between a) (rest : InTurn P between after as) :
      InTurn P before after (a :: as)

theorem Takes.repeatUntil {done : Parser Bool} {progress : p.Progresses}
    {P : List Char → List Char → α → Prop}
    (hd : ∀ before, Takes src before done fun _ _ => True)
    (h : ∀ before, Takes src before p (P before)) :
    Takes src before (repeatUntil done p progress) (InTurn P before) := by
  intro s as s' follows run
  replace run : repeatUntilFrom done p progress s = .ok as s' := run
  fun_induction repeatUntilFrom done p progress s generalizing before as s' with
  | case1 => cases run
  | case2 s s₁ eq =>
    cases run
    obtain ⟨after, further, behind, _⟩ := hd _ _ _ _ follows eq
    exact ⟨after, further, behind, .nil further⟩
  | case3 => cases run
  | case4 => cases run
  | case5 s s₁ eq a s₂ hp lt as s₃ hl ih =>
    cases run
    obtain ⟨start, gap, behind, _⟩ := hd _ _ _ _ follows eq
    obtain ⟨between, further, behind, ha⟩ := h _ _ _ _ behind hp
    obtain ⟨after, further', behind, has⟩ := ih _ _ behind hl
    exact ⟨after, gap.trans (further.trans further'), behind, .cons gap ha has⟩

end Rules

end Parser

end FusionTree
