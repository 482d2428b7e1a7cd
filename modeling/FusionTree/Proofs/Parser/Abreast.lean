import FusionTree.Proofs.Parser.Alike
import FusionTree.Proofs.Token.Foresight
import FusionTree.Proofs.Token.Tiling

/-!
# Two texts that are the same up to a brace

One parser reads two texts that are the same up to a brace. As long as it has not gone beyond the
brace it stands at the same place in both, `Abreast`. It may come apart: it goes beyond the brace in
the first text, or it asks there for a token whose delimiter is never closed and finds none, while
the second text may close it. In both cases the reading of the first text is `Lost`: it never comes
to that brace, because what is left never grows, and no other token begins with the delimiter. So a
reading of the first text that does come to the brace has been abreast with one of the second all
the way. There is one rule for each way to put parsers together, and one fact for each rule of the
grammar; only file patterns need care, because they may begin like a comment. -/

namespace FusionTree

open TokenKind

/-- A token of the kind can be asked for where a reading may be stuck but for some kinds: it is not
one of these, and if it is a block comment, file patterns are. -/
def TokenKind.askable (but : List TokenKind) (kind : TokenKind) : Bool :=
  kind ∉ but ∧ (kind = blockComment → filePattern ∈ but)

theorem TokenKind.askable_iff {but : List TokenKind} {kind : TokenKind} :
    kind.askable but = true ↔ kind ∉ but ∧ (kind = blockComment → filePattern ∈ but) :=
  decide_eq_true_iff

namespace Lexer

variable {u v : List Char} {but : List TokenKind} {lx other : Lexer} {kind : TokenKind}

/-- Nothing has been looked at, and no rule matches what is left but those of some kinds. -/
structure StuckBut (lx : Lexer) (but : List TokenKind) : Prop where
  untouched : lx.lookahead = none
  hasRest : lx.rest ≠ []
  nothing : NoneBut but lx.rest

/-- The lexer does not come to a token with the text behind it any more. -/
def Lost (u : List Char) (but : List TokenKind) (lx : Lexer) : Prop :=
  lx.unread ≤ 2 * u.length ∨ lx.StuckBut but

/-- The lexers stand before the brace with the same text left up to it, or both have looked at the
brace. -/
inductive Abreast (u v : List Char) (lx other : Lexer) : Prop
  | before {m : List Char} (left : lx.rest = m ++ '\x7b' :: u)
      (right : other.rest = m ++ '\x7b' :: v)
      (looked : lx.lookahead.map Token.bare = other.lookahead.map Token.bare)
  | brace (left : lx.rest = u) (right : other.rest = v)
      (looked : lx.lookahead.map Token.bare = some (.openBrace, ['\x7b']))
      (looked' : other.lookahead.map Token.bare = some (.openBrace, ['\x7b']))

theorem StuckBut.mono {but' : List TokenKind} (h : lx.StuckBut but) (le : but ⊆ but') :
    lx.StuckBut but' :=
  ⟨h.untouched, h.hasRest, fun kind notBut => h.nothing kind fun mem => notBut (le mem)⟩

theorem Lost.mono {but' : List TokenKind} (h : lx.Lost u but) (le : but ⊆ but') :
    lx.Lost u but' :=
  h.imp_right (·.mono le)

theorem StuckBut.tryMatch (h : lx.StuckBut but) (notBut : kind ∉ but) : lx.tryMatch kind = lx :=
  tryMatch_of_no_match h.untouched h.hasRest (h.nothing kind notBut)

theorem StuckBut.take (h : lx.StuckBut but) (notBut : kind ∉ but) : lx.take kind = (none, lx) := by
  simp [Lexer.take, h.tryMatch notBut, holds, h.untouched]

theorem Lost.tryMatch (h : lx.Lost u but) (notBut : kind ∉ but) :
    (lx.tryMatch kind).Lost u but := by
  rcases h with past | stuck
  · exact .inl (Nat.le_trans (unread_tryMatch_le lx kind) past)
  · rw [stuck.tryMatch notBut]
    exact .inr stuck

theorem Lost.take (h : lx.Lost u but) (notBut : kind ∉ but) : (lx.take kind).2.Lost u but := by
  rcases h with past | stuck
  · exact .inl (Nat.le_trans (unread_take_le lx kind) past)
  · rw [stuck.take notBut]
    exact .inr stuck

theorem Abreast.lookahead_eq (h : lx.Abreast u v other) :
    lx.lookahead.map Token.bare = other.lookahead.map Token.bare := by
  cases h with
  | before _ _ looked => exact looked
  | brace _ _ looked looked' => exact looked.trans looked'.symm

theorem Abreast.holds (h : lx.Abreast u v other) (kind : TokenKind) :
    lx.holds kind = other.holds kind := by
  rw [holds_eq, holds_eq, h.lookahead_eq]

/-- What a request for the kind leaves of a lexer and of one that it was abreast with: it is stuck,
or both are still abreast, or it holds a token that goes to the brace or beyond it. -/
inductive Requested (u v : List Char) (but : List TokenKind) (kind : TokenKind) (lx other : Lexer) :
    Prop
  | stuck (h : lx.StuckBut but)
  | abreast (h : lx.Abreast u v other)
  | beyond (held : lx.holds kind = true) (le : lx.rest.length ≤ u.length)
      (lt : kind ∉ braceEnding → lx.rest.length < u.length)

section Untouched

variable {m : List Char} (left : lx.rest = m ++ '\x7b' :: u) (right : other.rest = m ++ '\x7b' :: v)
  (looked : lx.lookahead = none) (looked' : other.lookahead = none)

include left right looked looked'

theorem requested_of_no_match (comments : kind = .blockComment → .filePattern ∈ but)
    (nothing : kind.lexeme? lx.rest = none) :
    Requested u v but kind (lx.tryMatch kind) (other.tryMatch kind) := by
  have hasRest : lx.rest ≠ [] := by simp [left]
  have hasRest' : other.rest ≠ [] := by simp [right]
  have farther : kind.lexeme? other.rest = none ∨ NoneBut but lx.rest := by
    rw [left] at nothing
    rw [left, right]
    exact lexeme?_eq_none_or comments nothing
  rw [tryMatch_of_no_match looked hasRest nothing]
  rcases farther with nothing' | nothing
  · rw [tryMatch_of_no_match looked' hasRest' nothing']
    exact .abreast (.before left right (by simp [looked, looked']))
  · exact .stuck ⟨looked, hasRest, nothing⟩

theorem requested_of_match {lexeme : List Char} (found : kind.lexeme? lx.rest = some lexeme) :
    Requested u v but kind (lx.tryMatch kind) (other.tryMatch kind) := by
  obtain ⟨rest, text⟩ := matchesHead_lexeme? kind _ _ found
  rw [tryMatch_of_match looked text.symm found]
  rw [left] at text found
  rcases goes_on_of_lexeme? found text.symm with ⟨m', rfl, rfl⟩ | ⟨rfl, rfl, rfl⟩ | ⟨le, lt⟩
  · have found' : kind.lexeme? other.rest = some lexeme := by
      rw [right]
      exact lexeme?_of_within found (List.prefix_append _ _)
    rw [tryMatch_of_match looked' (by rw [right, List.append_assoc]) found']
    exact .abreast (.before rfl rfl rfl)
  · -- the token is the brace in both texts
    have word : lexeme = ['\x7b'] := shape_of_lexeme? found
    have found' : openBrace.lexeme? other.rest = some ['\x7b'] := by
      rw [right]
      exact Rule.literal_append ['\x7b'] v
    have right : other.rest = ['\x7b'] ++ v := right
    rw [tryMatch_of_match looked' right found', word]
    exact .abreast (.brace rfl rfl rfl rfl)
  · exact .beyond (by simp [Lexer.holds, past]) le lt

end Untouched

theorem Abreast.requested (h : lx.Abreast u v other)
    (comments : kind = .blockComment → .filePattern ∈ but) :
    Requested u v but kind (lx.tryMatch kind) (other.tryMatch kind) := by
  have same := h.lookahead_eq
  cases looked : lx.lookahead with
  | some t =>
    rw [looked, Option.map_some] at same
    obtain ⟨t', looked', _⟩ := Option.map_eq_some_iff.mp same.symm
    rw [tryMatch_of_lookahead looked, tryMatch_of_lookahead looked']
    exact .abreast h
  | none =>
    rw [looked, Option.map_none] at same
    have looked' := Option.map_eq_none_iff.mp same.symm
    cases h with
    | brace _ _ held => simp [looked] at held
    | before left right =>
      cases found : kind.lexeme? lx.rest with
      | none => exact requested_of_no_match left right looked looked' comments found
      | some lexeme => exact requested_of_match left right looked looked' found

theorem unread_le (lx : Lexer) : lx.unread ≤ 2 * lx.rest.length + 1 := by
  unfold unread
  split <;> (try split) <;> omega

theorem unread_consume (lx : Lexer) : lx.consume.unread = 2 * lx.rest.length := by
  simp [consume, unread]

theorem Abreast.tryMatch (h : lx.Abreast u v other) (short : kind ∉ braceEnding) :
    (lx.tryMatch kind).Lost u but ∨ (lx.tryMatch kind).Abreast u v (other.tryMatch kind) := by
  have noComment : kind = .blockComment → .filePattern ∈ but := by
    rintro rfl
    exact absurd (by decide) short
  rcases h.requested noComment with stuck | abreast | ⟨_, _, lt⟩
  · exact .inl (.inr stuck)
  · exact .inr abreast
  · have := lt short
    have := (lx.tryMatch kind).unread_le
    exact .inl (.inl (by omega))

/-- What a request leaves that consumes its token: the lexer is stuck, and has no token; or it has
gone to the brace or beyond it; or both are abreast. -/
theorem Abreast.take_cases (h : lx.Abreast u v other)
    (comments : kind = .blockComment → .filePattern ∈ but) :
    ((lx.take kind).1 = none ∧ (lx.take kind).2.StuckBut but) ∨
      (lx.take kind).2.unread ≤ 2 * u.length ∨
        (lx.take kind).1.isSome = (other.take kind).1.isSome ∧
          (lx.take kind).2.Abreast u v (other.take kind).2 := by
  unfold Lexer.take
  dsimp only
  rcases h.requested comments with stuck | abreast | ⟨held, le, _⟩
  · rw [if_neg (by simp [holds_eq, stuck.untouched])]
    exact .inl ⟨rfl, stuck⟩
  · rw [← abreast.holds kind]
    split
    · cases abreast with
      | before left right looked =>
        exact .inr (.inr ⟨by simpa using congrArg Option.isSome looked, .before left right rfl⟩)
      | brace left => exact .inr (.inl (by simp [unread_consume, left]))
    · exact .inr (.inr ⟨rfl, abreast⟩)
  · rw [if_pos held]
    exact .inr (.inl (by rw [unread_consume]; omega))

theorem Abreast.take (h : lx.Abreast u v other)
    (comments : kind = .blockComment → .filePattern ∈ but) :
    (lx.take kind).2.Lost u but ∨ (lx.take kind).1.isSome = (other.take kind).1.isSome ∧
      (lx.take kind).2.Abreast u v (other.take kind).2 := by
  rcases h.take_cases comments with ⟨_, stuck⟩ | past | abreast
  · exact .inl (.inr stuck)
  · exact .inl (.inl past)
  · exact .inr abreast

/-- A brace that is consumed with the text behind it left is the one in the other text too. -/
theorem Abreast.take_openBrace (h : lx.Abreast u v other) {t : Token}
    (taken : (lx.take .openBrace).1 = some t) (rest : (lx.take .openBrace).2.rest = u) :
    ∃ t', (other.take .openBrace).1 = some t' ∧ (other.take .openBrace).2.rest = v := by
  have noComment : openBrace = blockComment → filePattern ∈ [] := nofun
  unfold Lexer.take at taken rest ⊢
  dsimp only at taken rest ⊢
  cases held : (lx.tryMatch .openBrace).holds .openBrace with
  | false => simp [held] at taken
  | true =>
    rw [if_pos held] at rest
    have rest : (lx.tryMatch .openBrace).rest = u := rest
    rcases h.requested noComment with stuck | abreast | ⟨_, _, lt⟩
    · simp [holds_eq, stuck.untouched] at held
    · rw [← abreast.holds, if_pos held]
      cases abreast with
      | before left =>
        have longer := congrArg List.length (left.symm.trans rest)
        simp at longer
        omega
      | brace _ right _ looked' =>
        obtain ⟨t', looked', _⟩ := Option.map_eq_some_iff.mp looked'
        exact ⟨t', looked', right⟩
    · have lt := lt (by decide)
      rw [rest] at lt
      exact absurd lt (Nat.lt_irrefl _)

/-! ### Gaps -/

variable {kinds : List TokenKind}

theorem Lost.takeAny (h : lx.Lost u but) (notBut : ∀ kind ∈ kinds, kind ∉ but) :
    (lx.takeAny kinds).2.Lost u but := by
  induction kinds generalizing lx with
  | nil => exact h
  | cons kind kinds ih =>
    obtain ⟨notHere, notBut⟩ := List.forall_mem_cons.mp notBut
    cases taken : (lx.take kind).1 with
    | some t =>
      rw [takeAny_of_some taken]
      exact h.take notHere
    | none =>
      rw [takeAny_of_none taken]
      exact ih (h.take notHere) notBut

theorem Abreast.takeAny (h : lx.Abreast u v other) (notBut : ∀ kind ∈ kinds, kind ∉ but)
    (patterns : .filePattern ∈ but) :
    (lx.takeAny kinds).2.Lost u but ∨ (lx.takeAny kinds).1 = (other.takeAny kinds).1 ∧
      (lx.takeAny kinds).2.Abreast u v (other.takeAny kinds).2 := by
  induction kinds generalizing lx other with
  | nil => exact .inr ⟨rfl, h⟩
  | cons kind kinds ih =>
    obtain ⟨_, notBut'⟩ := List.forall_mem_cons.mp notBut
    have here : (lx.take kind).2.Lost u but ∨ (lx.take kind).1.isSome = (other.take kind).1.isSome ∧
        (lx.take kind).2.Abreast u v (other.take kind).2 := h.take fun _ => patterns
    rcases here with lost | ⟨same, abreast⟩
    · left
      cases taken : (lx.take kind).1 with
      | some t =>
        rw [takeAny_of_some taken]
        exact lost
      | none =>
        rw [takeAny_of_none taken]
        exact lost.takeAny notBut'
    · cases taken : (lx.take kind).1 with
      | some t =>
        rw [taken] at same
        obtain ⟨t', taken'⟩ := Option.isSome_iff_exists.mp same.symm
        rw [takeAny_of_some taken, takeAny_of_some taken']
        exact .inr ⟨rfl, abreast⟩
      | none =>
        rw [taken] at same
        have taken' : (other.take kind).1 = none := by simpa using same.symm
        rw [takeAny_of_none taken, takeAny_of_none taken']
        exact ih abreast notBut'

variable {noEnd : TokenKind.endOfInput ∉ kinds}

theorem Lost.skip (h : lx.Lost u but) (notBut : ∀ kind ∈ kinds, kind ∉ but) :
    (lx.skip kinds noEnd).Lost u but :=
  skip_induction (P := Lost u but) (fun _ h => h.takeAny notBut) h

theorem Abreast.skip (h : lx.Abreast u v other) (notBut : ∀ kind ∈ kinds, kind ∉ but)
    (patterns : .filePattern ∈ but) :
    (lx.skip kinds noEnd).Lost u but ∨
      (lx.skip kinds noEnd).Abreast u v (other.skip kinds noEnd) := by
  fun_induction Lexer.skip kinds noEnd lx generalizing other with
  | case1 lx next eq lt ih =>
    rcases h.takeAny notBut patterns with lost | ⟨same, abreast⟩
    · rw [eq] at lost
      exact .inl (lost.skip notBut)
    · rw [eq] at same abreast
      rw [skip_of_true same.symm]
      exact ih abreast
  | case2 lx next eq =>
    rcases h.takeAny notBut patterns with lost | ⟨same, abreast⟩
    · rw [eq] at lost
      exact .inl lost
    · rw [eq] at same abreast
      rw [skip_of_false same.symm]
      exact .inr abreast

end Lexer

namespace Parser

variable {α β γ δ : Type} {u v : List Char} {but but' but'' : List TokenKind}

/-- From the reading on the parsers stay in step. If it is lost before, it is lost behind the first
one; and if it is abreast with another one, it gets lost or both parsers succeed, with values of
which the function makes the same, and are abreast behind. -/
structure InStepAt (u v : List Char) (but but' : List TokenKind) (e : α → γ) (p q : Parser α)
    (s : Reading) : Prop where
  lost : s.lexer.Lost u but → ∀ a s', p.run s = .ok a s' → s'.lexer.Lost u but'
  abreast : ∀ t : Reading, s.lexer.Abreast u v t.lexer → ∀ a s', p.run s = .ok a s' →
    s'.lexer.Lost u but' ∨
      ∃ b t', q.run t = .ok b t' ∧ e a = e b ∧ s'.lexer.Abreast u v t'.lexer

def InStep (u v : List Char) (but but' : List TokenKind) (e : α → γ) (p q : Parser α) : Prop :=
  ∀ s, InStepAt u v but but' e p q s

abbrev KeepStep (u v : List Char) (e : α → γ) (p q : Parser α) : Prop :=
  InStep u v [.filePattern] [.filePattern] e p q

/-- What parsers agree on that agree on nothing but that they succeed. -/
def noValue (_ : α) : Unit := ()

section Rules

variable {e : α → γ} {e' : β → δ} {p q : Parser α} {f g : α → Parser β} {s : Reading}

theorem InStepAt.bind (h : InStepAt u v but but' e p q s)
    (h' : ∀ a b s', p.run s = .ok a s' → e a = e b → InStepAt u v but' but'' e' (f a) (g b) s') :
    InStepAt u v but but'' e' (p >>= f) (q >>= g) s := by
  constructor
  · intro lost b s₂ ran
    rw [run_bind] at ran
    cases first : p.run s with
    | error => simp [first] at ran
    | ok a s₁ =>
      simp only [first] at ran
      exact (h' a a s₁ first rfl).lost (h.lost lost a s₁ first) b s₂ ran
  · intro t abreast c s₂ ran
    rw [run_bind] at ran
    cases first : p.run s with
    | error => simp [first] at ran
    | ok a s₁ =>
      simp only [first] at ran
      rcases h.abreast t abreast a s₁ first with lost | ⟨b, t₁, first', same, abreast'⟩
      · exact .inl ((h' a a s₁ first rfl).lost lost c s₂ ran)
      · rw [run_bind, first']
        exact (h' a b s₁ first same).abreast t₁ abreast' c s₂ ran

theorem InStep.bind (h : InStep u v but but' e p q)
    (h' : ∀ a b, e a = e b → InStep u v but' but'' e' (f a) (g b)) :
    InStep u v but but'' e' (p >>= f) (q >>= g) :=
  fun s => (h s).bind fun a b s' _ same => h' a b same s'

theorem InStep.weaken (h : InStep u v but but' e p q) (le : but' ⊆ but'') :
    InStep u v but but'' e p q := fun s =>
  ⟨fun lost a s' ran => ((h s).lost lost a s' ran).mono le,
    fun t abreast a s' ran => ((h s).abreast t abreast a s' ran).imp_left (·.mono le)⟩

/-- A reading that is lost, or abreast with one that is as said, goes on so. -/
theorem InStep.goes_on {P : Reading → Prop} {a : α} {s' : Reading} (h : InStep u v but but' e p q)
    (before : s.lexer.Lost u but ∨ ∃ t, P t ∧ s.lexer.Abreast u v t.lexer)
    (ran : p.run s = .ok a s') :
    s'.lexer.Lost u but' ∨
      ∃ t b t', P t ∧ q.run t = .ok b t' ∧ e a = e b ∧ s'.lexer.Abreast u v t'.lexer := by
  rcases before with lost | ⟨t, hP, abreast⟩
  · exact .inl ((h s).lost lost a s' ran)
  · exact ((h s).abreast t abreast a s' ran).imp_right fun ⟨b, t', behind⟩ => ⟨t, b, t', hP, behind⟩

/-- Parsers that always succeed. -/
theorem inStep_of_succeeds {a : Reading → α} {b : Reading → α} {next next' : Reading → Reading}
    (hp : ∀ s, p.run s = .ok (a s) (next s)) (hq : ∀ t, q.run t = .ok (b t) (next' t))
    (lost : ∀ s, s.lexer.Lost u but → (next s).lexer.Lost u but)
    (abreast : ∀ s t, s.lexer.Abreast u v t.lexer → (next s).lexer.Lost u but ∨
      e (a s) = e (b t) ∧ (next s).lexer.Abreast u v (next' t).lexer) :
    InStep u v but but e p q := by
  refine fun s => ⟨fun lost' c s' ran => ?_, fun t abreast' c s' ran => ?_⟩
  · cases (hp s).symm.trans ran
    exact lost s lost'
  · cases (hp s).symm.trans ran
    exact (abreast s t abreast').imp_right fun ⟨same, behind⟩ => ⟨b t, next' t, hq t, same, behind⟩

theorem inStep_pure {a b : α} (same : e a = e b) : InStep u v but but e (pure a) (pure b) :=
  inStep_of_succeeds (fun _ => rfl) (fun _ => rfl) (fun _ lost => lost)
    fun _ _ abreast => .inr ⟨same, abreast⟩

theorem inStep_done (a b : α) : InStep u v but but noValue (pure a) (pure b) :=
  inStep_pure rfl

/-- A parser that always fails. -/
theorem inStep_of_fails (fails : ∀ s a s', p.run s ≠ .ok a s') : InStep u v but but' e p q :=
  fun s => ⟨fun _ a s' ran => absurd ran (fails s a s'),
    fun _ _ a s' ran => absurd ran (fails s a s')⟩

theorem inStep_fail (cause : Cause) (span : Span) (q : Parser α) :
    InStep u v but but' e (fail cause span) q :=
  inStep_of_fails fun _ _ _ ran => by cases ran

theorem inStep_failHere (error : SyntaxError) (q : Parser α) :
    InStep u v but but' e (failHere error) q :=
  inStep_of_fails fun _ _ _ ran => by cases ran

theorem inStep_getLexer : InStep u v but but noValue getLexer getLexer :=
  inStep_of_succeeds (fun _ => rfl) (fun _ => rfl) (fun _ lost => lost)
    fun _ _ abreast => .inr ⟨rfl, abreast⟩

theorem inStep_noteInclude (pattern pattern' : String) :
    InStep u v but but noValue (noteInclude pattern) (noteInclude pattern') :=
  inStep_of_succeeds (fun _ => rfl) (fun _ => rfl) (fun _ lost => lost)
    fun _ _ abreast => .inr ⟨rfl, abreast⟩

theorem inStep_accept (kind : TokenKind) (notBut : kind ∉ but) (short : kind ∉ braceEnding) :
    InStep u v but but id (accept kind) (accept kind) :=
  inStep_of_succeeds (fun _ => rfl) (fun _ => rfl) (fun _ lost => lost.tryMatch notBut)
    fun _ _ abreast => (abreast.tryMatch short).imp_right fun behind => ⟨behind.holds kind, behind⟩

theorem inStep_take (kind : TokenKind) (h : kind.askable but = true) :
    InStep u v but but Option.isSome (take kind) (take kind) :=
  inStep_of_succeeds (fun _ => rfl) (fun _ => rfl) (fun _ lost => lost.take (askable_iff.mp h).1)
    fun _ _ abreast => abreast.take (askable_iff.mp h).2

theorem keepStep_skipSmallGap : KeepStep u v noValue skipSmallGap skipSmallGap :=
  inStep_of_succeeds (fun _ => rfl) (fun _ => rfl) (fun _ lost => lost.skip (by decide))
    fun _ _ abreast => (abreast.skip (by decide) (by decide)).imp_right fun behind => ⟨rfl, behind⟩

theorem keepStep_skipBigGap : KeepStep u v noValue skipBigGap skipBigGap :=
  inStep_of_succeeds (fun _ => rfl) (fun _ => rfl) (fun _ lost => lost.skip (by decide))
    fun _ _ abreast => (abreast.skip (by decide) (by decide)).imp_right fun behind => ⟨rfl, behind⟩

/-- Parsers that agree on whether there is a value come to none or both to one. -/
theorem none_or_some_of_isSome_eq {a b : Option α} (same : a.isSome = b.isSome) :
    (a = none ∧ b = none) ∨ ∃ x y, a = some x ∧ b = some y := by
  cases a <;> cases b <;> simp_all

theorem inStep_onToken {kind : TokenKind} {found found' : Token → Parser α}
    (h : kind.askable but = true) (hf : ∀ t t', InStep u v but but' e (found t) (found' t'))
    (ho : InStep u v but but' e p q) :
    InStep u v but but' e (onToken kind found p) (onToken kind found' q) := by
  refine (inStep_take kind h).bind fun token token' same => ?_
  obtain ⟨rfl, rfl⟩ | ⟨t, t', rfl, rfl⟩ := none_or_some_of_isSome_eq same
  · exact ho
  · exact hf t t'

theorem run_expect_eq_ok_iff {kind : TokenKind} {t : Token} {s' : Reading} :
    (expect kind).run s = .ok t s' ↔
      (s.lexer.take kind).1 = some t ∧ { s with lexer := (s.lexer.take kind).2 } = s' := by
  simp only [expect, onToken, run_bind, take]
  cases taken : (s.lexer.take kind).1 with
  | some t₁ => simp
  | none =>
    simp only [run_bind, getLexer, reduceCtorEq, false_and, iff_false]
    split <;> (intro ran; cases ran)

/-- A parser that insists on a token does not come away from where it is stuck. -/
theorem inStep_expect (kind : TokenKind) (h : kind.askable but = true) :
    InStep u v but but' noValue (expect kind) (expect kind) := by
  obtain ⟨notBut, comments⟩ := askable_iff.mp h
  refine fun s => ⟨fun lost a s' ran => ?_, fun t abreast a s' ran => ?_⟩
  · rcases lost with past | stuck
    · exact .inl (Nat.le_trans ((expect kind).unread_le ran) past)
    · rw [run_expect_eq_ok_iff, stuck.take notBut] at ran
      cases ran.1
  · obtain ⟨taken, rfl⟩ := run_expect_eq_ok_iff.mp ran
    rcases abreast.take_cases comments with ⟨none, _⟩ | past | ⟨same, abreast'⟩
    · cases none.symm.trans taken
    · exact .inl (.inl past)
    · rw [taken] at same
      obtain ⟨b, taken'⟩ := Option.isSome_iff_exists.mp same.symm
      exact .inr ⟨b, _, run_expect_eq_ok_iff.mpr ⟨taken', rfl⟩, rfl, abreast'⟩

theorem keepStep_expect (kind : TokenKind) (h : kind.askable [.filePattern] = true) :
    KeepStep u v noValue (expect kind) (expect kind) :=
  inStep_expect kind h

/-! ### Repetitions -/

variable {r : Parser α}

theorem InStep.eachAfter {kind : TokenKind} {ne : kind ≠ .endOfInput}
    (askable : kind.askable but = true) (h : InStep u v but but noValue r r) :
    InStep u v but but noValue (eachAfter kind ne r) (eachAfter kind ne r) := by
  intro s
  -- what is left to read gets less with each token of the kind
  induction size : s.unread using Nat.strongRecOn generalizing s with
  | ind n ih =>
  rw [eachAfter_eq]
  refine (inStep_take kind askable s).bind fun token token' s₁ taken same => ?_
  obtain ⟨rfl, rfl⟩ | ⟨t, t', rfl, rfl⟩ := none_or_some_of_isSome_eq same
  · exact inStep_done _ _ s₁
  · have less : s₁.unread < n := size ▸ unread_lt_of_take ne taken
    refine (h s₁).bind fun a b s₂ read _ => ?_
    have less' : s₂.unread < n := Nat.lt_of_le_of_lt (r.unread_le read) less
    exact (ih _ less' s₂ rfl).bind fun as bs s₃ _ _ => inStep_done _ _ s₃

theorem InStep.repeatUntil {done : Parser Bool} {progress : r.Progresses}
    (hd : InStep u v but but id done done) (h : InStep u v but but noValue r r) :
    InStep u v but but noValue (repeatUntil done r progress) (repeatUntil done r progress) := by
  intro s
  induction size : s.unread using Nat.strongRecOn generalizing s with
  | ind n ih =>
  rw [repeatUntil_eq]
  refine (hd s).bind fun ended ended' s₁ asked same => ?_
  obtain rfl : ended = ended' := same
  split
  · exact inStep_done _ _ s₁
  · refine (h s₁).bind fun a b s₂ read _ => ?_
    have less : s₂.unread < n :=
      Nat.lt_of_lt_of_le (progress _ _ _ read) (size ▸ done.unread_le asked)
    exact (ih _ less s₂ rfl).bind fun as bs s₃ _ _ => inStep_done _ _ s₃

end Rules

/-! ### The grammar -/

theorem inStep_value_of_token {kind : TokenKind} {read : Token → α} {otherwise : Parser α}
    (h : kind.askable but = true) (ho : InStep u v but but noValue otherwise otherwise) :
    InStep u v but but noValue (onToken kind (fun t => pure (read t)) otherwise)
      (onToken kind (fun t => pure (read t)) otherwise) :=
  inStep_onToken h (fun _ _ => inStep_done _ _) ho

theorem keepStep_pathSegment : KeepStep u v noValue pathSegment pathSegment := by
  refine inStep_onToken (by decide) (fun _ _ => ?prototype) <|
    inStep_onToken (by decide) (fun _ _ => ?metaProperty) <|
    inStep_value_of_token (by decide) <| inStep_value_of_token (by decide) <|
    inStep_value_of_token (by decide) <| inStep_failHere _ _
  case prototype =>
    have name : KeepStep u v noValue (onToken .objectName pure (failHere .expectedPrototypeName))
        (onToken .objectName pure (failHere .expectedPrototypeName)) :=
      inStep_value_of_token (by decide) (inStep_failHere _ _)
    exact name.bind fun _ _ _ => (keepStep_expect _ (by decide)).bind fun _ _ _ =>
      inStep_done _ _
  case metaProperty =>
    exact (keepStep_expect _ (by decide)).bind fun _ _ _ => inStep_done _ _

theorem keepStep_objectPath : KeepStep u v noValue objectPath objectPath :=
  keepStep_pathSegment.bind fun _ _ _ =>
    (keepStep_pathSegment.eachAfter (by decide)).bind fun _ _ _ => inStep_done _ _

theorem keepStep_value : KeepStep u v noValue value value := by
  have dsl (t t' : Token) : KeepStep u v noValue (dslValue t) (dslValue t') :=
    inStep_onToken (by decide) (fun _ _ => inStep_done _ _) (inStep_fail _ _ _)
  refine inStep_value_of_token (by decide) <| inStep_value_of_token (by decide) <|
    inStep_value_of_token (by decide) <| inStep_onToken (by decide) dsl <| ?_
  refine inStep_value_of_token (by decide) <| inStep_value_of_token (by decide) <|
    inStep_value_of_token (by decide) <| inStep_value_of_token (by decide) <|
    inStep_value_of_token (by decide) <| inStep_value_of_token (by decide) ?_
  exact inStep_failHere _ _

theorem keepStep_operation? : KeepStep u v Option.isSome operation? operation? := by
  refine inStep_onToken (by decide) (fun _ _ => ?assign) <|
    inStep_onToken (by decide) (fun _ _ => inStep_pure rfl) <|
    inStep_onToken (by decide) (fun _ _ => ?copy) (inStep_pure rfl)
  case assign =>
    exact keepStep_skipSmallGap.bind fun _ _ _ => keepStep_value.bind fun _ _ _ => inStep_pure rfl
  case copy =>
    exact keepStep_skipSmallGap.bind fun _ _ _ => (inStep_take _ (by decide)).bind fun _ _ _ =>
      keepStep_objectPath.bind fun _ _ _ => inStep_pure rfl

theorem keepStep_endOfStatement (inBlock : Bool) :
    KeepStep u v noValue (endOfStatement inBlock) (endOfStatement inBlock) := by
  refine keepStep_skipSmallGap.bind fun _ _ _ =>
    (inStep_accept _ (by decide) (by decide)).bind fun atEnd atEnd' same => ?_
  obtain rfl : atEnd = atEnd' := same
  split
  · exact inStep_done _ _
  refine (inStep_take _ (by decide)).bind fun newline newline' same => ?_
  rw [same]
  split
  · exact inStep_done _ _
  split
  · refine (inStep_accept _ (by decide) (by decide)).bind fun closes closes' same => ?_
    obtain rfl : closes = closes' := same
    split
    · exact inStep_done _ _
    · exact inStep_failHere _ _
  · exact inStep_failHere _ _

/-- Where no rule matches at all, a file pattern does not begin either. -/
theorem inStep_filePattern : InStep u v [] [] noValue filePattern filePattern :=
  inStep_value_of_token (by decide) <| inStep_value_of_token (by decide) <|
  inStep_value_of_token (by decide) <| inStep_failHere _ _

/-- No block comment is asked for between the keyword and the pattern. -/
theorem keepStep_inclusion (inBlock : Bool) :
    KeepStep u v noValue (inclusion inBlock) (inclusion inBlock) := by
  have keyword : InStep u v [.filePattern] [] noValue (expect .inclusion) (expect .inclusion) :=
    inStep_expect _ (by decide)
  refine keyword.bind fun _ _ _ => ?_
  refine (inStep_take _ (by decide)).bind fun _ _ _ => ?_
  refine (inStep_filePattern.weaken (List.nil_subset [.filePattern])).bind fun _ _ _ => ?_
  exact (keepStep_endOfStatement inBlock).bind fun _ _ _ =>
    (inStep_noteInclude _ _).bind fun _ _ _ => inStep_done _ _

variable {contents : Option (Parser (List Statement))}

def ContentsKeepStep (u v : List Char) (contents : Option (Parser (List Statement))) : Prop :=
  ∀ p, contents = some p → KeepStep u v noValue p p

theorem keepStep_block (h : ContentsKeepStep u v contents) :
    KeepStep u v noValue (block contents) (block contents) := by
  refine (keepStep_expect _ (by decide)).bind fun _ _ _ => ?_
  cases contents with
  | none => exact inStep_fail _ _ _
  | some p =>
    exact (h p rfl).bind fun _ _ _ =>
      inStep_onToken (by decide) (fun _ _ => inStep_done _ _) (inStep_fail _ _ _)

theorem keepStep_object (inBlock : Bool) (h : ContentsKeepStep u v contents) :
    KeepStep u v noValue (object inBlock contents) (object inBlock contents) := by
  refine keepStep_objectPath.bind fun _ _ _ => keepStep_skipSmallGap.bind fun _ _ _ =>
    inStep_getLexer.bind fun _ _ _ => keepStep_operation?.bind fun operation operation' same => ?_
  refine keepStep_skipSmallGap.bind fun _ _ _ =>
    (inStep_accept _ (by decide) (by decide)).bind fun opens opens' sameOpens => ?_
  obtain rfl : opens = opens' := sameOpens
  split
  · exact (keepStep_block h).bind fun _ _ _ => inStep_done _ _
  · cases operation with
    | none => exact inStep_fail _ _ _
    | some op =>
      obtain ⟨op', rfl⟩ := Option.isSome_iff_exists.mp same.symm
      exact (keepStep_endOfStatement inBlock).bind fun _ _ _ => inStep_done _ _

theorem inStep_acceptAny {kinds : List TokenKind} (notBut : ∀ kind ∈ kinds, kind ∉ but)
    (short : ∀ kind ∈ kinds, kind ∉ braceEnding) :
    InStep u v but but id (acceptAny kinds) (acceptAny kinds) := by
  induction kinds with
  | nil => exact inStep_pure rfl
  | cons kind kinds ih =>
    obtain ⟨notHere, notBut⟩ := List.forall_mem_cons.mp notBut
    obtain ⟨shortHere, short⟩ := List.forall_mem_cons.mp short
    refine (inStep_accept kind notHere shortHere).bind fun accepted accepted' same => ?_
    obtain rfl : accepted = accepted' := same
    split
    · exact inStep_pure rfl
    · exact ih notBut short

theorem keepStep_statement (inBlock : Bool) (h : ContentsKeepStep u v contents) :
    KeepStep u v noValue (statement inBlock contents) (statement inBlock contents) := by
  refine (inStep_accept _ (by decide) (by decide)).bind fun isInclude isInclude' same => ?_
  obtain rfl : isInclude = isInclude' := same
  split
  · exact keepStep_inclusion inBlock
  refine (inStep_acceptAny (by decide) (by decide)).bind fun isObject isObject' same => ?_
  obtain rfl : isObject = isObject' := same
  split
  · exact keepStep_object inBlock h
  · exact inStep_failHere _ _

theorem keepStep_endOfStatements (inBlock : Bool) :
    KeepStep u v id (endOfStatements inBlock) (endOfStatements inBlock) := by
  refine keepStep_skipBigGap.bind fun _ _ _ =>
    (inStep_accept _ (by decide) (by decide)).bind fun atEnd atEnd' same => ?_
  obtain rfl : atEnd = atEnd' := same
  split
  · exact inStep_pure rfl
  split
  · exact inStep_accept _ (by decide) (by decide)
  · exact inStep_pure rfl

theorem keepStep_statements (room : Nat) (inBlock : Bool) :
    KeepStep u v noValue (statements room inBlock) (statements room inBlock) := by
  induction room generalizing inBlock with
  | zero => exact (keepStep_endOfStatements _).repeatUntil (keepStep_statement _ nofun)
  | succ room ih =>
    refine (keepStep_endOfStatements _).repeatUntil (keepStep_statement _ fun p hp => ?_)
    cases hp
    exact ih true

end Parser

end FusionTree
