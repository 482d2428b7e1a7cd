import FusionTree.Proofs.Parser.Consuming

/-!
# Missing tokens

A token can be missing in two ways: a character stands where it has to be that no rule matches, or
the input ends there. A parser `Locates` its problems if it tells these two apart and shows what
stands there. The grammar insists on a token only where no other token has been looked at, so what
it shows is never the lookahead of an earlier request.

`deep` says whether a parser may find too many blocks open; only those that read blocks do.
-/

namespace FusionTree

open Text

/-- The problem fits the lexer that it has been found with. If it is one of a character, that
character is the next one, and nothing has been looked at; if it is one of a token, that token is
the end of the input. -/
structure Problem.FitsAt (p : Problem) (deep : Prop) (src : Source) (lx : Lexer) : Prop where
  lexical : ∀ kind found, p.cause = .lexical kind found → lx.lookahead = none ∧
    ∃ before c after, src.text = before ++ c :: after ∧ lx.cursor = byteLength before ∧
      found = some c ∧ p.span = src.piece before [c]
  unexpected : ∀ kind found, p.cause = .syntactic (.unexpectedToken kind found) →
    lx.holds .endOfInput = true ∧ found = .endOfInput ∧ p.span = src.piece src.text []
  tooDeep : ∀ max, p.cause = .syntactic (.nestingTooDeep max) → deep

/-- The error is neither about one kind of token nor about too many blocks. -/
def SyntaxError.isPlain : SyntaxError → Bool
  | .unexpectedToken .. | .nestingTooDeep _ => false
  | _ => true

/-- A plain error fits everywhere. -/
theorem Problem.fitsAt_of_isPlain {deep : Prop} {src : Source} {lx : Lexer} {error : SyntaxError}
    {span : Span} (plain : error.isPlain = true) :
    FitsAt ⟨.syntactic error, span⟩ deep src lx where
  lexical _ _ same := by cases same
  unexpected _ _ same := by
    cases same
    cases plain
  tooDeep _ same := by
    cases same
    cases plain

theorem Problem.fitsAt_unexpectedToken {deep : Prop} {src : Source} {lx : Lexer} {kind : TokenKind}
    {span : Span} (ended : lx.holds .endOfInput = true) (all : span = src.piece src.text []) :
    FitsAt ⟨.syntactic (.unexpectedToken kind .endOfInput), span⟩ deep src lx where
  lexical _ _ same := by cases same
  unexpected _ _ same := by
    cases same
    exact ⟨ended, rfl, all⟩
  tooDeep _ same := by cases same

theorem Problem.fitsAt_nestingTooDeep {deep : Prop} {src : Source} {lx : Lexer} {max : Nat}
    {span : Span} (h : deep) : FitsAt ⟨.syntactic (.nestingTooDeep max), span⟩ deep src lx where
  lexical _ _ same := by cases same
  unexpected _ _ same := by cases same
  tooDeep _ _ := h

theorem Problem.fitsAt_lexical {deep : Prop} {src : Source} {lx : Lexer} {kind : TokenKind}
    {before after : List Char} {c : Char} (untouched : lx.lookahead = none)
    (text : src.text = before ++ c :: after) (cursor : lx.cursor = byteLength before) :
    FitsAt ⟨.lexical kind (some c), src.piece before [c]⟩ deep src lx where
  lexical _ _ same := by
    cases same
    exact ⟨untouched, before, c, after, text, cursor, rfl, rfl⟩
  unexpected _ _ same := by cases same
  tooDeep _ same := by cases same

namespace Lexer

variable {lx : Lexer} {src : Source} {before after : List Char} {c : Char}

/-- The range of the character after the cursor. -/
theorem charSpan_cursor (text : lx.source.text = before ++ c :: after)
    (cursor : lx.cursor = byteLength before) :
    lx.charSpan lx.cursor = lx.source.piece before [c] := by
  have here : lx.source.text = before ++ ([c] ++ after) := text
  have inside := Source.liesIn_piece here
  rw [Span.LiesIn, Source.start_piece, Source.stop_piece] at inside
  have one : byteLength [c] = c.utf8Size := rfl
  rw [one] at inside
  simp [charSpan, cursor, text, dropBytes_byteLength_append, Lexer.span, inside]

def Awaits (lx : Lexer) (kind : TokenKind) : Prop :=
  lx.lookahead = none ∨ lx.holds kind = true

theorem exists_of_holds {kind : TokenKind} (h : lx.holds kind = true) :
    ∃ t, lx.lookahead = some t ∧ t.kind = kind := by
  cases looked : lx.lookahead with
  | none => simp [holds, looked] at h
  | some t => exact ⟨t, rfl, by simpa [holds, looked] using h⟩

theorem tryMatch_of_holds {kind : TokenKind} (h : lx.holds kind = true) (other : TokenKind) :
    lx.tryMatch other = lx := by
  obtain ⟨t, looked, _⟩ := exists_of_holds h
  exact tryMatch_of_lookahead looked other

theorem lookahead_of_take {kind : TokenKind} (taken : (lx.take kind).1.isSome) :
    (lx.take kind).2.lookahead = none := by
  unfold take at taken ⊢
  dsimp only at taken ⊢
  split at taken
  · rename_i holds
    rw [if_pos holds]
    rfl
  · cases taken

end Lexer

namespace Parser

variable {α β : Type} {src : Source} {deep : Prop}

/-- What a parser comes to: a reading of the source with a value and a lexer that are as said, or a
problem that fits. -/
def Fits (src : Source) (deep : Prop) (Q : α → Lexer → Prop) : Outcome α → Prop
  | .ok a s => s.Follows src ∧ Q a s.lexer
  | .error e s => e.FitsAt deep src s.lexer

/-- From every reading of the source whose lexer is as said, the parser comes to a value and a lexer
that are as said, or to a problem that fits. -/
def Locates (src : Source) (deep : Prop) (P : Lexer → Prop) (p : Parser α) (Q : α → Lexer → Prop) :
    Prop :=
  ∀ s : Reading, s.Follows src → P s.lexer → Fits src deep Q (p.run s)

abbrev LocatesAlways (src : Source) (deep : Prop) (p : Parser α) : Prop :=
  Locates src deep (fun _ => True) p fun _ _ => True

/-! ### Rules -/

section Rules

variable {P P' : Lexer → Prop} {p : Parser α} {f : α → Parser β} {Q : α → Lexer → Prop}
variable {R : β → Lexer → Prop}

theorem Locates.from (h : Locates src deep P p Q) (le : ∀ lx, P' lx → P lx) :
    Locates src deep P' p Q :=
  fun s follows hP => h s follows (le _ hP)

theorem LocatesAlways.from (h : LocatesAlways src deep p) :
    Locates src deep P p fun _ _ => True :=
  Locates.from h fun _ _ => trivial

theorem locates_pure (a : α) : Locates src deep P (pure a) fun _ _ => True :=
  fun _ follows _ => ⟨follows, trivial⟩

theorem Fits.bind {s : Reading} (hp : Fits src deep Q (p.run s))
    (hf : ∀ a s', p.run s = .ok a s' → s'.Follows src → Q a s'.lexer →
      Fits src deep R ((f a).run s')) : Fits src deep R ((p >>= f).run s) := by
  rw [run_bind]
  cases ran : p.run s with
  | error e s' => rwa [ran] at hp
  | ok a s' =>
    rw [ran] at hp
    exact hf a s' ran hp.1 hp.2

theorem Locates.bind (hp : Locates src deep P p Q) (hf : ∀ a, Locates src deep (Q a) (f a) R) :
    Locates src deep P (p >>= f) R :=
  fun s follows hP => (hp s follows hP).bind fun a s' _ follows' hQ => hf a s' follows' hQ

theorem locates_fail {error : SyntaxError} (span : Span) (plain : error.isPlain = true) :
    Locates src deep P (fail (.syntactic error) span) Q :=
  fun _ _ _ => Problem.fitsAt_of_isPlain plain

theorem locates_failHere {error : SyntaxError} (plain : error.isPlain = true) :
    Locates src deep P (failHere error) Q :=
  fun _ _ _ => Problem.fitsAt_of_isPlain plain

theorem locates_nestingTooDeep {max : Nat} (span : Span) (h : deep) :
    Locates src deep P (fail (.syntactic (.nestingTooDeep max)) span) Q :=
  fun _ _ _ => Problem.fitsAt_nestingTooDeep h

/-- A parser that only moves on. -/
theorem locates_of_takes (ok : ∀ s, ∃ a s', p.run s = .ok a s')
    (h : ∀ before, Takes src before p fun _ _ => True) : LocatesAlways src deep p := by
  intro s follows _
  obtain ⟨a, s', ran⟩ := ok s
  rw [ran]
  exact ⟨follows_of_takes h follows ran, trivial⟩

theorem locates_getLexer : LocatesAlways src deep getLexer :=
  fun _ follows _ => ⟨follows, trivial⟩

theorem locates_noteInclude (pattern : String) : LocatesAlways src deep (noteInclude pattern) :=
  fun _ follows _ => ⟨follows, trivial⟩

theorem locates_skipSmallGap : LocatesAlways src deep skipSmallGap :=
  locates_of_takes (fun _ => ⟨_, _, rfl⟩) fun _ => takes_skipSmallGap

theorem locates_skipBigGap : LocatesAlways src deep skipBigGap :=
  locates_of_takes (fun _ => ⟨_, _, rfl⟩) fun _ => takes_skipBigGap

theorem locates_accept (kind : TokenKind) :
    Locates src deep (fun _ => True) (accept kind) fun accepted lx => lx.holds kind = accepted := by
  rintro s ⟨before, follows⟩ _
  exact ⟨⟨before, follows.tryMatch kind⟩, rfl⟩

theorem locates_take (kind : TokenKind) :
    Locates src deep (fun _ => True) (take kind)
      fun token lx => token.isSome = true → lx.lookahead = none := by
  intro s follows _
  exact ⟨follows_of_takes (fun _ => takes_take kind) follows rfl, Lexer.lookahead_of_take⟩

/-- Behind a token that has been taken nothing has been looked at. -/
theorem locates_onToken {kind : TokenKind} {found : Token → Parser α} {otherwise : Parser α}
    (hf : ∀ t, Locates src deep (fun lx => lx.lookahead = none) (found t) Q)
    (ho : Locates src deep (fun _ => True) otherwise Q) :
    Locates src deep (fun _ => True) (onToken kind found otherwise) Q := by
  refine (locates_take kind).bind fun token => ?_
  cases token with
  | some t => exact (hf t).from fun lx untouched => untouched rfl
  | none => exact ho.from fun _ _ => trivial

/-- A parser that insists on a token shows what stands there, unless it stands at a lookahead of
another kind. -/
theorem locates_expect (kind : TokenKind) :
    Locates src deep (·.Awaits kind) (expect kind) fun _ lx => lx.lookahead = none := by
  rintro s ⟨before, follows⟩ awaits
  simp only [expect, onToken, run_bind, take]
  have matched := follows.tryMatch kind
  cases holds : (s.lexer.tryMatch kind).holds kind with
  | true =>
    obtain ⟨t, looked, _⟩ := Lexer.exists_of_holds holds
    have taken : s.lexer.take kind = (some t, (s.lexer.tryMatch kind).consume) := by
      simp [Lexer.take, holds, looked]
    rw [taken]
    exact ⟨⟨_, matched.consume looked⟩, rfl⟩
  | false =>
    have taken : s.lexer.take kind = (none, s.lexer.tryMatch kind) := by simp [Lexer.take, holds]
    simp only [taken, run_bind, getLexer]
    have noLookahead : s.lexer.lookahead = none := by
      refine awaits.resolve_right fun held => ?_
      rw [Lexer.tryMatch_of_holds held, held] at holds
      cases holds
    rcases s.lexer.tryMatch_cases kind with ⟨looked, _⟩ | ⟨_, nothing, ended⟩ |
      ⟨lexeme, rest, _, _, _, found⟩ | ⟨_, something, _, same⟩
    · exact absurd noLookahead looked
    · -- the input ends: its end has become the lookahead
      rw [ended] at matched ⊢
      have all : src.text = before := by
        simpa [Lexer.atEnd, Lexer.pending, nothing] using matched.text
      have span := (matched.lookahead _ rfl).span
      exact Problem.fitsAt_unexpectedToken rfl (all ▸ span)
    · -- a rule has matched: its token would have been taken
      rw [found] at holds
      simp [Lexer.holds, Lexer.past] at holds
    · -- nothing matches: the next character is shown
      rw [same] at matched ⊢
      obtain ⟨c, after, rest⟩ := List.exists_cons_of_ne_nil something
      have text : src.text = before ++ c :: after := by
        simpa [Lexer.pending, noLookahead, rest] using matched.text
      have cursor : s.lexer.cursor = byteLength before := by
        simpa [Lexer.pending, noLookahead] using matched.cursor
      have shown : s.lexer.charSpan s.lexer.cursor = src.piece before [c] := by
        rw [← matched.source] at text ⊢
        exact Lexer.charSpan_cursor text cursor
      simp only [noLookahead, fail, Lexer.peekChar, rest, List.head?_cons, shown]
      exact Problem.fitsAt_lexical noLookahead text cursor

/-! ### Repetitions -/

theorem LocatesAlways.eachAfter {kind : TokenKind} {ne : kind ≠ .endOfInput}
    (h : LocatesAlways src deep p) : LocatesAlways src deep (eachAfter kind ne p) := by
  intro s follows _
  -- what is left to read gets less with each token of the kind
  induction size : s.unread using Nat.strongRecOn generalizing s with
  | ind n ih =>
  rw [eachAfter_eq]
  refine (locates_take kind s follows trivial).bind fun token s₁ taken follows₁ _ => ?_
  cases token with
  | none => exact ⟨follows₁, trivial⟩
  | some t =>
    have less : s₁.unread < n := size ▸ unread_lt_of_take ne taken
    refine (h s₁ follows₁ trivial).bind fun a s₂ read follows₂ _ => ?_
    have less' : s₂.unread < n := Nat.lt_of_le_of_lt (p.unread_le read) less
    exact (ih _ less' s₂ follows₂ rfl).bind fun as s₃ _ follows₃ _ => ⟨follows₃, trivial⟩

theorem LocatesAlways.repeatUntil {done : Parser Bool} {progress : p.Progresses}
    (hd : LocatesAlways src deep done) (h : LocatesAlways src deep p) :
    LocatesAlways src deep (repeatUntil done p progress) := by
  intro s follows _
  induction size : s.unread using Nat.strongRecOn generalizing s with
  | ind n ih =>
  rw [repeatUntil_eq]
  refine (hd s follows trivial).bind fun ended s₁ asked follows₁ _ => ?_
  split
  · exact ⟨follows₁, trivial⟩
  · refine (h s₁ follows₁ trivial).bind fun a s₂ read follows₂ _ => ?_
    have less : s₂.unread < n :=
      Nat.lt_of_lt_of_le (progress _ _ _ read) (size ▸ done.unread_le asked)
    exact (ih _ less s₂ follows₂ rfl).bind fun as s₃ _ follows₃ _ => ⟨follows₃, trivial⟩

end Rules

/-! ### The grammar -/

variable {contents : Option (Parser (List Statement))}

theorem awaits_of_untouched (kind : TokenKind) (lx : Lexer) (untouched : lx.lookahead = none) :
    lx.Awaits kind :=
  .inl untouched

theorem locates_insist (kind : TokenKind) :
    Locates src deep (fun lx => lx.lookahead = none) (expect kind)
      fun _ lx => lx.lookahead = none :=
  (locates_expect kind).from (awaits_of_untouched kind)

theorem locates_value_of_token {kind : TokenKind} {α : Type} {otherwise : Parser α}
    (read : Token → α) (ho : LocatesAlways src deep otherwise) :
    LocatesAlways src deep (onToken kind (fun t => pure (read t)) otherwise) :=
  locates_onToken (fun _ => locates_pure _) ho

theorem locates_pathSegment : LocatesAlways src deep pathSegment := by
  refine locates_onToken (fun start => ?prototype) <|
    locates_onToken (fun start => ?metaProperty) <| locates_value_of_token _ <|
    locates_value_of_token _ <| locates_value_of_token _ <| locates_failHere rfl
  case prototype =>
    have name : Locates src deep (fun _ => True)
        (onToken .objectName pure (failHere .expectedPrototypeName))
        fun _ lx => lx.lookahead = none :=
      locates_onToken (fun _ _ follows untouched => ⟨follows, untouched⟩) (locates_failHere rfl)
    refine (name.from fun _ _ => trivial).bind fun t => ?_
    exact (locates_insist .closeParen).bind fun close => locates_pure _
  case metaProperty =>
    exact (locates_insist .pathPart).bind fun name => locates_pure _

theorem locates_objectPath : LocatesAlways src deep objectPath :=
  locates_pathSegment.bind fun _ => locates_pathSegment.eachAfter.bind fun _ => locates_pure _

theorem locates_value : LocatesAlways src deep value := by
  have dsl (identifier : Token) : LocatesAlways src deep (dslValue identifier) := by
    refine locates_value_of_token _ ?_
    exact locates_fail _ rfl
  refine locates_value_of_token _ <| locates_value_of_token _ <| locates_value_of_token _ <|
    locates_onToken (fun identifier => (dsl identifier).from) ?_
  refine locates_value_of_token _ <| locates_value_of_token _ <| locates_value_of_token _ <|
    locates_value_of_token _ <| locates_value_of_token _ <| locates_value_of_token _ ?_
  exact locates_failHere rfl

theorem locates_operation? : LocatesAlways src deep operation? := by
  refine locates_onToken (fun _ => ?assign) <| locates_value_of_token _ <|
    locates_onToken (fun _ => ?copy) (locates_pure _)
  case assign =>
    exact locates_skipSmallGap.from.bind fun _ => locates_value.bind fun _ => locates_pure _
  case copy =>
    exact locates_skipSmallGap.from.bind fun _ => (locates_take .dot).bind fun _ =>
      locates_objectPath.from.bind fun _ => locates_pure _

theorem locates_endOfStatement (inBlock : Bool) :
    LocatesAlways src deep (endOfStatement inBlock) := by
  refine locates_skipSmallGap.bind fun _ => (locates_accept _).bind fun atEnd => ?_
  split
  · exact locates_pure _
  refine ((locates_take _).from fun _ _ => trivial).bind fun newline => ?_
  split
  · exact locates_pure _
  split
  · refine ((locates_accept _).from fun _ _ => trivial).bind fun closes => ?_
    split
    · exact locates_pure _
    · exact locates_failHere rfl
  · exact locates_failHere rfl

theorem locates_inclusion (inBlock : Bool) :
    Locates src deep (·.Awaits .inclusion) (inclusion inBlock) fun _ _ => True := by
  have pattern : LocatesAlways src deep filePattern :=
    locates_value_of_token _ <| locates_value_of_token _ <| locates_value_of_token _ <|
      locates_failHere rfl
  refine (locates_expect .inclusion).bind fun keyword => ?_
  refine ((locates_take .space).from fun _ _ => trivial).bind fun _ => pattern.from.bind fun _ => ?_
  exact (locates_endOfStatement inBlock).bind fun _ => (locates_noteInclude _).bind fun _ =>
    locates_pure _

structure ContentsLocate (src : Source) (deep : Prop)
    (contents : Option (Parser (List Statement))) : Prop where
  none : contents = none → deep
  some : ∀ p, contents = some p → LocatesAlways src deep p

theorem locates_block (h : ContentsLocate src deep contents) :
    Locates src deep (·.Awaits .openBrace) (block contents) fun _ _ => True := by
  refine (locates_expect .openBrace).bind fun openBrace => ?_
  cases contents with
  | none => exact locates_nestingTooDeep _ (h.none rfl)
  | some p => exact (h.some p rfl).from.bind fun _ => locates_value_of_token _ (locates_fail _ rfl)

theorem locates_object (inBlock : Bool) (h : ContentsLocate src deep contents) :
    LocatesAlways src deep (object inBlock contents) := by
  refine locates_objectPath.bind fun _ => locates_skipSmallGap.bind fun _ =>
    locates_getLexer.bind fun _ => locates_operation?.bind fun operation =>
    locates_skipSmallGap.bind fun _ => (locates_accept .openBrace).bind fun opens => ?_
  split
  · rename_i opened
    subst opened
    exact ((locates_block h).from fun _ => .inr).bind fun _ => locates_pure _
  · cases operation with
    | none => exact locates_fail _ rfl
    | some op => exact (locates_endOfStatement inBlock).from.bind fun _ => locates_pure _

theorem locates_acceptAny (kinds : List TokenKind) :
    LocatesAlways src deep (acceptAny kinds) := by
  induction kinds with
  | nil => exact locates_pure _
  | cons kind kinds ih =>
    refine (locates_accept kind).bind fun accepted => ?_
    split
    · exact locates_pure _
    · exact ih.from

theorem locates_statement (inBlock : Bool) (h : ContentsLocate src deep contents) :
    LocatesAlways src deep (statement inBlock contents) := by
  refine (locates_accept .inclusion).bind fun isInclude => ?_
  split
  · rename_i keyword
    subst keyword
    exact (locates_inclusion inBlock).from fun _ => .inr
  refine (locates_acceptAny _).from.bind fun isObject => ?_
  split
  · exact locates_object inBlock h
  · exact locates_failHere rfl

theorem locates_endOfStatements (inBlock : Bool) :
    LocatesAlways src deep (endOfStatements inBlock) := by
  have asks {P : Lexer → Prop} (kind : TokenKind) :
      Locates src deep P (accept kind) fun _ _ => True :=
    fun s follows _ => ⟨⟨_, (follows.choose_spec).tryMatch kind⟩, trivial⟩
  refine locates_skipBigGap.bind fun _ => (asks .endOfInput).bind fun atEnd => ?_
  split
  · exact locates_pure _
  split
  · exact asks .closeBrace
  · exact locates_pure _

theorem locates_statements (room : Nat) (inBlock : Bool) :
    LocatesAlways src True (statements room inBlock) := by
  induction room generalizing inBlock with
  | zero =>
    exact (locates_endOfStatements _).repeatUntil (locates_statement _ ⟨fun _ => trivial, nofun⟩)
  | succ room ih =>
    refine (locates_endOfStatements _).repeatUntil (locates_statement _ ⟨nofun, fun p hp => ?_⟩)
    cases hp
    exact ih true

theorem locates_document : LocatesAlways src True document :=
  (locates_statements _ _).bind fun _ => locates_getLexer.bind fun _ => locates_pure _

end Parser

/-- A character is never called the end of the input. -/
theorem describeFound_some_ne (c : Char) : describeFound (some c) ≠ describeFound none := by
  intro same
  simp only [describeFound] at same
  split at same
  · exact absurd same (by decide)
  split at same
  · exact absurd same (by decide)
  · have first := congrArg (fun text => text.toList.head?) same
    simp at first

namespace Problem

variable {p : Problem} {kind : TokenKind}

/-- The kind of the token that is missing, and the kind or the character that stands there, if the
problem is one of a token. -/
def missing (p : Problem) : Option (TokenKind × (TokenKind ⊕ Option Char)) :=
  match p.cause with
  | .lexical kind found => some (kind, .inr found)
  | .syntactic (.unexpectedToken kind found) => some (kind, .inl found)
  | _ => none

theorem cause_eq_of_missing_inr {found : Option Char} (h : p.missing = some (kind, .inr found)) :
    p.cause = .lexical kind found := by
  unfold missing at h
  split at h <;> simp_all

theorem cause_eq_of_missing_inl {found : TokenKind} (h : p.missing = some (kind, .inl found)) :
    p.cause = .syntactic (.unexpectedToken kind found) := by
  unfold missing at h
  split at h <;> simp_all

end Problem

namespace Source

variable {src : Source} {p : Problem} {r : Reading}

/-- A source that cannot be read for want of a token: either a character that no rule matches is
next, and the problem shows it and nothing else, or the input has ended, and the problem is its
end. -/
theorem missing_token_located (h : src.parse = .error p r) :
    (∀ kind found, p.cause = .lexical kind found →
      r.lexer.lookahead = none ∧ r.lexer.cursor < src.size ∧
      describeFound found ≠ describeFound none ∧
      ∃ before c after, src.text = before ++ c :: after ∧ r.lexer.cursor = byteLength before ∧
        found = some c ∧ p.span = src.piece before [c] ∧ p.span.text = [c]) ∧
    ∀ kind found, p.cause = .syntactic (.unexpectedToken kind found) →
      r.lexer.holds .endOfInput = true ∧ found = .endOfInput ∧
      p.span.source = src ∧ p.span.start = src.size ∧ p.span.stop = src.size := by
  have fits := Parser.locates_document { lexer := Lexer.ofSource src }
    ⟨[], Lexer.follows_ofSource src⟩ trivial
  rw [Source.parse] at h
  rw [h] at fits
  refine ⟨fun kind found cause => ?lexical, fun kind found cause => ?unexpected⟩
  case lexical =>
    obtain ⟨untouched, before, c, after, text, cursor, rfl, span⟩ := fits.lexical kind found cause
    have within : src.text = before ++ ([c] ++ after) := text
    have inside : r.lexer.cursor < src.size := by
      have one : 0 < byteLength [c] := byteLength_pos nofun
      rw [cursor, Source.size, within, byteLength_append, byteLength_append]
      omega
    exact ⟨untouched, inside, describeFound_some_ne c, before, c, after, text, cursor, rfl, span,
      by rw [span, text_piece within]⟩
  case unexpected =>
    obtain ⟨looked, ended, span⟩ := fits.unexpected kind found cause
    refine ⟨looked, ended, ?_⟩
    rw [span]
    exact ⟨rfl, by simp [Source.size], by simp [Source.size]⟩

def problem? (src : Source) : Option Problem :=
  match src.parse with
  | .ok .. => none
  | .error e _ => some e

theorem exists_of_problem? {β : Type} {f : Problem → Option β} {b : β}
    (h : src.problem?.bind f = some b) : ∃ e r, src.parse = .error e r ∧ f e = some b := by
  unfold problem? at h
  cases failed : src.parse with
  | ok => simp [failed] at h
  | error e r => exact ⟨e, r, rfl, by simpa [failed] using h⟩

/-- The parenthesis is missing before a space in the second line, and at the end. -/
theorem missing_token_located_of_parenthesis :
    let blank := Source.ofString "e = 'é'\nprototype(Foo:Bar = 1" none
    let ended := Source.ofString "prototype(Foo:Bar" none
    (∃ p r, blank.parse = .error p r ∧ p.cause = .lexical .closeParen (some ' ') ∧
      r.lexer.cursor < blank.size ∧ p.span.text = [' ']) ∧
    ∃ p r, ended.parse = .error p r ∧
      p.cause = .syntactic (.unexpectedToken .closeParen .endOfInput) ∧
      p.span.start = 17 ∧ p.span.stop = 17 := by
  intro blank ended
  have inBlank : blank.problem?.bind Problem.missing = some (.closeParen, .inr (some ' ')) := by
    decide +kernel
  have inEnded : ended.problem?.bind Problem.missing = some (.closeParen, .inl .endOfInput) := by
    decide +kernel
  constructor
  · obtain ⟨p, r, failed, missing⟩ := exists_of_problem? inBlank
    have cause := Problem.cause_eq_of_missing_inr missing
    obtain ⟨_, inside, _, _, c, _, _, _, found, _, text⟩ :=
      (missing_token_located failed).1 _ _ cause
    cases found
    exact ⟨p, r, failed, cause, inside, text⟩
  · obtain ⟨p, r, failed, missing⟩ := exists_of_problem? inEnded
    have cause := Problem.cause_eq_of_missing_inl missing
    obtain ⟨_, _, _, start, stop⟩ := (missing_token_located failed).2 _ _ cause
    have size : ended.size = 17 := by decide +kernel
    exact ⟨p, r, failed, cause, start.trans size, stop.trans size⟩

end Source

end FusionTree
