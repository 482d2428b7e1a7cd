import FusionTree.Proofs.Parser.Extents
import FusionTree.Proofs.Parser.Gaps

/-!
# How parsing comes to an end

The parser has four loops: the two that skip gaps, the one over the segments of a path and the one
over the statements of a list. They test whether a request has succeeded and not how far they are.
Here each of them is taken apart into its rounds. A round that goes on consumes at least a byte,
so a loop has at most as many of them as there are bytes left; and the list of statements in a block
is read from a position beyond that of the list around it. A lookahead that no round consumes, such
as the end of the input, answers requests again and again, but no loop goes on because of it.
-/

namespace FusionTree

open Text

/-- How many bytes of the source have been consumed. A lookahead begins right behind them. -/
def Reading.position (s : Reading) : Nat :=
  match s.lexer.lookahead with
  | some token => token.span.start
  | none => s.lexer.cursor

variable {src : Source} {before : List Char}

theorem Reading.position_eq {s : Reading} (h : s.lexer.Follows src before) :
    s.position = byteLength before := by
  unfold position
  cases looked : s.lexer.lookahead with
  | some token => simp only [(h.lookahead token looked).span, Source.start_piece]
  | none => simp [h.cursor, Lexer.pending, looked]

/-! ### Loops and their rounds -/

namespace Parser

def takeAny (kinds : List TokenKind) : Parser Bool where
  run s := .ok (s.lexer.takeAny kinds).1 { s with lexer := (s.lexer.takeAny kinds).2 }
  unread_le h := by cases h; exact Lexer.unread_takeAny_le _ _

/-- One round of the loop over the statements of a list. Tells whether there was a statement. -/
def statementRound (inBlock : Bool) (contents : Option (Parser (List Statement))) :
    Parser Bool := do
  if ← endOfStatements inBlock then return false
  let _ ← statement inBlock contents
  return true

end Parser

/-- The loops of the parser. -/
inductive Loop
  | smallGap
  | bigGap
  | path
  | statements (room : Nat) (inBlock : Bool)

namespace Loop

def round : Loop → Parser Bool
  | smallGap => Parser.takeAny [.space, .slashComment, .hashComment, .blockComment]
  | bigGap => Parser.takeAny [.space, .newline, .slashComment, .hashComment, .blockComment]
  | path => Parser.onToken .dot (fun _ => do let _ ← Parser.pathSegment; return true) (return false)
  | statements room inBlock => Parser.statementRound inBlock (Parser.contentsIn room)

theorem dot_ne_endOfInput : TokenKind.dot ≠ .endOfInput := nofun

def whole : Loop → Parser Unit
  | smallGap => Parser.skipSmallGap
  | bigGap => Parser.skipBigGap
  | path => do let _ ← Parser.eachAfter .dot dot_ne_endOfInput Parser.pathSegment
  | statements room inBlock => do let _ ← Parser.statements room inBlock

/-- A run of a loop: so many rounds that go on, and then one that ends the loop or fails. -/
inductive Runs (loop : Loop) : Reading → Nat → Outcome Unit → Prop
  | ends {s s' : Reading} (last : loop.round.run s = .ok false s') : Runs loop s 0 (.ok () s')
  | fails {s s' : Reading} {e : Problem} (last : loop.round.run s = .error e s') :
      Runs loop s 0 (.error e s')
  | goesOn {s s' : Reading} {rounds : Nat} {outcome : Outcome Unit}
      (first : loop.round.run s = .ok true s') (rest : Runs loop s' rounds outcome) :
      Runs loop s (rounds + 1) outcome

end Loop

/-! ### A loop is its rounds -/

namespace Parser

variable {α : Type}

theorem run_skip_eq (kinds : List TokenKind) (noEnd : TokenKind.endOfInput ∉ kinds) (s : Reading) :
    (.ok () { s with lexer := s.lexer.skip kinds noEnd } : Outcome Unit) =
      match (takeAny kinds).run s with
      | .ok true s' => .ok () { s' with lexer := s'.lexer.skip kinds noEnd }
      | .ok false s' => .ok () s'
      | .error e s' => .error e s' := by
  cases taken : (s.lexer.takeAny kinds).1 with
  | true => simp only [takeAny, taken, Lexer.skip_of_true taken]
  | false => simp only [takeAny, taken, Lexer.skip_of_false taken]

theorem run_eachAfter_eq (kind : TokenKind) (ne : kind ≠ .endOfInput) (p : Parser α)
    (s : Reading) :
    (do let _ ← eachAfter kind ne p : Parser Unit).run s =
      match (onToken kind (fun _ => do let _ ← p; return true) (return false)).run s with
      | .ok true s' => (do let _ ← eachAfter kind ne p : Parser Unit).run s'
      | .ok false s' => .ok () s'
      | .error e s' => .error e s' := by
  conv => lhs; rw [eachAfter_eq]
  simp only [onToken, run_bind]
  cases (take kind).run s with
  | error => rfl
  | ok token s₁ =>
    cases token with
    | none => rfl
    | some t =>
      simp only [run_bind]
      cases p.run s₁ with
      | error => rfl
      | ok a s₂ =>
        simp only [run_pure]
        cases (eachAfter kind ne p).run s₂ <;> rfl

theorem run_repeatUntil_eq (done : Parser Bool) (p : Parser α) (progress : p.Progresses)
    (s : Reading) :
    (do let _ ← repeatUntil done p progress : Parser Unit).run s =
      match (do if ← done then return false
                let _ ← p
                return true : Parser Bool).run s with
      | .ok true s' => (do let _ ← repeatUntil done p progress : Parser Unit).run s'
      | .ok false s' => .ok () s'
      | .error e s' => .error e s' := by
  conv => lhs; rw [repeatUntil_eq]
  simp only [run_bind]
  cases done.run s with
  | error => rfl
  | ok ended s₁ =>
    cases ended with
    | true => rfl
    | false =>
      simp only [Bool.false_eq_true, if_false, run_bind]
      cases p.run s₁ with
      | error => rfl
      | ok a s₂ =>
        simp only [run_pure]
        cases (repeatUntil done p progress).run s₂ <;> rfl

end Parser

namespace Loop

/-- A loop does one round and, if that goes on, starts again. -/
theorem run_whole_eq (loop : Loop) (s : Reading) :
    loop.whole.run s =
      match loop.round.run s with
      | .ok true s' => loop.whole.run s'
      | .ok false s' => .ok () s'
      | .error e s' => .error e s' := by
  cases loop with
  | smallGap => exact Parser.run_skip_eq _ _ s
  | bigGap => exact Parser.run_skip_eq _ _ s
  | path => exact Parser.run_eachAfter_eq _ _ _ s
  | statements room inBlock =>
    simp only [whole, round, Parser.statements_eq]
    exact Parser.run_repeatUntil_eq _ _ _ s

/-- If the round does not go on, the loop is over. -/
theorem runs_zero {loop : Loop} {s : Reading} (last : ∀ s', loop.round.run s ≠ .ok true s') :
    loop.Runs s 0 (loop.whole.run s) := by
  rw [run_whole_eq]
  cases ran : loop.round.run s with
  | error e s' => exact .fails ran
  | ok goesOn s' =>
    cases goesOn with
    | true => exact absurd ran (last s')
    | false => exact .ends ran

end Loop

/-! ### Rounds make progress -/

namespace Parser

theorem takes_takeAny {kinds : List TokenKind} (noEnd : TokenKind.endOfInput ∉ kinds) :
    Takes src before (takeAny kinds) fun after goesOn =>
      goesOn = true → byteLength before < byteLength after := by
  intro s goesOn s' follows run
  cases run
  obtain ⟨text, follows, further⟩ := follows.takeAny noEnd
  refine ⟨before ++ text, List.prefix_append _ _, follows, fun taken => ?_⟩
  have := byteLength_pos (further taken)
  rw [byteLength_append]
  omega

end Parser

/-- A round that goes on consumes at least a byte. -/
theorem Loop.takes_round (loop : Loop) :
    Parser.Takes src before loop.round fun after goesOn =>
      goesOn = true → byteLength before < byteLength after := by
  cases loop with
  | smallGap => exact Parser.takes_takeAny (by decide)
  | bigGap => exact Parser.takes_takeAny (by decide)
  | path =>
    refine Parser.takes_onToken (fun dot taken => ?_) (Parser.takes_pure nofun)
    refine Parser.takes_pathSegment.bind fun after _ further _ => Parser.takes_pure fun _ => ?_
    have := byteLength_pos (taken.shape (by decide)).ne_nil
    have := byteLength_le_of_isPrefix further
    rw [byteLength_append] at this
    omega
  | statements room inBlock =>
    refine (Parser.takes_endOfStatements inBlock).bind fun between ended further _ => ?_
    have := byteLength_le_of_isPrefix further
    split
    · exact Parser.takes_pure nofun
    · refine (Parser.takes_statement inBlock (Parser.takesTruthful_contentsIn room)).bind
        fun after s _ extent => Parser.takes_pure fun _ => ?_
      obtain ⟨_, start, nonempty, stop⟩ := extent
      omega

/-- A loop reaches its outcome in at most as many rounds as there are bytes left. -/
theorem Loop.exists_runs (loop : Loop) {s : Reading} (follows : s.lexer.Follows src before) :
    ∃ rounds, loop.Runs s rounds (loop.whole.run s) ∧ byteLength before + rounds ≤ src.size := by
  -- the bytes left get fewer with each round that goes on
  induction left : src.size - byteLength before using Nat.strongRecOn generalizing s before with
  | ind left' ih =>
  subst left
  have inSource : byteLength before ≤ src.size := byteLength_le_of_isPrefix follows.isPrefix
  rw [run_whole_eq]
  cases ran : loop.round.run s with
  | error e s' => exact ⟨0, .fails ran, inSource⟩
  | ok goesOn s' =>
    cases goesOn with
    | false => exact ⟨0, .ends ran, inSource⟩
    | true =>
      obtain ⟨after, _, follows', further⟩ := loop.takes_round s true s' follows ran
      have further := further rfl
      have inSource' : byteLength after ≤ src.size := byteLength_le_of_isPrefix follows'.isPrefix
      obtain ⟨rounds, runs, le⟩ := ih _ (by omega) follows' rfl
      exact ⟨rounds + 1, .goesOn ran runs, by omega⟩

/-! ### Rounds with a cached lookahead -/

section Cached

variable {t : Token}

theorem Lexer.take_of_lookahead {lx : Lexer} (looked : lx.lookahead = some t) {kind : TokenKind}
    (other : t.kind ≠ kind) : lx.take kind = (none, lx) := by
  simp [take, tryMatch_of_lookahead looked kind, holds, looked, other]

theorem Lexer.takeAny_of_lookahead {lx : Lexer} (looked : lx.lookahead = some t)
    {kinds : List TokenKind} (other : t.kind ∉ kinds) : lx.takeAny kinds = (false, lx) := by
  induction kinds with
  | nil => rfl
  | cons kind kinds ih =>
    obtain ⟨ne, other⟩ := not_or.mp (mt List.mem_cons.mpr other)
    have nothing := take_of_lookahead looked ne
    rw [takeAny_of_none (by rw [nothing]), nothing]
    exact ih other

namespace Parser

theorem run_accept_of_lookahead {s : Reading} (looked : s.lexer.lookahead = some t)
    (kind : TokenKind) : (accept kind).run s = .ok (decide (t.kind = kind)) s := by
  simp [accept, Lexer.tryMatch_of_lookahead looked, Lexer.holds, looked]

theorem run_takeAny_of_lookahead {s : Reading} (looked : s.lexer.lookahead = some t)
    {kinds : List TokenKind} (other : t.kind ∉ kinds) : (takeAny kinds).run s = .ok false s := by
  simp only [takeAny, Lexer.takeAny_of_lookahead looked other]

theorem run_acceptAny_of_lookahead {s : Reading} (looked : s.lexer.lookahead = some t)
    {kinds : List TokenKind} (other : t.kind ∉ kinds) : (acceptAny kinds).run s = .ok false s := by
  induction kinds with
  | nil => rfl
  | cons kind kinds ih =>
    obtain ⟨ne, other⟩ := not_or.mp (mt List.mem_cons.mpr other)
    simp [acceptAny, run_accept_of_lookahead looked, ne, ih other]

theorem run_endOfStatements_of_lookahead {s : Reading} (looked : s.lexer.lookahead = some t)
    (other : t.kind ∉ [TokenKind.space, .newline, .slashComment, .hashComment, .blockComment])
    (inBlock : Bool) : ∃ ended, (endOfStatements inBlock).run s = .ok ended s := by
  have taken := Lexer.takeAny_of_lookahead looked other
  have noGap : s.lexer.skipBigGap = s.lexer := by
    rw [Lexer.skipBigGap, Lexer.skip_of_false (by rw [taken]), taken]
  have skipped : skipBigGap.run s = .ok () s := by simp only [skipBigGap, noGap]
  simp only [endOfStatements, run_bind, skipped, run_accept_of_lookahead looked]
  by_cases ended : t.kind = .endOfInput
  · exact ⟨true, by simp [ended]⟩
  · cases inBlock with
    | false => exact ⟨false, by simp [ended]⟩
    | true => exact ⟨decide (t.kind = .closeBrace), by simp [ended, run_accept_of_lookahead looked]⟩

theorem run_statement_of_lookahead {s : Reading} (looked : s.lexer.lookahead = some t)
    (noInclusion : t.kind ≠ .inclusion) (noStart : t.kind ∉ pathStarts) (inBlock : Bool)
    (contents : Option (Parser (List Statement))) :
    ∃ e s', (statement inBlock contents).run s = .error e s' := by
  simp only [statement, run_bind, run_accept_of_lookahead looked, noInclusion, decide_false,
    Bool.false_eq_true, if_false, run_acceptAny_of_lookahead looked noStart]
  exact ⟨_, _, rfl⟩

end Parser

def Loop.wanted : List TokenKind :=
  [.space, .newline, .slashComment, .hashComment, .blockComment, .dot, .inclusion] ++
    Parser.pathStarts

/-- No loop goes on because of a lookahead of another kind. -/
theorem Loop.round_ne_true (loop : Loop) {s : Reading} (looked : s.lexer.lookahead = some t)
    (unwanted : t.kind ∉ wanted) (s' : Reading) : loop.round.run s ≠ .ok true s' := by
  have other {kinds : List TokenKind} (wants : kinds ⊆ wanted) : t.kind ∉ kinds :=
    fun mem => unwanted (wants mem)
  cases loop with
  | smallGap =>
    have ends : smallGap.round.run s = .ok false s :=
      Parser.run_takeAny_of_lookahead looked (other (by decide))
    simp [ends]
  | bigGap =>
    have ends : bigGap.round.run s = .ok false s :=
      Parser.run_takeAny_of_lookahead looked (other (by decide))
    simp [ends]
  | path =>
    have noDot : t.kind ≠ .dot := fun dot => unwanted (by rw [dot]; decide)
    simp [round, Parser.onToken, Parser.take, Lexer.take_of_lookahead looked noDot]
  | statements room inBlock =>
    obtain ⟨ended, ends⟩ :=
      Parser.run_endOfStatements_of_lookahead looked (other (by decide)) inBlock
    have noInclusion : t.kind ≠ .inclusion := fun keyword => unwanted (by rw [keyword]; decide)
    obtain ⟨e, s₁, fails⟩ := Parser.run_statement_of_lookahead looked noInclusion
      (other (by decide)) inBlock (Parser.contentsIn room)
    simp only [round, Parser.statementRound, Parser.run_bind, ends]
    cases ended with
    | true => simp
    | false => simp [fails]

end Cached

/-! ### Lists within lists -/

namespace Parser

variable {α β γ : Type} {bound : Nat} {f : Parser α → Parser β} {s : Reading}

/-- From the reading on, either the parser does not make use of the one that it is made with; or it
does so once, at a reading beyond the bound, and goes on with what comes of that. -/
def Nests (src : Source) (bound : Nat) (f : Parser α → Parser β) (s : Reading) : Prop :=
  (∀ p q, (f p).run s = (f q).run s) ∨
  ∃ (inner : Reading) (next : α → Parser β), inner.Follows src ∧ bound < inner.position ∧
    ∀ p, (f p).run s = (p >>= next).run inner

theorem nests_const (g : Parser β) : Nests src bound (fun _ : Parser α => g) s :=
  .inl fun _ _ => rfl

theorem nests_here (follows : s.lexer.Follows src before) (further : bound < byteLength before)
    (next : α → Parser β) : Nests src bound (fun p => p >>= next) s :=
  .inr ⟨s, next, ⟨before, follows⟩, by rwa [Reading.position_eq follows], fun _ => rfl⟩

theorem Nests.bind (h : Nests src bound f s) (g : β → Parser γ) :
    Nests src bound (fun p => f p >>= g) s := by
  rcases h with same | ⟨inner, next, follows, further, runs⟩
  · exact .inl fun p q => by rw [run_bind, run_bind, same p q]
  · refine .inr ⟨inner, fun a => next a >>= g, follows, further, fun p => ?_⟩
    simp only [run_bind, runs p]
    cases p.run inner <;> rfl

/-- What is read before may be read first. -/
theorem Takes.nests {g : Parser γ} {P : List Char → γ → Prop} {k : Parser α → γ → Parser β}
    (h : Takes src before g P) (follows : s.lexer.Follows src before)
    (hk : ∀ {after c s'}, before <+: after → s'.lexer.Follows src after → P after c →
      Nests src bound (fun p => k p c) s') :
    Nests src bound (fun p => g >>= k p) s := by
  cases ran : g.run s with
  | error e s' => exact .inl fun p q => by simp only [run_bind, ran]
  | ok c s' =>
    obtain ⟨after, further, follows', hc⟩ := h s c s' follows ran
    have same (p : Parser α) : (g >>= k p).run s = (k p c).run s' := by simp only [run_bind, ran]
    simpa only [Nests, same] using hk further follows' hc

theorem nests_block (follows : s.lexer.Follows src before) (le : bound ≤ byteLength before) :
    Nests src bound (fun p => block (some p)) s := by
  refine (takes_expect .openBrace).nests follows fun further follows' ⟨same, taken⟩ => ?_
  subst same
  refine nests_here follows' ?_ _
  have := byteLength_pos (taken.shape (by decide)).ne_nil
  rw [byteLength_append]
  omega

theorem nests_object (inBlock : Bool) (follows : s.lexer.Follows src before)
    (le : bound ≤ byteLength before) : Nests src bound (fun p => object inBlock (some p)) s := by
  refine takes_objectPath.nests follows fun further₁ follows _ => ?_
  refine takes_skipSmallGap.nests follows fun further₂ follows _ => ?_
  refine takes_getLexer.nests follows fun further₃ follows _ => ?_
  refine takes_operation?.nests follows fun further₄ follows _ => ?_
  refine takes_skipSmallGap.nests follows fun further₅ follows _ => ?_
  refine (takes_accept _).nests follows fun {_ opens _} further₆ follows _ => ?_
  cases opens with
  | true =>
    have further := further₁.trans <| further₂.trans <| further₃.trans <| further₄.trans <|
      further₅.trans further₆
    exact (nests_block follows (Nat.le_trans le (byteLength_le_of_isPrefix further))).bind _
  | false => exact nests_const _

theorem nests_statement (inBlock : Bool) (follows : s.lexer.Follows src before)
    (le : bound ≤ byteLength before) :
    Nests src bound (fun p => statement inBlock (some p)) s := by
  refine (takes_accept _).nests follows fun {_ isInclude _} further₁ follows _ => ?_
  cases isInclude with
  | true => exact nests_const _
  | false =>
    refine (takes_acceptAny _).nests follows fun {_ isObject _} further₂ follows _ => ?_
    cases isObject with
    | true =>
      have further := further₁.trans further₂
      exact nests_object inBlock follows (Nat.le_trans le (byteLength_le_of_isPrefix further))
    | false => exact nests_const _

theorem nests_statementRound (inBlock : Bool) (follows : s.lexer.Follows src before) :
    Nests src (byteLength before) (fun p => statementRound inBlock (some p)) s := by
  refine (takes_endOfStatements inBlock).nests follows fun {_ ended _} further follows _ => ?_
  cases ended with
  | true => exact nests_const _
  | false => exact (nests_statement inBlock follows (byteLength_le_of_isPrefix further)).bind _

end Parser

/-! ### The end -/

def Outcome.withoutValue {α : Type} : Outcome α → Outcome Unit
  | .ok _ s => .ok () s
  | .error e s => .error e s

/-- From the reading on the loop reaches its outcome in a number of rounds, which is at most the
number of bytes left; a round that goes on consumes a byte or more; and if the end of the input or a
closing brace is the lookahead, the first round ends the loop or fails. -/
structure Loop.Ends (loop : Loop) (src : Source) (s : Reading) : Prop where
  runs : ∃ rounds, loop.Runs s rounds (loop.whole.run s) ∧ s.position + rounds ≤ src.size
  progress : ∀ s', loop.round.run s = .ok true s' → s'.Follows src ∧ s.position < s'.position
  cached : ∀ t, s.lexer.lookahead = some t → t.kind = .endOfInput ∨ t.kind = .closeBrace →
    loop.Runs s 0 (loop.whole.run s)

theorem Loop.ends (loop : Loop) {s : Reading} (h : s.Follows src) : loop.Ends src s where
  runs := by
    obtain ⟨before, follows⟩ := h
    rw [Reading.position_eq follows]
    exact loop.exists_runs follows
  progress s' ran := by
    obtain ⟨before, follows⟩ := h
    obtain ⟨after, _, follows', further⟩ := loop.takes_round s true s' follows ran
    rw [Reading.position_eq follows, Reading.position_eq follows']
    exact ⟨⟨after, follows'⟩, further rfl⟩
  cached t looked final := by
    refine runs_zero (loop.round_ne_true looked ?_)
    rcases final with final | final <;> rw [final] <;> decide

/-- Parsing comes to an end, on every source. The loop over the statements of the source ends in at
most as many rounds as the source has bytes, and its outcome is that of the whole; from whatever
reading of the source a loop starts, it ends; and the statements of a block are read from a position
beyond the one at which the round of the list around it has begun, by a loop that starts there. -/
theorem Source.parse_ends (src : Source) :
    ({ lexer := Lexer.ofSource src } : Reading).Follows src ∧
    (∃ rounds ≤ src.size, (Loop.statements maxNesting false).Runs
      { lexer := Lexer.ofSource src } rounds src.parse.withoutValue) ∧
    ∀ s : Reading, s.Follows src → (∀ loop : Loop, loop.Ends src s) ∧
      ∀ inBlock, Parser.Nests src s.position
        (fun list => Parser.statementRound inBlock (some list)) s := by
  have start := Lexer.follows_ofSource src
  refine ⟨⟨[], start⟩, ?_, fun s h => ⟨fun loop => loop.ends h, fun inBlock => ?_⟩⟩
  · obtain ⟨rounds, runs, le⟩ := (Loop.statements maxNesting false).exists_runs
      (s := { lexer := Lexer.ofSource src }) start
    refine ⟨rounds, by simpa using le, ?_⟩
    have same : src.parse.withoutValue =
        (Loop.statements maxNesting false).whole.run { lexer := Lexer.ofSource src } := by
      simp only [Source.parse, Parser.document, Loop.whole, Parser.run_bind]
      cases (Parser.statements maxNesting false).run { lexer := Lexer.ofSource src } <;> rfl
    rwa [same]
  · obtain ⟨before, follows⟩ := h
    rw [Reading.position_eq follows]
    exact Parser.nests_statementRound inBlock follows

/-- A block within the first statement: its list is read from a position beyond the start. -/
theorem Source.parse_ends_of_block :
    let src := Source.ofString "a \x7b b = 1 \x7d" none
    let start : Reading := { lexer := Lexer.ofSource src }
    start.Follows src ∧ (Loop.statements maxNesting false).Ends src start ∧
      ∃ (inner : Reading) (next : List Statement → Parser Bool),
        inner.Follows src ∧ 0 < inner.position ∧ ∀ list,
          (Parser.statementRound false (some list)).run start = (list >>= next).run inner := by
  intro src start
  obtain ⟨follows, _, from_⟩ := Source.parse_ends src
  obtain ⟨ends, nests⟩ := from_ start follows
  refine ⟨follows, ends _, ?_⟩
  -- what comes of the round depends on how the list in the block is read
  let succeeds (list : Parser (List Statement)) : Bool :=
    match (Parser.statementRound false (some list)).run start with
    | .ok .. => true
    | .error .. => false
  have reads : succeeds (Parser.statements 0 true) = true := by decide +kernel
  have fails : succeeds (Parser.failHere .expectedStatement) = false := by decide +kernel
  rcases nests false with same | ⟨inner, next, follows', further, runs⟩
  · simp only [succeeds, same (Parser.statements 0 true) (Parser.failHere .expectedStatement)]
      at reads
    exact absurd (reads.symm.trans fails) nofun
  · exact ⟨inner, next, follows', further, runs⟩

end FusionTree
