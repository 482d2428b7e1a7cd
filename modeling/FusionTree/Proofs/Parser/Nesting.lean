import FusionTree.Proofs.Parser.Blocks
import FusionTree.Proofs.Parser.Extents

/-!
# How deep blocks nest

A reading is `Inside` some open blocks if it is reached by reading statements and by opening blocks.
The room that the parser has for blocks is what these leave of `maxNesting`; so a source is refused
for its nesting if and only if a block opens inside as many open ones as there may be. Whether one
does is settled by the text up to its brace.
-/

namespace FusionTree

open Statement Text

namespace Parser

variable {src : Source} {before : List Char} {u v : List Char} {s s' : Reading}

/-! ### Where a block opens -/

theorem run_opening_eq_some_iff {o : Opening} :
    opening.run s = .ok (some o) s' ↔
      ∃ s₁, beforeBrace.run s = .ok (some (o.path, o.operation)) s₁ ∧
        (s₁.lexer.take .openBrace).1 = some o.brace ∧
        { s₁ with lexer := (s₁.lexer.take .openBrace).2 } = s' := by
  simp only [opening, run_bind]
  cases beforeBrace.run s with
  | error => simp
  | ok head s₁ =>
    cases head with
    | none => simp
    | some head =>
      obtain ⟨path, operation⟩ := head
      simp only [onToken, run_bind, take]
      cases taken : (s₁.lexer.take .openBrace).1 with
      | none => simp [taken]
      | some t =>
        constructor
        · rintro ⟨⟩
          exact ⟨s₁, rfl, taken, rfl⟩
        · rintro ⟨_, ⟨⟩, taken', rfl⟩
          obtain rfl : t = o.brace := Option.some.inj (taken.symm.trans taken')
          rfl

theorem takes_beforeBrace : Takes src before beforeBrace fun _ _ => True := by
  refine (takes_accept _).bind fun _ isInclude _ _ => ?_
  split
  · exact takes_pure trivial
  refine (takes_acceptAny _).bind fun _ isObject _ _ => ?_
  split
  · refine takes_objectPath.bind fun _ _ _ _ => takes_skipSmallGap.bind fun _ _ _ _ => ?_
    refine takes_operation?.bind fun _ _ _ _ => takes_skipSmallGap.bind fun _ _ _ _ => ?_
    exact takes_pure trivial
  · exact takes_pure trivial

/-- The brace of a block is the last character that has been consumed. -/
theorem takes_opening : Takes src before opening fun after o? =>
    ∀ o, o? = some o → ∃ m, after = m ++ ['\x7b'] ∧ o.brace.span = src.piece m ['\x7b'] := by
  refine takes_beforeBrace.bind fun m head _ _ => ?_
  split
  · exact takes_pure fun _ none => nomatch none
  · refine takes_onToken (fun brace taken => takes_pure ?_) (takes_pure fun _ none => nomatch none)
    have lexeme : brace.lexeme = ['\x7b'] := taken.shape (by decide)
    rintro _ ⟨⟩
    exact ⟨m, by rw [lexeme], by rw [← lexeme]; exact taken.span⟩

theorem keepStep_beforeBrace : KeepStep u v Option.isSome beforeBrace beforeBrace := by
  refine (inStep_accept _ (by decide) (by decide)).bind fun isInclude isInclude' same => ?_
  obtain rfl : isInclude = isInclude' := same
  split
  · exact inStep_pure rfl
  refine (inStep_acceptAny (by decide) (by decide)).bind fun isObject isObject' same => ?_
  obtain rfl : isObject = isObject' := same
  split
  · refine keepStep_objectPath.bind fun _ _ _ => keepStep_skipSmallGap.bind fun _ _ _ => ?_
    exact keepStep_operation?.bind fun _ _ _ => keepStep_skipSmallGap.bind fun _ _ _ =>
      inStep_pure rfl
  · exact inStep_pure rfl

theorem keepStep_opening : KeepStep u v Option.isSome opening opening := by
  refine keepStep_beforeBrace.bind fun head head' same => ?_
  obtain ⟨rfl, rfl⟩ | ⟨head, head', rfl, rfl⟩ := none_or_some_of_isSome_eq same
  · exact inStep_pure rfl
  · exact inStep_onToken (by decide) (fun _ _ => inStep_pure rfl) (inStep_pure rfl)

theorem keepStep_contentsIn (room : Nat) : ContentsKeepStep u v (contentsIn room) := by
  intro p hp
  cases room with
  | zero => cases hp
  | succ room =>
    cases hp
    exact keepStep_statements room true

theorem locates_noContents {deep : Prop} : ContentsLocate src deep noContents := by
  refine ⟨fun none => ?_, fun p hp => ?_⟩
  · cases none
  · cases hp
    exact locates_failHere rfl

theorem run_statements_eq_error_iff {room : Nat} {inBlock : Bool} {e : Problem} {r : Reading} :
    (statements room inBlock).run s = .error e r ↔
      (endOfStatements inBlock).run s = .error e r ∨
      ∃ s₁, (endOfStatements inBlock).run s = .ok false s₁ ∧
        ((statement inBlock (contentsIn room)).run s₁ = .error e r ∨
          ∃ st s₂, (statement inBlock (contentsIn room)).run s₁ = .ok st s₂ ∧
            (statements room inBlock).run s₂ = .error e r) := by
  conv => lhs; rw [statements_eq, repeatUntil_eq]
  simp only [run_bind]
  cases (endOfStatements inBlock).run s with
  | error => simp
  | ok ended s₁ =>
    cases ended with
    | true => simp
    | false =>
      simp only [Bool.false_eq_true, if_false, run_bind, ← statements_eq]
      cases first : (statement inBlock (contentsIn room)).run s₁ with
      | error => simp [first]
      | ok st s₂ => cases rest : (statements room inBlock).run s₂ <;> simp [first, rest]

end Parser

def Problem.tooDeepAt (p : Problem) : Option Nat :=
  match p.cause with
  | .syntactic (.nestingTooDeep _) => some p.span.start
  | _ => none

theorem Problem.exists_of_tooDeepAt {p : Problem} {n : Nat} (h : p.tooDeepAt = some n) :
    ∃ max, p.cause = .syntactic (.nestingTooDeep max) ∧ p.span.start = n := by
  unfold tooDeepAt at h
  split at h
  · rename_i max cause
    exact ⟨max, cause, Option.some.inj h⟩
  · cases h

open FusionTree.Parser

/-- The reading stands in a list of statements inside so many open blocks. What has been read there
before are statements whose blocks, with those around them, have not been too many. -/
inductive Source.Inside (src : Source) : Nat → Reading → Prop
  | start : src.Inside 0 { lexer := Lexer.ofSource src }
  | statement {n room : Nat} {s s₁ s' : Reading} {st : Statement} (inside : src.Inside n s)
      (more : (endOfStatements (0 < n)).run s = .ok false s₁)
      (read : (Parser.statement (0 < n) (contentsIn room)).run s₁ = .ok st s')
      (fits : n + st.depth ≤ maxNesting) : src.Inside n s'
  | block {n : Nat} {s s₁ s' : Reading} {o : Opening} (inside : src.Inside n s)
      (more : (endOfStatements (0 < n)).run s = .ok false s₁)
      (opens : opening.run s₁ = .ok (some o) s') : src.Inside (n + 1) s'

/-- Inside so many open blocks the next statement opens a block, with the brace. -/
def Source.OpensBlock (src : Source) (n : Nat) (brace : Span) : Prop :=
  ∃ s s₁ s' o, src.Inside n s ∧ (endOfStatements (0 < n)).run s = .ok false s₁ ∧
    opening.run s₁ = .ok (some o) s' ∧ o.brace.span = brace

namespace Source

variable {src other : Source} {n : Nat} {s : Reading} {e : Problem} {r : Reading}
variable {before u v : List Char} {brace : Span}

theorem Inside.follows (h : src.Inside n s) : s.Follows src := by
  induction h with
  | start => exact ⟨[], Lexer.follows_ofSource src⟩
  | @statement n room s s₁ s' st inside more read fits ih =>
    exact follows_of_takes (fun _ => takes_statement _ (takesTruthful_contentsIn room))
      (follows_of_takes (fun _ => takes_endOfStatements _) ih more) read
  | block inside more opens ih =>
    exact follows_of_takes (fun _ => takes_opening)
      (follows_of_takes (fun _ => takes_endOfStatements _) ih more) opens

theorem Inside.follows_more {s₁ : Reading} (h : src.Inside n s)
    (more : (endOfStatements (0 < n)).run s = .ok false s₁) : s₁.Follows src :=
  follows_of_takes (fun _ => takes_endOfStatements _) h.follows more

/-! ### The room that is left -/

/-- A list of statements that fails inside some open blocks makes the source fail. -/
theorem Inside.parse_error (h : src.Inside n s) (le : n ≤ maxNesting)
    (failed : (statements (maxNesting - n) (0 < n)).run s = .error e r) :
    src.parse = .error e r := by
  induction h with
  | start => simp_all [Source.parse, document]
  | @statement n room s s₁ s' st inside more read fits ih =>
    have read' := run_statement_of_depth_le (maxNesting - n) read (by omega)
    exact ih le (run_statements_eq_error_iff.mpr (.inr ⟨s₁, more, .inr ⟨st, s', read', failed⟩⟩))
  | @block n s s₁ s' o inside more opens ih =>
    refine ih (by omega) (run_statements_eq_error_iff.mpr (.inr ⟨s₁, more, .inl ?_⟩))
    obtain ⟨k, room⟩ : ∃ k, maxNesting - n = k + 1 := ⟨maxNesting - (n + 1), by omega⟩
    have left : maxNesting - (n + 1) = k := by omega
    have failed : (statements k true).run s' = .error e r := by simpa [left] using failed
    rw [room, run_statement_eq, opens]
    simp [contentsIn, goOn, failed]

/-- A block that opens inside as many open ones as there may be is refused. -/
theorem OpensBlock.parse_error (h : src.OpensBlock maxNesting brace) :
    ∃ r, src.parse = .error ⟨.syntactic (.nestingTooDeep maxNesting), brace⟩ r := by
  obtain ⟨s, s₁, s', o, inside, more, opens, rfl⟩ := h
  have refused (inBlock : Bool) : (statement inBlock (contentsIn 0)).run s₁ =
      (goOn none o).run s' := by
    rw [run_statement_eq, opens]
    rfl
  exact ⟨_, inside.parse_error (Nat.le_refl _) <| run_statements_eq_error_iff.mpr <|
    .inr ⟨s₁, more, .inl (by rw [Nat.sub_self]; exact refused _)⟩⟩

/-- If the problem is one of nesting, a block opens inside as many open ones as there may be. -/
def TooDeepOnly (src : Source) (e : Problem) : Prop :=
  ∀ max, e.cause = .syntactic (.nestingTooDeep max) → max = maxNesting ∧
    src.OpensBlock maxNesting e.span

theorem tooDeepOnly_of_locates {α : Type} {p : Parser α} (h : LocatesAlways src False p)
    (follows : s.Follows src) (failed : p.run s = .error e r) : src.TooDeepOnly e := by
  intro max deep
  have fits := h s follows trivial
  rw [failed] at fits
  exact (fits.tooDeep max deep).elim

/-- A statement inside some open blocks, if the lists in its block are as they should be. -/
theorem Inside.tooDeepOnly_statement {room : Nat} {s₁ : Reading} (h : src.Inside n s)
    (sum : n + room = maxNesting) (more : (endOfStatements (0 < n)).run s = .ok false s₁)
    (lists : ∀ k s' e r, room = k + 1 → src.Inside (n + 1) s' →
      (statements k true).run s' = .error e r → src.TooDeepOnly e)
    (failed : (Parser.statement (0 < n) (contentsIn room)).run s₁ = .error e r) :
    src.TooDeepOnly e := by
  have flat : LocatesAlways src False (Parser.statement (0 < n) noContents) :=
    locates_statement _ locates_noContents
  rw [run_statement_eq] at failed
  split at failed
  · rename_i o s' opens
    cases room with
    | zero =>
      cases failed
      rintro max ⟨⟩
      obtain rfl : n = maxNesting := sum
      exact ⟨rfl, s, s₁, s', o, h, more, opens, rfl⟩
    | succ k =>
      simp only [contentsIn, goOn, run_bind] at failed
      cases inner : (statements k true).run s' with
      | error e' r' =>
        rw [inner] at failed
        cases failed
        exact lists k s' e r rfl (.block h more opens) inner
      | ok ss s₂ =>
        rw [inner] at failed
        have follows₂ : s₂.Follows src :=
          follows_of_takes (fun _ => takes_statements k true)
            (Inside.block h more opens).follows inner
        exact tooDeepOnly_of_locates (locates_value_of_token _ (locates_fail _ rfl)) follows₂ failed
  · exact tooDeepOnly_of_locates flat (h.follows_more more) failed

/-- A list inside some open blocks, if the lists in its blocks are as they should be. -/
theorem Inside.tooDeepOnly_list {room : Nat} (h : src.Inside n s) (sum : n + room = maxNesting)
    (lists : ∀ k s' e r, room = k + 1 → src.Inside (n + 1) s' →
      (statements k true).run s' = .error e r → src.TooDeepOnly e)
    (failed : (statements room (0 < n)).run s = .error e r) : src.TooDeepOnly e := by
  -- what is left to read gets less with each statement
  induction size : s.unread using Nat.strongRecOn generalizing s with
  | ind left ih =>
  rcases run_statements_eq_error_iff.mp failed with
    failed | ⟨s₁, more, failed | ⟨st, s₂, read, failed⟩⟩
  · exact tooDeepOnly_of_locates (locates_endOfStatements _) h.follows failed
  · exact h.tooDeepOnly_statement sum more lists failed
  · have less : s₂.unread < left :=
      Nat.lt_of_lt_of_le (progresses_statement _ _ _ _ _ read)
        (size ▸ (endOfStatements (0 < n)).unread_le more)
    have fits : st.depth ≤ room := ensures_depth_contentsIn room _ _ _ read
    exact ih _ less (.statement h more read (by omega)) failed rfl

theorem Inside.tooDeepOnly {room : Nat} (h : src.Inside n s) (sum : n + room = maxNesting)
    (failed : (statements room (0 < n)).run s = .error e r) : src.TooDeepOnly e := by
  induction room generalizing n s e r with
  | zero => exact h.tooDeepOnly_list sum (fun _ _ _ _ none => nomatch none) failed
  | succ room ih =>
    refine h.tooDeepOnly_list sum ?_ failed
    rintro _ s' e r ⟨⟩ inside failed
    exact ih inside (by omega) (by simpa using failed)

/-! ### Another text with the same beginning -/

variable (left : src.text = before ++ '\x7b' :: u) (right : other.text = before ++ '\x7b' :: v)

/-- A reading that is lost, or abreast with one inside as many blocks, where a statement has to
follow. -/
theorem goes_on_behind_more {α γ : Type} {p : Parser α} {e : α → γ} {a : α} {s₁ s' : Reading}
    (step : KeepStep u v e p p)
    (before : s.lexer.Lost u [.filePattern] ∨ ∃ t, other.Inside n t ∧ s.lexer.Abreast u v t.lexer)
    (more : (endOfStatements (0 < n)).run s = .ok false s₁) (ran : p.run s₁ = .ok a s') :
    s'.lexer.Lost u [.filePattern] ∨
      ∃ t t₁ b t', other.Inside n t ∧ (endOfStatements (0 < n)).run t = .ok false t₁ ∧
        p.run t₁ = .ok b t' ∧ e a = e b ∧ s'.lexer.Abreast u v t'.lexer := by
  have between : s₁.lexer.Lost u [.filePattern] ∨
      ∃ t₁, (∃ t, other.Inside n t ∧ (endOfStatements (0 < n)).run t = .ok false t₁) ∧
        s₁.lexer.Abreast u v t₁.lexer := by
    refine ((keepStep_endOfStatements _).goes_on before more).imp_right ?_
    rintro ⟨t, ended, t₁, inside, more', same, abreast⟩
    obtain rfl : false = ended := same
    exact ⟨t₁, ⟨t, inside, more'⟩, abreast⟩
  refine (step.goes_on between ran).imp_right ?_
  rintro ⟨t₁, b, t', ⟨t, inside, more'⟩, ran', same, abreast⟩
  exact ⟨t, t₁, b, t', inside, more', ran', same, abreast⟩

include left right in
theorem Inside.abreast (h : src.Inside n s) : s.lexer.Lost u [.filePattern] ∨
    ∃ t, other.Inside n t ∧ s.lexer.Abreast u v t.lexer := by
  induction h with
  | start => exact .inr ⟨_, .start, .before left right rfl⟩
  | @statement n room s s₁ s' st inside more read fits ih =>
    have read' := run_statement_of_depth_le (maxNesting - n) read (by omega)
    have step : KeepStep u v noValue (Parser.statement (0 < n) (contentsIn (maxNesting - n))) _ :=
      keepStep_statement _ (keepStep_contentsIn _)
    refine (goes_on_behind_more step ih more read').imp_right ?_
    rintro ⟨t, t₁, st', t', inside', more', read'', _, abreast⟩
    have depth := ensures_depth_contentsIn _ _ _ _ read''
    exact ⟨t', .statement inside' more' read'' (by omega), abreast⟩
  | @block n s s₁ s' o inside more opens ih =>
    refine (goes_on_behind_more keepStep_opening ih more opens).imp_right ?_
    rintro ⟨t, t₁, o?, t', inside', more', opens', same, abreast⟩
    obtain ⟨o', rfl⟩ := Option.isSome_iff_exists.mp same.symm
    exact ⟨t', .block inside' more' opens', abreast⟩

/-- The brace of a block stands between what has been consumed before it and what is left behind. -/
theorem exists_of_opening {s' : Reading} {o : Opening} (follows : s.Follows src)
    (opens : opening.run s = .ok (some o) s') :
    ∃ m, src.text = m ++ '\x7b' :: s'.lexer.rest ∧ o.brace.span = src.piece m ['\x7b'] := by
  obtain ⟨before, follows⟩ := follows
  obtain ⟨after, _, follows', found⟩ := takes_opening _ _ _ follows opens
  obtain ⟨m, rfl, span⟩ := found o rfl
  obtain ⟨s₁, _, taken, rfl⟩ := run_opening_eq_some_iff.mp opens
  have untouched : (s₁.lexer.take .openBrace).2.lookahead = none :=
    Lexer.lookahead_of_take (by simp [taken])
  refine ⟨m, ?_, span⟩
  simpa [Lexer.pending, untouched] using follows'.text

/-- A reading that comes to a brace with the text behind it left is not lost before. -/
theorem not_lost_of_take {lx : Lexer} {but : List TokenKind} (notBut : .openBrace ∉ but)
    {t : Token} (taken : (lx.take .openBrace).1 = some t) (rest : (lx.take .openBrace).2.rest = u) :
    ¬lx.Lost u but := by
  rintro (past | stuck)
  · have less : (lx.take .openBrace).2.unread < lx.unread :=
      Lexer.unread_take_lt lx nofun (by simp [taken])
    have least : 2 * u.length ≤ (lx.take .openBrace).2.unread := by
      rw [← rest, Lexer.unread]
      omega
    omega
  · rw [stuck.take notBut] at taken
    cases taken

/-- A text that begins with the one up to the brace of a block opens the block there, too, inside as
many others. -/
theorem OpensBlock.exists_brace (h : src.OpensBlock n brace) :
    ∃ before after, src.text = before ++ '\x7b' :: after ∧ brace = src.piece before ['\x7b'] ∧
      ∀ other : Source, before ++ ['\x7b'] <+: other.text →
        other.OpensBlock n (other.piece before ['\x7b']) := by
  obtain ⟨s, s₁, s', o, inside, more, opens, rfl⟩ := h
  obtain ⟨m, left, span⟩ := exists_of_opening (inside.follows_more more) opens
  refine ⟨m, s'.lexer.rest, left, span, fun other ⟨v, right⟩ => ?_⟩
  have right : other.text = m ++ '\x7b' :: v := by rw [← right, List.append_assoc]; rfl
  obtain ⟨s₂, head, taken, rfl⟩ := run_opening_eq_some_iff.mp opens
  have notLost : ¬s₂.lexer.Lost _ [.filePattern] := not_lost_of_take (by decide) taken rfl
  have behind := goes_on_behind_more keepStep_beforeBrace (inside.abreast left right) more head
  obtain ⟨t, t₁, head?, t₂, inside', more', head', same, abreast₂⟩ := behind.resolve_left notLost
  obtain ⟨⟨path, operation⟩, rfl⟩ := Option.isSome_iff_exists.mp same.symm
  obtain ⟨brace, taken', rest⟩ := abreast₂.take_openBrace taken rfl
  have opens' := run_opening_eq_some_iff (o := ⟨path, operation, brace⟩).mpr
    ⟨t₂, head', taken', rfl⟩
  obtain ⟨m', right', span'⟩ := exists_of_opening (inside'.follows_more more') opens'
  have same : m' = m := by
    have behind : m' ++ '\x7b' :: v = m ++ '\x7b' :: v := by rw [← right, right', rest]
    exact List.append_cancel_right behind
  exact ⟨t, t₁, _, _, inside', more', opens', by rw [span', same]⟩

/-- Blocks nest as deep as there is room for and no deeper. In a source that can be read they do.
Where a block opens inside as many open ones as there may be, the source is refused, and the problem
is its brace; and so is every source with the same text up to the brace, at the same place, whatever
comes behind. No source is refused for its nesting otherwise. -/
theorem nesting_bounded (src : Source) :
    (∀ document r, src.parse = .ok document r → depthAll document.statements ≤ maxNesting) ∧
    (∀ brace, src.OpensBlock maxNesting brace →
      (∃ r, src.parse = .error ⟨.syntactic (.nestingTooDeep maxNesting), brace⟩ r) ∧
      ∃ before after, src.text = before ++ '\x7b' :: after ∧ brace = src.piece before ['\x7b'] ∧
        ∀ other : Source, before ++ ['\x7b'] <+: other.text →
          ∃ r, other.parse = .error
            ⟨.syntactic (.nestingTooDeep maxNesting), other.piece before ['\x7b']⟩ r) ∧
    ∀ max brace r, src.parse = .error ⟨.syntactic (.nestingTooDeep max), brace⟩ r →
      max = maxNesting ∧ src.OpensBlock maxNesting brace := by
  refine ⟨fun document r parsed => ?_, fun brace opens => ?_, fun max brace r failed => ?_⟩
  · have deep : Parser.document.Ensures (depthAll ·.statements ≤ maxNesting) :=
      (ensures_depth_statements _ _).bind fun ss fits =>
        Ensures.bind_right fun _ => ensures_pure fits
    exact deep _ _ _ parsed
  · obtain ⟨before, after, text, span, others⟩ := opens.exists_brace
    exact ⟨opens.parse_error, before, after, text, span,
      fun other same => (others other same).parse_error⟩
  · simp only [Source.parse, document, run_bind] at failed
    cases read : (statements maxNesting false).run { lexer := Lexer.ofSource src } with
    | ok => simp [read, getLexer] at failed
    | error e r' =>
      rw [read] at failed
      cases failed
      exact Inside.start.tooDeepOnly (Nat.zero_add _) read max rfl

/-- A block, and behind it blocks within blocks, with a text behind their braces. -/
def nested (blocks : Nat) (rest : List Char) : Source where
  text := ['b', '\x7b', '\x7d'] ++ (List.replicate blocks ['a', '\x7b']).flatten ++ rest
  path := none

/-- The last one of sixty-five braces is refused, whatever comes behind; sixty-four can be
closed. -/
theorem nesting_bounded_of_nested :
    (∃ brace, (nested 65 []).OpensBlock maxNesting brace ∧ brace.start = 132) ∧
    (∃ brace r, (nested 65 [' ', '=', '"']).parse =
      .error ⟨.syntactic (.nestingTooDeep maxNesting), brace⟩ r ∧ brace.start = 132) ∧
    ∃ document r, (nested 64 (List.replicate 64 '\x7d')).parse = .ok document r ∧
      depthAll document.statements ≤ maxNesting := by
  have refused : (nested 65 []).problem?.bind Problem.tooDeepAt = some 132 := by decide +kernel
  have size : (nested 65 []).size = 133 := by decide +kernel
  have same : (nested 65 []).text <+: (nested 65 [' ', '=', '"']).text := by simp [nested]
  have accepted : (nested 64 (List.replicate 64 '\x7d')).problem?.isNone = true := by decide +kernel
  obtain ⟨⟨_, brace⟩, r, failed, tooDeep⟩ := exists_of_problem? refused
  obtain ⟨max, rfl, start⟩ := Problem.exists_of_tooDeepAt tooDeep
  obtain ⟨_, opens⟩ := (nesting_bounded _).2.2 max brace r failed
  obtain ⟨_, before, after, text, span, others⟩ := (nesting_bounded _).2.1 brace opens
  refine ⟨⟨brace, opens, start⟩, ?_, ?_⟩
  · -- the brace is the last character
    have last : byteLength before = 132 := by rw [← start, span, start_piece]
    have total : byteLength before + (1 + byteLength after) = 133 := by
      rw [← size, Source.size, text, byteLength_append]
      rfl
    have nothing : after = [] := by
      cases after with
      | nil => rfl
      | cons c after =>
        have := byteLength_pos (List.cons_ne_nil c after)
        omega
    subst nothing
    rw [text] at same
    obtain ⟨r, failed⟩ := others _ same
    exact ⟨_, r, failed, by rw [start_piece, last]⟩
  · cases parsed : (nested 64 (List.replicate 64 '\x7d')).parse with
    | error =>
      rw [problem?, parsed] at accepted
      cases accepted
    | ok document r => exact ⟨document, r, rfl, (nesting_bounded _).1 document r parsed⟩

end Source

end FusionTree
