import FusionTree.Proofs.Parser.Consuming
import FusionTree.Proofs.Parser.Slicer

/-!
# Readers by slices in step with parsers

A reader by slices `Mirrors` a parser if from every state that the parser can be in it comes to the
same value or the same problem, and never to nothing. There is one rule for each way to put readers
together; a cut succeeds because of the shape of the token that it is made in, or because the cursor
stands between two characters, and a loop ends before it runs out of rounds because there is less to
read behind each of them.
-/

namespace FusionTree

open Text

/-! ### Cuts -/

namespace Text

/-- A text may be cut at the ends of what it begins with and of what follows. -/
theorem slice?_append (before text after : List Char) :
    slice? (before ++ (text ++ after)) (byteLength before) (byteLength before + byteLength text) =
      some text :=
  (Source.slice?_append rfl : Source.slice? ⟨before ++ (text ++ after), none⟩ _ _ = some text)

/-- What stands between an opening and a closing delimiter of one byte may be cut out. -/
theorem slice?_between {opening closing : List Char} (inner : List Char)
    (one : byteLength closing = 1) :
    slice? (opening ++ (inner ++ closing)) (byteLength opening)
      (byteLength (opening ++ (inner ++ closing)) - 1) = some inner := by
  have stop : byteLength (opening ++ (inner ++ closing)) - 1 =
      byteLength opening + byteLength inner := by
    simp only [byteLength_append, one]
    omega
  rw [stop, slice?_append]

end Text

/-! ### Lengths of tokens -/

theorem closingBrace?_eq (depth : Nat) (quote : Option Char) (offset : Nat) (text : List Char) :
    closingBrace? depth quote offset text =
      (Rule.throughClosingBrace depth quote text).map fun lexeme =>
        offset + byteLength lexeme - 1 := by
  have further (c : Char) (offset : Nat) (more : Option (List Char)) :
      (more.map (c :: ·)).map (fun lexeme => offset + byteLength lexeme - 1) =
        more.map fun lexeme => offset + c.utf8Size + byteLength lexeme - 1 := by
    simp [Option.map_map, Function.comp_def, Nat.add_assoc]
  induction depth, quote, text using Rule.throughClosingBrace.induct generalizing offset with
  | case1 => simp [closingBrace?, Rule.throughClosingBrace]
  | case2 => simp [closingBrace?, Rule.throughClosingBrace]
  | case3 depth q escaped text ih =>
    simp only [closingBrace?, Rule.throughClosingBrace, if_true, ih, ← further]
    simp [Option.map_map, Function.comp_def]
  | case4 depth q c text other ih =>
    rw [closingBrace?.eq_def, Rule.throughClosingBrace.eq_def]
    simp only [other, if_false, ih, further]
  | case5 depth text ih =>
    simp only [closingBrace?, Rule.throughClosingBrace, if_true, ih, further]
  | case6 =>
    have one : '\x7d'.utf8Size = 1 := rfl
    simp [closingBrace?, Rule.throughClosingBrace, one]
  | case7 text depth opens ih =>
    simp only [closingBrace?, Rule.throughClosingBrace, if_true, if_neg opens, ih, further]
  | case8 depth c text opens closes quote ih =>
    simp only [closingBrace?, Rule.throughClosingBrace, opens, closes, quote, if_true, if_false, ih,
      further]
  | case9 depth c text opens closes quote ih =>
    simp only [closingBrace?, Rule.throughClosingBrace, opens, closes, quote, if_false, ih, further]

theorem eelLength?_eq (text : List Char) :
    eelLength? text = (Rule.eel text).map byteLength := by
  unfold eelLength?
  split
  · rename_i code
    have opening : Rule.literal ['$', '\x7b'] ('$' :: '\x7b' :: code) = some ['$', '\x7b'] := rfl
    have dollar : '$'.utf8Size = 1 := rfl
    have brace : '\x7b'.utf8Size = 1 := rfl
    rw [Rule.eel, Rule.andThen, opening, closingBrace?_eq, Option.map_map]
    cases closed : Rule.throughClosingBrace 0 none code with
    | none => simp [Rule.after, closed]
    | some lexeme =>
      obtain ⟨inner, rfl⟩ := Rule.exists_of_throughClosingBrace closed
      have one : '\x7d'.utf8Size = 1 := rfl
      simp [Rule.after, closed, dollar, brace, one]
      omega
  · rename_i other
    have differs : Rule.literal ['$', '\x7b'] text = none := by
      rw [Rule.literal, if_neg]
      intro begins
      obtain ⟨code, eq⟩ := List.isPrefixOf_iff_prefix.mp begins
      exact other code eq.symm
    simp [Rule.eel, Rule.andThen, differs]

theorem TokenKind.length?_eq (kind : TokenKind) (text : List Char) :
    kind.length? text = some ((kind.lexeme? text).map byteLength) := by
  cases kind with
  | dslStart =>
    rw [length?, lexeme?]
    cases named : Rule.run Rule.isNamePart text with
    | none => simp [Rule.dslStart, named]
    | some name =>
      obtain ⟨behind, rfl⟩ := Rule.matchesHead_run _ _ _ named
      simp only [Rule.dslStart, named, dropBytes_byteLength_append, Option.map_some, bind,
        Option.bind_some, Rule.after_append]
      split <;> rfl
  | eel => rw [length?, eelLength?_eq]; rfl
  | _ => rfl

/-! ### Runs -/

/-- The token without its text, which the source has. -/
def Token.mark (t : Token) : Mark := ⟨t.kind, t.span⟩

def Reading.marks (s : Reading) : Slicer.State where
  source := s.lexer.source
  cursor := s.lexer.cursor
  lookahead := s.lexer.lookahead.map Token.mark
  included := s.included
  problems := s.problems

namespace Slicer

variable {α β : Type} {s : State}

@[simp] theorem run_pure (a : α) : run (pure a) s = some (.ok a, s) := rfl

@[simp] theorem run_bind (q : Slicer α) (g : α → Slicer β) :
    run (q >>= g) s =
      match run q s with
      | some (.ok a, s') => run (g a) s'
      | some (.error e, s') => some (.error e, s')
      | none => none := by
  change ((q s).bind fun (r, s') => _) = _
  unfold run ExceptT.run
  rcases q s with _ | ⟨_ | _, _⟩ <;> rfl

@[simp] theorem run_map (q : Slicer α) (f : α → β) :
    run (f <$> q) s =
      match run q s with
      | some (.ok a, s') => some (.ok (f a), s')
      | some (.error e, s') => some (.error e, s')
      | none => none := by
  rw [map_eq_pure_bind, run_bind]
  rfl

@[simp] theorem run_get : run get s = some (.ok s, s) := rfl

@[simp] theorem run_set (s' : State) : run (set s') s = some (.ok (), s') := rfl

@[simp] theorem run_modify (f : State → State) : run (modify f) s = some (.ok (), f s) := rfl

@[simp] theorem run_cut_some (a : α) : run (cut (some a)) s = some (.ok a, s) := rfl

/-! ### Requests -/

/-- Where two offsets cut no character, the range between them is there. -/
theorem run_span {before text after : List Char} (eq : s.source.text = before ++ (text ++ after)) :
    run (span (byteLength before) (byteLength before + byteLength text)) s =
      some (.ok (s.source.piece before text), s) := by
  have there : Span.new? s.source (byteLength before) (byteLength before + byteLength text) =
      some (s.source.piece before text) := Source.liesIn_piece eq
  simp [span, there]

theorem run_charSpan {lx : Lexer} {before after : List Char} (same : lx.source = s.source)
    (eq : s.source.text = before ++ after) :
    run (charSpan (byteLength before)) s = some (.ok (lx.charSpan (byteLength before)), s) := by
  have inside : min (byteLength before) s.source.size = byteLength before := by
    rw [Source.size, eq, byteLength_append]
    exact Nat.min_eq_left (Nat.le_add_right _ _)
  have behind : dropBytes (byteLength before) s.source.text = some after := by
    rw [eq, dropBytes_byteLength_append]
  have read (text rest : List Char) (split : after = text ++ rest) :
      run (span (byteLength before) (byteLength before + byteLength text)) s =
        some (.ok (lx.span (byteLength before) (byteLength before + byteLength text)), s) := by
    have there : Span.new? s.source (byteLength before) (byteLength before + byteLength text) =
        some (s.source.piece before text) := Source.liesIn_piece (split ▸ eq)
    rw [run_span (split ▸ eq), Lexer.span, same, there, Option.getD_some]
  cases after with
  | nil => simpa [charSpan, Lexer.charSpan, inside, behind, same] using read [] [] rfl
  | cons c rest => simpa [charSpan, Lexer.charSpan, inside, behind, same] using read [c] rest rfl

section

variable {src : Source} {s : Reading}

/-- The rest of the code is there to be cut out. -/
theorem dropBytes_cursor (h : s.Follows src) :
    dropBytes s.lexer.cursor s.lexer.source.text = some s.lexer.rest := by
  obtain ⟨before, rfl, text, cursor, _⟩ := h
  rw [text, cursor, ← List.append_assoc, dropBytes_byteLength_append]

theorem run_charSpan_cursor (h : s.Follows src) :
    run (charSpan s.lexer.cursor) s.marks =
      some (.ok (s.lexer.charSpan s.lexer.cursor), s.marks) := by
  obtain ⟨before, rfl, text, cursor, _⟩ := h
  rw [cursor]
  exact run_charSpan (s := s.marks) rfl ((List.append_assoc _ _ _).symm ▸ text)

theorem run_peekChar (h : s.Follows src) :
    run peekChar s.marks = some (.ok s.lexer.peekChar, s.marks) := by
  have rest : dropBytes s.marks.cursor s.marks.source.text = some s.lexer.rest :=
    dropBytes_cursor h
  simp [peekChar, code, rest, Lexer.peekChar]

theorem size_eq (h : s.Follows src) :
    s.lexer.source.size = s.lexer.cursor + byteLength s.lexer.rest := by
  obtain ⟨before, rfl, text, cursor, _⟩ := h
  rw [Source.size, text, cursor, ← List.append_assoc, byteLength_append]

/-- The beginning of what is left is there, wherever the reader stands by then. -/
theorem run_span_ahead (h : s.Follows src) {lexeme behind : List Char}
    (eq : s.lexer.rest = lexeme ++ behind) (cursor : Nat) :
    run (span s.lexer.cursor (s.lexer.cursor + byteLength lexeme)) { s.marks with cursor } =
      some (.ok (s.lexer.ahead (s.lexer.cursor + byteLength lexeme)), { s.marks with cursor }) := by
  obtain ⟨before, rfl, text, place, _⟩ := h
  have split : ({ s.marks with cursor } : State).source.text =
      (before ++ s.lexer.pending) ++ (lexeme ++ behind) := by
    rw [List.append_assoc, ← eq]
    exact text
  have read := run_span split
  rw [← place] at read
  rw [read, Source.piece, ← place]
  rfl

theorem run_generate (h : s.Follows src) (noLookahead : s.lexer.lookahead = none)
    (kind : TokenKind) :
    run (generate kind) s.marks = some (.ok ((s.lexer.tryMatch kind).lookahead.map Token.mark),
      { s.marks with cursor := (s.lexer.tryMatch kind).cursor }) := by
  have rest := dropBytes_cursor h
  have size := size_eq h
  rcases s.lexer.tryMatch_cases kind with ⟨looked, _⟩ | ⟨_, nothing, ended⟩ |
    ⟨lexeme, behind, _, eq, rule, found⟩ | ⟨_, more, rule, same⟩
  · exact absurd noLookahead looked
  · have last : s.lexer.cursor = s.lexer.source.size := by rw [size, nothing]; rfl
    have place := @run_span_ahead src s h [] [] nothing s.lexer.cursor
    rw [show byteLength [] = 0 from rfl, Nat.add_zero] at place
    rw [ended]
    simp only [generate, run_bind, run_get, Reading.marks, if_pos last]
    simp only [Reading.marks] at place
    simp [place, Lexer.atEnd, Token.mark]
  · have further := byteLength_pos (TokenKind.ne_nil_of_lexeme? rule)
    have notLast : s.lexer.cursor ≠ s.lexer.source.size := by
      rw [size, eq, byteLength_append]
      omega
    have place := run_span_ahead h eq (s.lexer.cursor + byteLength lexeme)
    rw [found]
    simp only [Reading.marks] at place
    simp [generate, code, Reading.marks, notLast, rest, TokenKind.length?_eq, rule, place,
      Lexer.past, Token.mark]
  · have notLast : s.lexer.cursor ≠ s.lexer.source.size := by
      have := byteLength_pos more
      omega
    rw [same]
    simp [generate, code, Reading.marks, notLast, rest, TokenKind.length?_eq, rule, noLookahead]

theorem run_tryMatch (h : s.Follows src) (kind : TokenKind) :
    run (tryMatch kind) s.marks = some (.ok ((s.lexer.tryMatch kind).lookahead.map Token.mark),
      { s with lexer := s.lexer.tryMatch kind }.marks) := by
  cases looked : s.lexer.lookahead with
  | some t =>
    rw [Lexer.tryMatch_of_lookahead looked]
    simp [tryMatch, Reading.marks, looked]
  | none =>
    have made := run_generate h looked kind
    have same : (s.lexer.tryMatch kind).source = s.lexer.source := by
      obtain ⟨before, follows⟩ := h
      rw [(follows.tryMatch kind).source, follows.source]
    simp only [Reading.marks, looked, Option.map_none] at made
    simp [tryMatch, Reading.marks, looked, made, same]

theorem any_mark (lx : Lexer) (kind : TokenKind) :
    (lx.lookahead.map Token.mark).any (·.kind = kind) = lx.holds kind := by
  rw [Option.any_map]
  rfl

theorem run_take (h : s.Follows src) (kind : TokenKind) :
    run (take kind) s.marks = some (.ok ((s.lexer.take kind).1.map Token.mark),
      { s with lexer := (s.lexer.take kind).2 }.marks) := by
  rw [take, run_bind, run_tryMatch h kind, Lexer.take]
  dsimp only
  rw [any_mark]
  split <;> rfl

end

end Slicer

/-! ### Readers in step -/

/-- The token and the mark are one, a piece of the source with the shape of its kind. -/
structure Token.Marked (src : Source) (kind : TokenKind) (t : Token) (m : Mark) : Prop where
  mark_eq : m = t.mark
  kind_eq : t.kind = kind
  shape : kind ≠ .endOfInput → kind.Shape t.lexeme
  piece : ∃ before after, src.text = before ++ (t.lexeme ++ after) ∧
    t.span = src.piece before t.lexeme

namespace Token.Marked

variable {src : Source} {kind : TokenKind} {t : Token} {m : Mark}

theorem span_eq (h : t.Marked src kind m) : m.span = t.span := by
  rw [h.mark_eq, Token.mark]

theorem source_eq (h : t.Marked src kind m) : t.span.source = src := by
  obtain ⟨before, after, _, eq⟩ := h.piece
  rw [eq, Source.piece]

theorem text? (h : t.Marked src kind m) : m.text? = some t.lexeme := by
  obtain ⟨before, after, eq, span⟩ := h.piece
  rw [Mark.text?, h.span_eq, span]
  simpa [Source.piece, eq] using slice?_append before t.lexeme after

/-- The text between delimiters of one byte each. -/
theorem inner? (h : t.Marked src kind m) {opening closing inner : List Char}
    (eq : t.lexeme = opening ++ (inner ++ closing)) (one : byteLength closing = 1) :
    m.inner? (byteLength opening) = some inner := by
  simp only [Mark.inner?, h.text?, bind, Option.bind_some, eq]
  exact slice?_between inner one

theorem join? (h : t.Marked src kind m) {other : Span} (same : other.source = src) :
    m.span.join? other = some (t.span.join other) := by
  rw [Span.join?, h.span_eq, if_pos (h.source_eq.trans same.symm)]

end Token.Marked

namespace Slicer

variable {α β γ δ : Type} {src : Source}

/-- What a reader by slices comes to is what a parser comes to: the same problem, or a value that
belongs to the parser's. -/
abbrev Answers (src : Source) (answer : Option (Except Problem β × State)) (outcome : Outcome α)
    (R : α → β → Prop) : Prop :=
  match outcome with
  | .ok a s' => s'.Follows src ∧ ∃ b, answer = some (.ok b, s'.marks) ∧ R a b
  | .error e s' => answer = some (.error e, s'.marks)

/-- From every state that the parser can be in the reader by slices comes to what the parser comes
to. -/
def Mirrors (src : Source) (q : Slicer β) (p : Parser α) (R : α → β → Prop) : Prop :=
  ∀ s : Reading, s.Follows src → Answers src (run q s.marks) (p.run s) R

section Rules

variable {q : Slicer β} {p : Parser α} {g : β → Slicer δ} {f : α → Parser γ}
variable {P : α → β → Prop} {R : γ → δ → Prop}

theorem mirrors_pure {a : α} {b : β} (h : P a b) : Mirrors src (pure b) (pure a) P :=
  fun _ hs => ⟨hs, b, rfl, h⟩

theorem Mirrors.bind (hq : Mirrors src q p P) (hg : ∀ a b, P a b → Mirrors src (g b) (f a) R) :
    Mirrors src (q >>= g) (p >>= f) R := by
  intro s hs
  have first := hq s hs
  rw [Parser.run_bind, run_bind]
  cases came : p.run s with
  | ok a s' =>
    rw [came] at first
    obtain ⟨hs', b, ran, hb⟩ := first
    have second := hg a b hb s' hs'
    rw [ran]
    exact second
  | error e s' =>
    rw [came] at first
    rw [show run q s.marks = _ from first]

/-- A cut that succeeds stands on one side only. -/
theorem Mirrors.cut {slice : Option β} {b : β} {p : Parser γ} (there : slice = some b)
    (hg : Mirrors src (g b) p R) : Mirrors src (Slicer.cut slice >>= g) p R := by
  intro s hs
  rw [run_bind, there, run_cut_some]
  exact hg s hs

theorem mirrors_fail {Q : α → β → Prop} (cause : Cause) (place : Span) :
    Mirrors src (fail cause place) (Parser.fail cause place) Q :=
  fun _ _ => rfl

theorem mirrors_here : Mirrors src here Parser.here Eq := by
  intro s hs
  refine ⟨hs, _, ?_, rfl⟩
  rw [here, run_bind, run_get]
  cases looked : s.lexer.lookahead with
  | some t => simp [Reading.marks, looked, Token.mark]
  | none => simpa [Reading.marks, looked] using run_charSpan_cursor hs

theorem mirrors_failHere {Q : α → β → Prop} (error : SyntaxError) :
    Mirrors src (failHere error) (Parser.failHere error) Q :=
  mirrors_here.bind fun _ _ same => same ▸ mirrors_fail _ _

theorem mirrors_get : Mirrors src get Parser.getLexer fun lexer s =>
    ∃ before, lexer.Follows src before ∧ s.cursor = lexer.cursor ∧ s.source = lexer.source := by
  intro s hs
  obtain ⟨before, follows⟩ := id hs
  exact ⟨hs, s.marks, rfl, before, follows, rfl, rfl⟩

/-- The place behind what has been consumed at some time may be looked at later. -/
theorem Mirrors.charSpan {g : Span → Slicer δ} {p : Parser γ} {lx : Lexer} {before : List Char}
    (follows : lx.Follows src before) (hg : Mirrors src (g (lx.charSpan lx.cursor)) p R) :
    Mirrors src (Slicer.charSpan lx.cursor >>= g) p R := by
  intro s hs
  obtain ⟨_, follows'⟩ := id hs
  have same : lx.source = s.marks.source := follows.source.trans follows'.source.symm
  have text : s.marks.source.text = before ++ lx.pending ++ lx.rest := by
    rw [← same, follows.source, follows.text, List.append_assoc]
  have read := run_charSpan same text
  rw [← follows.cursor] at read
  rw [run_bind, read]
  exact hg s hs

theorem mirrors_noteInclude (pattern : String) :
    Mirrors src (noteInclude pattern) (Parser.noteInclude pattern) Eq :=
  fun _ hs => ⟨hs, (), rfl, rfl⟩

theorem mirrors_accept (kind : TokenKind) :
    Mirrors src (accept kind) (Parser.accept kind) Eq := by
  intro s hs
  obtain ⟨before, follows⟩ := id hs
  refine ⟨⟨before, follows.tryMatch kind⟩, _, ?_, rfl⟩
  rw [accept, run_bind, run_tryMatch hs kind]
  dsimp only
  rw [any_mark, run_pure]

theorem mirrors_take (kind : TokenKind) :
    Mirrors src (take kind) (Parser.take kind) (Option.Rel (Token.Marked src kind)) := by
  intro s hs
  obtain ⟨before, follows⟩ := id hs
  have parsed : (Parser.take kind).run s =
      .ok (s.lexer.take kind).1 { s with lexer := (s.lexer.take kind).2 } := rfl
  rw [parsed]
  cases taken : (s.lexer.take kind).1 with
  | none =>
    refine ⟨⟨before, follows.take_none taken⟩, none, ?_, .none⟩
    rw [run_take hs kind, taken, Option.map_none]
  | some t =>
    obtain ⟨behind, found⟩ := follows.take_some taken
    refine ⟨⟨_, behind⟩, some t.mark, ?_, .some ⟨rfl, found.kind_eq, found.shape, before, ?_⟩⟩
    · rw [run_take hs kind, taken, Option.map_some]
    · obtain ⟨after, eq⟩ := behind.isPrefix
      exact ⟨after, by rw [← eq, List.append_assoc], found.span⟩

theorem mirrors_onToken {kind : TokenKind} {found' : Mark → Slicer β} {found : Token → Parser α}
    (hf : ∀ t m, t.Marked src kind m → Mirrors src (found' m) (found t) P)
    (ho : Mirrors src q p P) :
    Mirrors src (onToken kind found' q) (Parser.onToken kind found p) P := by
  refine (mirrors_take kind).bind fun token mark same => ?_
  cases same with
  | none => exact ho
  | some marked => exact hf _ _ marked

theorem mirrors_expect (kind : TokenKind) :
    Mirrors src (expect kind) (Parser.expect kind) (Token.Marked src kind) := by
  refine mirrors_onToken (fun t m marked => mirrors_pure marked) fun s hs => ?_
  rw [Parser.run_bind, Parser.getLexer, run_bind, run_get]
  dsimp only
  cases looked : s.lexer.lookahead with
  | some found =>
    have marked : s.marks.lookahead = some found.mark := by simp [Reading.marks, looked]
    rw [marked]
    exact mirrors_failHere (α := Token) (Q := Token.Marked src kind) _ s hs
  | none =>
    have marked : s.marks.lookahead = none := by simp [Reading.marks, looked]
    have place : run (charSpan s.marks.cursor) s.marks = _ := run_charSpan_cursor hs
    rw [marked]
    simp only [run_bind, place, run_peekChar hs]
    exact mirrors_fail _ _ s hs

/-! ### Repetitions in step -/

theorem run_takeAny (kinds : List TokenKind) {s : Reading} (hs : s.Follows src) :
    run (takeAny kinds) s.marks = some (.ok (s.lexer.takeAny kinds).1,
      { s with lexer := (s.lexer.takeAny kinds).2 }.marks) := by
  induction kinds generalizing s with
  | nil => rfl
  | cons kind kinds ih =>
    obtain ⟨before, follows⟩ := id hs
    rw [takeAny, run_bind, run_take hs]
    cases taken : (s.lexer.take kind).1 with
    | some t =>
      rw [Lexer.takeAny_of_some taken]
      rfl
    | none =>
      rw [Lexer.takeAny_of_none taken]
      exact ih ⟨before, follows.take_none taken⟩

/-- There are more rounds than tokens left to read. -/
theorem unread_lt_rounds {s : Reading} (h : s.Follows src) :
    s.unread < 2 * s.marks.source.size + 2 := by
  obtain ⟨before, _, text, _, _⟩ := h
  have size : byteLength s.lexer.rest ≤ s.marks.source.size := by
    change _ ≤ byteLength s.lexer.source.text
    simp only [‹s.lexer.source = src›, text, byteLength_append]
    omega
  have length := length_le_byteLength s.lexer.rest
  have last : s.unread ≤ 2 * s.lexer.rest.length + 1 := by
    simp only [Reading.unread, Lexer.unread]
    split <;> (try split) <;> omega
  omega

theorem run_collectFor_none {body : Slicer (Option α)} {s s' : State}
    (h : run body s = some (.ok none, s')) (rounds : Nat) :
    run (collectFor body (rounds + 1)) s = some (.ok [], s') := by
  simp [collectFor, h]

theorem run_collectFor_error {body : Slicer (Option α)} {s s' : State} {e : Problem}
    (h : run body s = some (.error e, s')) (rounds : Nat) :
    run (collectFor body (rounds + 1)) s = some (.error e, s') := by
  simp [collectFor, h]

theorem run_collectFor_some {body : Slicer (Option α)} {s s' : State} {a : α}
    (h : run body s = some (.ok (some a), s')) (rounds : Nat) :
    run (collectFor body (rounds + 1)) s = run ((a :: ·) <$> collectFor body rounds) s' := by
  simp [collectFor, h]

theorem run_skip (kinds : List TokenKind) (noEnd : TokenKind.endOfInput ∉ kinds) {s : Reading}
    (hs : s.Follows src) :
    run (skip kinds) s.marks =
      some (.ok (), { s with lexer := s.lexer.skip kinds noEnd }.marks) := by
  have round {s : Reading} (hs : s.Follows src) : run (gapPiece kinds) s.marks =
      some (.ok (if (s.lexer.takeAny kinds).1 then some () else none),
        { s with lexer := (s.lexer.takeAny kinds).2 }.marks) := by
    rw [gapPiece, run_bind, run_takeAny kinds hs]
    dsimp only
    split <;> rfl
  have all (rounds : Nat) (enough : s.lexer.unread < rounds) : ∃ units,
      run (collectFor (gapPiece kinds) rounds) s.marks =
        some (.ok units, { s with lexer := s.lexer.skip kinds noEnd }.marks) := by
    obtain ⟨lexer, included, problems⟩ := s
    dsimp only at enough ⊢
    obtain ⟨rounds, rfl⟩ := Nat.exists_eq_succ_of_ne_zero (Nat.ne_zero_of_lt enough)
    fun_induction Lexer.skip kinds noEnd lexer generalizing rounds with
    | case1 lexer next eq lt ih =>
      obtain ⟨before, follows⟩ := id hs
      obtain ⟨text, behind, _⟩ := Lexer.Follows.takeAny follows noEnd
      have more := round hs
      simp only [eq, if_true] at more behind
      obtain ⟨rounds, rfl⟩ := Nat.exists_eq_succ_of_ne_zero (by omega : rounds ≠ 0)
      obtain ⟨units, others⟩ := ih ⟨_, behind⟩ rounds (by omega)
      refine ⟨() :: units, ?_⟩
      rw [run_collectFor_some more, run_map, others]
    | case2 lexer next eq =>
      have done := round hs
      simp only [eq] at done
      exact ⟨[], run_collectFor_none done rounds⟩
  obtain ⟨units, ran⟩ := all _ (unread_lt_rounds hs)
  simp only [skip, collect, run_bind, run_get]
  rw [ran]
  exact run_pure ()

theorem mirrors_skipSmallGap : Mirrors src skipSmallGap Parser.skipSmallGap Eq := by
  intro s hs
  obtain ⟨before, follows⟩ := id hs
  obtain ⟨text, behind⟩ := follows.skip [.space, .slashComment, .hashComment, .blockComment]
    (by decide)
  exact ⟨⟨_, behind⟩, (), run_skip _ _ hs, rfl⟩

theorem mirrors_skipBigGap : Mirrors src skipBigGap Parser.skipBigGap Eq := by
  intro s hs
  obtain ⟨before, follows⟩ := id hs
  obtain ⟨text, behind⟩ := follows.skip
    [.space, .newline, .slashComment, .hashComment, .blockComment] (by decide)
  exact ⟨⟨_, behind⟩, (), run_skip _ _ hs, rfl⟩

/-- Collecting is in step with a loop of the parser if every number of rounds that is greater than
the number of tokens left to read is enough. -/
theorem mirrors_collect {body : Slicer (Option α)} {p : Parser (List α)}
    (h : ∀ s : Reading, s.Follows src → ∀ rounds, s.unread < rounds →
      Answers src (run (collectFor body rounds) s.marks) (p.run s) Eq) :
    Mirrors src (collect body) p Eq := by
  intro s hs
  rw [collect, run_bind, run_get]
  exact h s hs _ (unread_lt_rounds hs)

/-- The rounds of a loop of the parser, with the state behind what a round of the reader does. -/
theorem answers_collectFor {body : Slicer (Option α)} {s s₁ : Reading} {a : α} {rounds : Nat}
    {others : Outcome (List α)} (round : run body s.marks = some (.ok (some a), s₁.marks))
    (h : Answers src (run (collectFor body rounds) s₁.marks) others Eq) :
    Answers src (run (collectFor body (rounds + 1)) s.marks)
      (match others with
        | .ok as s' => .ok (a :: as) s'
        | .error e s' => .error e s') Eq := by
  rw [run_collectFor_some round, run_map]
  cases others with
  | ok as s' =>
    obtain ⟨hs', _, ran, rfl⟩ := h
    exact ⟨hs', _, by rw [ran], rfl⟩
  | error e s' =>
    have ran : run (collectFor body rounds) s₁.marks = some (.error e, s'.marks) := h
    show _ = _
    rw [ran]

theorem Mirrors.eachAfter {kind : TokenKind} {ne : kind ≠ .endOfInput} {p : Parser α}
    {q : Slicer α} (hq : Mirrors src q p Eq) :
    Mirrors src (eachAfter kind q) (Parser.eachAfter kind ne p) Eq := by
  have behind {s : Reading} {t : Token} {lexer : Lexer} (hs : s.Follows src)
      (ht : s.lexer.take kind = (some t, lexer)) : ({ s with lexer } : Reading).Follows src := by
    obtain ⟨before, follows⟩ := hs
    have found : (s.lexer.take kind).1 = some t := by rw [ht]
    have onwards := (follows.take_some found).1
    rw [ht] at onwards
    exact ⟨_, onwards⟩
  have round {s s₁ : Reading} {t : Token} {lexer : Lexer} {a : α} (hs : s.Follows src)
      (ht : s.lexer.take kind = (some t, lexer)) (hp : p.run { s with lexer } = .ok a s₁) :
      s₁.Follows src ∧ run (itemAfter kind q) s.marks = some (.ok (some a), s₁.marks) := by
    have asked := run_take hs kind
    have first := hq _ (behind hs ht)
    rw [ht] at asked
    rw [hp] at first
    obtain ⟨hs₁, _, ran, rfl⟩ := first
    exact ⟨hs₁, by simp [itemAfter, asked, ran]⟩
  refine mirrors_collect fun s hs rounds enough => ?_
  obtain ⟨rounds, rfl⟩ := Nat.exists_eq_succ_of_ne_zero (Nat.ne_zero_of_lt enough)
  change Answers src _ (Parser.eachAfterFrom kind ne p s) Eq
  fun_induction Parser.eachAfterFrom kind ne p s generalizing rounds with
  | case1 s lexer ht =>
    obtain ⟨before, follows⟩ := id hs
    have nothing : (s.lexer.take kind).1 = none := by rw [ht]
    have onwards := follows.take_none nothing
    have asked := run_take hs kind
    rw [ht] at onwards asked
    exact ⟨⟨before, onwards⟩, [], run_collectFor_none (by simp [itemAfter, asked]) rounds, rfl⟩
  | case2 s t lexer ht e s₁ hp =>
    have asked := run_take hs kind
    have first := hq _ (behind hs ht)
    rw [ht] at asked
    rw [hp] at first
    exact run_collectFor_error (by simp [itemAfter, asked, first]) rounds
  | case3 s t lexer ht a s₁ hp lt e s₂ hl ih =>
    obtain ⟨hs₁, item⟩ := round hs ht hp
    obtain ⟨rounds, rfl⟩ := Nat.exists_eq_succ_of_ne_zero (by omega : rounds ≠ 0)
    have others := answers_collectFor item (ih hs₁ rounds (by omega))
    rwa [hl] at others
  | case4 s t lexer ht a s₁ hp lt as s₂ hl ih =>
    obtain ⟨hs₁, item⟩ := round hs ht hp
    obtain ⟨rounds, rfl⟩ := Nat.exists_eq_succ_of_ne_zero (by omega : rounds ≠ 0)
    have others := answers_collectFor item (ih hs₁ rounds (by omega))
    rwa [hl] at others

theorem Mirrors.repeatUntil {done : Parser Bool} {done' : Slicer Bool} {p : Parser α}
    {q : Slicer α} {progress : p.Progresses} (hd : Mirrors src done' done Eq)
    (hq : Mirrors src q p Eq) :
    Mirrors src (repeatUntil done' q) (Parser.repeatUntil done p progress) Eq := by
  have round {s s₁ s₂ : Reading} {a : α} (hs : s.Follows src) (ended : done.run s = .ok false s₁)
      (hp : p.run s₁ = .ok a s₂) :
      s₂.Follows src ∧
        run (itemUnless done' q) s.marks = some (.ok (some a), s₂.marks) := by
    have asked := hd s hs
    rw [ended] at asked
    obtain ⟨hs₁, _, ran, rfl⟩ := asked
    have first := hq _ hs₁
    rw [hp] at first
    obtain ⟨hs₂, _, ran', rfl⟩ := first
    exact ⟨hs₂, by simp [itemUnless, ran, ran']⟩
  refine mirrors_collect fun s hs rounds enough => ?_
  obtain ⟨rounds, rfl⟩ := Nat.exists_eq_succ_of_ne_zero (Nat.ne_zero_of_lt enough)
  change Answers src _ (Parser.repeatUntilFrom done p progress s) Eq
  fun_induction Parser.repeatUntilFrom done p progress s generalizing rounds with
  | case1 s e s₁ ended =>
    have asked := hd s hs
    rw [ended] at asked
    exact run_collectFor_error (by rw [itemUnless, run_bind, asked]) rounds
  | case2 s s₁ ended =>
    have asked := hd s hs
    rw [ended] at asked
    obtain ⟨hs₁, _, ran, rfl⟩ := asked
    exact ⟨hs₁, [], run_collectFor_none (by rw [itemUnless, run_bind, ran]; rfl) rounds, rfl⟩
  | case3 s s₁ ended e s₂ hp =>
    have asked := hd s hs
    rw [ended] at asked
    obtain ⟨hs₁, _, ran, rfl⟩ := asked
    have first := hq _ hs₁
    rw [hp] at first
    exact run_collectFor_error (by simp [itemUnless, ran, first]) rounds
  | case4 s s₁ ended a s₂ hp lt e s₃ hl ih =>
    obtain ⟨hs₂, item⟩ := round hs ended hp
    obtain ⟨rounds, rfl⟩ := Nat.exists_eq_succ_of_ne_zero (by omega : rounds ≠ 0)
    have others := answers_collectFor item (ih hs₂ rounds (by omega))
    rwa [hl] at others
  | case5 s s₁ ended a s₂ hp lt as s₃ hl ih =>
    obtain ⟨hs₂, item⟩ := round hs ended hp
    obtain ⟨rounds, rfl⟩ := Nat.exists_eq_succ_of_ne_zero (by omega : rounds ≠ 0)
    have others := answers_collectFor item (ih hs₂ rounds (by omega))
    rwa [hl] at others

end Rules

end Slicer

end FusionTree
