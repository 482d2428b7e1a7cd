import FusionTree.Proofs.Parser.Paths
import FusionTree.Proofs.Parser.Reading
import FusionTree.Proofs.Source.Positions
import FusionTree.Proofs.Token.Matching

/-!
# Places in what is read

A lexer that `Reads` a source stands between two characters of it, and every token that it makes is
a piece of that source. A parser is `Faithful` to the source if it keeps its lexer so, reports
nothing while it succeeds, and when it fails reports exactly the problem it fails for, at a place in
the source. The grammar is faithful, and every place in the statements it reads lies in the source.
-/

namespace FusionTree

/-- The problem has its place in the source, and is no problem of the output of a DSL. -/
def Problem.IsOf (p : Problem) (src : Source) : Prop :=
  p.span.LiesIn src ∧
    ∀ identifier inner innerSpan, p.cause ≠ .invalidDslOutput identifier inner innerSpan

/-- The token is a piece of the source, and the rule of its kind has matched it. -/
structure Token.ReadFrom (t : Token) (src : Source) : Prop where
  span : t.span.LiesIn src
  rule : t.kind = .endOfInput ∨ ∃ text, t.kind.lexeme? text = some t.lexeme

/-- A token of a kind other than the end has been matched by the rule of the kind. -/
theorem Token.ReadFrom.exists_lexeme? {t : Token} {src : Source} (read : t.ReadFrom src)
    {kind : TokenKind} (same : t.kind = kind) (ne : kind ≠ .endOfInput) :
    ∃ text, kind.lexeme? text = some t.lexeme := by
  rcases read.rule with h | h
  · exact absurd (same.symm.trans h) ne
  · rwa [same] at h

/-- The lexer reads the source: the cursor stands where the rest of the text begins, and the
lookahead is a piece of the text. -/
structure Lexer.Reads (lx : Lexer) (src : Source) : Prop where
  source : lx.source = src
  cursor : ∃ before, src.text = before ++ lx.rest ∧ Text.byteLength before = lx.cursor
  lookahead : ∀ t, lx.lookahead = some t → t.ReadFrom src

namespace Lexer

variable {lx : Lexer} {src : Source}

theorem reads_ofSource (src : Source) : (ofSource src).Reads src :=
  ⟨rfl, ⟨[], rfl, rfl⟩, fun _ h => by cases h⟩

theorem Reads.liesIn_ahead (h : lx.Reads src) {lexeme : List Char} (hl : lexeme <+: lx.rest) :
    (lx.ahead (lx.cursor + Text.byteLength lexeme)).LiesIn src := by
  obtain ⟨before, text, length⟩ := h.cursor
  obtain ⟨rest, hr⟩ := hl
  refine Span.liesIn_iff.mpr ⟨h.source, Nat.le_add_right _ _, ⟨before, _, text, length⟩,
    before ++ lexeme, rest, by rw [text, ← hr, List.append_assoc], ?_⟩
  rw [Text.byteLength_append, length]
  rfl

theorem Reads.takeLexeme (h : lx.Reads src) {kind : TokenKind} {lexeme : List Char}
    (rule : kind.lexeme? lx.rest = some lexeme) : (lx.takeLexeme kind lexeme).Reads src := by
  have head := TokenKind.matchesHead_lexeme? kind _ _ rule
  cases lexeme with
  | nil => exact h
  | cons c tail =>
    obtain ⟨before, text, length⟩ := h.cursor
    obtain ⟨rest, hr⟩ := id head
    refine ⟨h.source, ⟨before ++ c :: tail, ?_, ?_⟩, ?_⟩
    · simp only [Lexer.takeLexeme, ← hr, List.drop_left]
      rw [text, ← hr, List.append_assoc]
    · rw [Text.byteLength_append, length]
      rfl
    · rintro _ ⟨⟩
      exact ⟨h.liesIn_ahead head, .inr ⟨_, rule⟩⟩

theorem Reads.tryMatch (h : lx.Reads src) (kind : TokenKind) : (lx.tryMatch kind).Reads src := by
  unfold Lexer.tryMatch
  split
  · exact h
  · unfold generate
    split
    · rename_i hr
      refine ⟨h.source, h.cursor, ?_⟩
      rintro _ ⟨⟩
      have nothing : [] <+: lx.rest := List.nil_prefix
      exact ⟨h.liesIn_ahead nothing, .inl rfl⟩
    · cases rule : kind.lexeme? lx.rest with
      | none => exact h
      | some lexeme => exact h.takeLexeme rule

theorem Reads.consume (h : lx.Reads src) : lx.consume.Reads src :=
  ⟨h.source, h.cursor, fun _ ht => by cases ht⟩

theorem Reads.take (h : lx.Reads src) (kind : TokenKind) : (lx.take kind).2.Reads src := by
  unfold Lexer.take
  dsimp only
  split
  · exact (h.tryMatch kind).consume
  · exact h.tryMatch kind

/-- A token that is taken has the kind asked for. -/
theorem Reads.of_take (h : lx.Reads src) {kind : TokenKind} {t : Token}
    (taken : (lx.take kind).1 = some t) : t.ReadFrom src ∧ t.kind = kind := by
  unfold Lexer.take at taken
  dsimp only at taken
  split at taken
  · rename_i holds
    have looked : (lx.tryMatch kind).lookahead = some t := taken
    refine ⟨(h.tryMatch kind).lookahead t looked, ?_⟩
    rw [Lexer.holds, looked] at holds
    simpa using holds
  · cases taken

theorem Reads.takeAny (h : lx.Reads src) (kinds : List TokenKind) :
    (lx.takeAny kinds).2.Reads src := by
  induction kinds generalizing lx with
  | nil => exact h
  | cons kind kinds ih =>
    cases taken : (lx.take kind).1 with
    | some token =>
      rw [takeAny_of_some taken]
      exact h.take kind
    | none =>
      rw [takeAny_of_none taken]
      exact ih (h.take kind)

theorem Reads.skip (h : lx.Reads src) (kinds : List TokenKind)
    (noEnd : TokenKind.endOfInput ∉ kinds) : (lx.skip kinds noEnd).Reads src :=
  skip_induction (P := (Lexer.Reads · src)) (fun _ h => h.takeAny kinds) h

theorem Reads.liesIn_span (h : lx.Reads src) (start stop : Nat) :
    (lx.span start stop).LiesIn src := by
  unfold Lexer.span
  rw [h.source]
  cases hs : Span.new? src start stop with
  | none => exact Span.liesIn_emptyAt src start
  | some s => exact Span.liesIn_of_new? hs

theorem Reads.liesIn_charSpan (h : lx.Reads src) (offset : Nat) :
    (lx.charSpan offset).LiesIn src := by
  unfold charSpan
  split
  · exact h.liesIn_span _ _
  · exact h.liesIn_span _ _

end Lexer

namespace Parser

variable {α β : Type} {src : Source}

/-- What a parser comes to that keeps to the source: a reading of the source without a new problem,
and a value that has the property; or a problem of the source that is the only new one. -/
def KeepsTo (src : Source) (problems : List Problem) (P : α → Prop) : Outcome α → Prop
  | .ok a s => s.lexer.Reads src ∧ s.problems = problems ∧ P a
  | .error e s => e.IsOf src ∧ s.problems = problems ++ [e]

def Faithful (src : Source) (p : Parser α) (P : α → Prop) : Prop :=
  ∀ s : Reading, s.lexer.Reads src → KeepsTo src s.problems P (p.run s)

theorem faithful_pure {P : α → Prop} {a : α} (h : P a) : Faithful src (pure a : Parser α) P :=
  fun _ reads => ⟨reads, rfl, h⟩

theorem Faithful.bind {p : Parser α} {f : α → Parser β} {P : α → Prop} {Q : β → Prop}
    (hp : Faithful src p P) (hf : ∀ a, P a → Faithful src (f a) Q) :
    Faithful src (p >>= f) Q := by
  intro s reads
  have first := hp s reads
  rw [run_bind]
  cases hr : p.run s with
  | error e s' => rwa [hr] at first
  | ok a s' =>
    rw [hr] at first
    obtain ⟨reads', silent, ha⟩ := first
    have second := hf a ha s' reads'
    rwa [silent] at second

theorem faithful_fail {P : α → Prop} {cause : Cause} {span : Span}
    (h : Problem.IsOf ⟨cause, span⟩ src) : Faithful src (fail cause span : Parser α) P :=
  fun _ _ => ⟨h, rfl⟩

theorem faithful_here : Faithful src here fun span => span.LiesIn src := by
  intro s reads
  refine ⟨reads, rfl, ?_⟩
  split
  · rename_i t ht
    exact (reads.lookahead t ht).span
  · exact reads.liesIn_charSpan _

theorem faithful_failHere {P : α → Prop} (error : SyntaxError) :
    Faithful src (failHere error : Parser α) P :=
  faithful_here.bind fun _ place => faithful_fail ⟨place, by simp⟩

theorem faithful_getLexer : Faithful src getLexer fun lexer => lexer.Reads src :=
  fun _ reads => ⟨reads, rfl, reads⟩

theorem faithful_noteInclude (pattern : String) :
    Faithful src (noteInclude pattern) fun _ => True :=
  fun _ reads => ⟨reads, rfl, trivial⟩

theorem faithful_accept (kind : TokenKind) : Faithful src (accept kind) fun _ => True :=
  fun _ reads => ⟨reads.tryMatch kind, rfl, trivial⟩

theorem faithful_take (kind : TokenKind) :
    Faithful src (take kind) fun token => ∀ t, token = some t → t.ReadFrom src ∧ t.kind = kind :=
  fun _ reads => ⟨reads.take kind, rfl, fun _ taken => reads.of_take taken⟩

theorem faithful_skipSmallGap : Faithful src skipSmallGap fun _ => True :=
  fun _ reads => ⟨reads.skip _ _, rfl, trivial⟩

theorem faithful_skipBigGap : Faithful src skipBigGap fun _ => True :=
  fun _ reads => ⟨reads.skip _ _, rfl, trivial⟩

theorem faithful_onToken {P : α → Prop} {kind : TokenKind} {found : Token → Parser α}
    {otherwise : Parser α}
    (hf : ∀ t : Token, t.ReadFrom src → t.kind = kind → Faithful src (found t) P)
    (ho : Faithful src otherwise P) : Faithful src (onToken kind found otherwise) P := by
  refine (faithful_take kind).bind fun token taken => ?_
  cases token with
  | some t => exact hf t (taken t rfl).1 (taken t rfl).2
  | none => exact ho

theorem faithful_expect (kind : TokenKind) :
    Faithful src (expect kind) fun t => t.ReadFrom src ∧ t.kind = kind := by
  refine faithful_onToken (fun t read same => faithful_pure ⟨read, same⟩) ?_
  refine faithful_getLexer.bind fun lexer reads => ?_
  split
  · exact faithful_failHere _
  · exact faithful_fail ⟨reads.liesIn_charSpan _, by simp⟩

theorem Faithful.eachAfter {kind : TokenKind} {ne : kind ≠ .endOfInput} {p : Parser α}
    {P : α → Prop} (h : Faithful src p P) :
    Faithful src (eachAfter kind ne p) fun as => ∀ a ∈ as, P a := by
  intro s reads
  change KeepsTo src s.problems _ (eachAfterFrom kind ne p s)
  fun_induction eachAfterFrom kind ne p s with
  | case1 s lexer ht =>
    have taken := reads.take kind
    rw [ht] at taken
    exact ⟨taken, rfl, by simp⟩
  | case2 s _ lexer ht e s' hp =>
    have taken := reads.take kind
    rw [ht] at taken
    have item := h { s with lexer } taken
    rwa [hp] at item
  | case3 s _ lexer ht a s₁ hp lt e s₂ hl ih =>
    have taken := reads.take kind
    rw [ht] at taken
    have item := h { s with lexer } taken
    rw [hp] at item
    obtain ⟨reads', silent, _⟩ := item
    have more := ih reads'
    rwa [hl, silent] at more
  | case4 s _ lexer ht a s₁ hp lt as s₂ hl ih =>
    have taken := reads.take kind
    rw [ht] at taken
    have item := h { s with lexer } taken
    rw [hp] at item
    obtain ⟨reads', silent, ha⟩ := item
    have more := ih reads'
    rw [hl, silent] at more
    exact ⟨more.1, more.2.1, List.forall_mem_cons.mpr ⟨ha, more.2.2⟩⟩

theorem Faithful.repeatUntil {done : Parser Bool} {p : Parser α} {progress : p.Progresses}
    {P : α → Prop} (hd : Faithful src done fun _ => True) (h : Faithful src p P) :
    Faithful src (repeatUntil done p progress) fun as => ∀ a ∈ as, P a := by
  intro s reads
  change KeepsTo src s.problems _ (repeatUntilFrom done p progress s)
  fun_induction repeatUntilFrom done p progress s with
  | case1 s e s' eq =>
    have asked := hd s reads
    rwa [eq] at asked
  | case2 s s' eq =>
    have asked := hd s reads
    rw [eq] at asked
    exact ⟨asked.1, asked.2.1, by simp⟩
  | case3 s s₁ eq e s₂ hp =>
    have asked := hd s reads
    rw [eq] at asked
    have item := h s₁ asked.1
    rwa [hp, asked.2.1] at item
  | case4 s s₁ eq a s₂ hp lt e s₃ hl ih =>
    have asked := hd s reads
    rw [eq] at asked
    have item := h s₁ asked.1
    rw [hp, asked.2.1] at item
    have more := ih item.1
    rwa [hl, item.2.1] at more
  | case5 s s₁ eq a s₂ hp lt as s₃ hl ih =>
    have asked := hd s reads
    rw [eq] at asked
    have item := h s₁ asked.1
    rw [hp, asked.2.1] at item
    have more := ih item.1
    rw [hl, item.2.1] at more
    exact ⟨more.1, more.2.1, List.forall_mem_cons.mpr ⟨item.2.2, more.2.2⟩⟩

end Parser

/-! ### Places in statements -/

/-- The segment was read from the source. The name of a property or an object type is not empty and
stands on one line, and that of an object type has a colon in it. -/
def PathSegment.ReadFrom (src : Source) : PathSegment → Prop
  | .plain _ span | .quoted _ span => span.LiesIn src
  | .metaProperty name span => span.LiesIn src ∧ name ≠ "" ∧ '\n' ∉ name.toList
  | .prototype name span => span.LiesIn src ∧ ':' ∈ name.toList ∧ '\n' ∉ name.toList

def ObjectPath.ReadFrom (src : Source) (path : ObjectPath) : Prop :=
  path.Named ∧ ∀ segment ∈ path.segments, segment.ReadFrom src

def Operation.ReadFrom (src : Source) : Operation → Prop
  | .assign value => value.span.LiesIn src
  | .unset span => span.LiesIn src
  | .copy source => source.path.ReadFrom src

mutual

def Statement.ReadFrom (src : Source) : Statement → Prop
  | .inclusion _ span => span.LiesIn src
  | .object path operation none => path.ReadFrom src ∧ ∀ op ∈ operation, op.ReadFrom src
  | .object path operation (some ⟨openBrace, inner, closeBrace⟩) =>
    path.ReadFrom src ∧ (∀ op ∈ operation, op.ReadFrom src) ∧ openBrace.LiesIn src ∧
      Statement.AllReadFrom src inner ∧ closeBrace.LiesIn src

def Statement.AllReadFrom (src : Source) : List Statement → Prop
  | [] => True
  | s :: rest => s.ReadFrom src ∧ Statement.AllReadFrom src rest

end

theorem Statement.allReadFrom_iff {src : Source} {ss : List Statement} :
    Statement.AllReadFrom src ss ↔ ∀ s ∈ ss, s.ReadFrom src := by
  induction ss with
  | nil => simp [AllReadFrom]
  | cons s rest ih => rw [AllReadFrom, ih, List.forall_mem_cons]

theorem PathSegment.ReadFrom.liesIn {src : Source} {segment : PathSegment}
    (h : segment.ReadFrom src) : segment.span.LiesIn src := by
  cases segment with
  | metaProperty | prototype => exact h.1
  | _ => exact h

theorem ObjectPath.ReadFrom.liesIn {src : Source} {path : ObjectPath} (h : path.ReadFrom src) :
    path.span.LiesIn src := by
  obtain ⟨named, read⟩ := h
  unfold ObjectPath.span
  split
  · rename_i empty
    exact absurd empty named
  · rename_i first more hs
    have hfirst : first.span.LiesIn src := (read first (by simp [hs])).liesIn
    split
    · exact hfirst
    · rename_i last hlast
      have mem := List.mem_of_getLast? hlast
      exact hfirst.join (read last (by simp [hs, mem])).liesIn

theorem Operation.ReadFrom.liesIn {src : Source} {op : Operation} (h : op.ReadFrom src) :
    op.span.LiesIn src := by
  cases op with
  | assign => exact h
  | unset => exact h
  | copy => exact ObjectPath.ReadFrom.liesIn h

namespace Parser

variable {src : Source}

theorem line_of_objectName {text lexeme : List Char}
    (h : TokenKind.objectName.lexeme? text = some lexeme) : ':' ∈ lexeme ∧ '\n' ∉ lexeme := by
  obtain ⟨left, right, hl, hr, rfl⟩ := Rule.andThen_eq_some_iff.mp h
  obtain ⟨colon, name, hc, hn, rfl⟩ := Rule.andThen_eq_some_iff.mp hr
  obtain rfl := Rule.eq_of_literal hc
  have noNewline {part text : List Char} (run : Rule.run Rule.isNamePart text = some part) :
      '\n' ∉ part :=
    fun mem => absurd ((Rule.forall_mem_of_run run).2 _ mem) (by decide)
  refine ⟨by simp, fun mem => ?_⟩
  rcases List.mem_append.mp mem with mem | mem
  · exact noNewline hl mem
  · exact noNewline hn (by simpa using mem)

theorem line_of_pathPart {text lexeme : List Char}
    (h : TokenKind.pathPart.lexeme? text = some lexeme) : lexeme ≠ [] ∧ '\n' ∉ lexeme := by
  obtain ⟨ne_nil, part⟩ := Rule.forall_mem_of_run h
  exact ⟨ne_nil, fun mem => absurd (part _ mem) (by decide)⟩

theorem faithful_quotedKey {t : Token} (read : t.ReadFrom src) :
    Faithful src (quotedKey t) (·.ReadFrom src) :=
  faithful_pure read.span

theorem faithful_pathSegment : Faithful src pathSegment (·.ReadFrom src) := by
  refine faithful_onToken (fun start hstart _ => ?_) ?_
  · have name : Faithful src (onToken .objectName pure (failHere .expectedPrototypeName))
        fun t => ':' ∈ t.lexeme ∧ '\n' ∉ t.lexeme := by
      refine faithful_onToken (fun t read same => faithful_pure ?_) (faithful_failHere _)
      obtain ⟨text, h⟩ := read.exists_lexeme? same (by decide)
      exact line_of_objectName h
    refine name.bind fun t hname => (faithful_expect _).bind fun close hclose => faithful_pure ?_
    exact ⟨hstart.span.join hclose.1.span, by simpa [Token.text] using hname⟩
  refine faithful_onToken (fun start hstart _ => ?_) ?_
  · refine (faithful_expect _).bind fun name ⟨read, same⟩ => faithful_pure ?_
    obtain ⟨text, h⟩ := read.exists_lexeme? same (by decide)
    obtain ⟨ne_nil, noNewline⟩ := line_of_pathPart h
    refine ⟨hstart.span.join read.span, fun empty => ne_nil ?_,
      by simpa [Token.text] using noNewline⟩
    simpa [Token.text] using congrArg String.toList empty
  refine faithful_onToken (fun t read _ => faithful_quotedKey read) ?_
  refine faithful_onToken (fun t read _ => faithful_quotedKey read) ?_
  exact faithful_onToken (fun t read _ => faithful_pure read.span) (faithful_failHere _)

theorem faithful_objectPath : Faithful src objectPath (·.ReadFrom src) := by
  refine faithful_pathSegment.bind fun first hfirst => ?_
  refine faithful_pathSegment.eachAfter.bind fun more hmore => faithful_pure ?_
  exact ⟨List.cons_ne_nil first more, List.forall_mem_cons.mpr ⟨hfirst, hmore⟩⟩

theorem faithful_dslValue {identifier : Token} (h : identifier.ReadFrom src) :
    Faithful src (dslValue identifier) (·.span.LiesIn src) :=
  faithful_onToken (fun _ read _ => faithful_pure (h.span.join read.span)) 
    (faithful_fail ⟨h.span, by simp⟩)

theorem faithful_value : Faithful src value (·.span.LiesIn src) := by
  have plain {kind : TokenKind} {toValue : Token → Value} {otherwise : Parser Value}
      (place : ∀ t, (toValue t).span = t.span)
      (ho : Faithful src otherwise (·.span.LiesIn src)) :
      Faithful src (onToken kind (fun t => pure (toValue t)) otherwise) (·.span.LiesIn src) :=
    faithful_onToken (fun t read _ => faithful_pure (by rw [place]; exact read.span)) ho
  exact plain (fun _ => rfl) <| plain (fun _ => rfl) <| plain (fun _ => rfl) <|
    faithful_onToken (fun _ read _ => faithful_dslValue read) <|
    plain (fun _ => rfl) <| plain (fun _ => rfl) <| plain (fun _ => rfl) <|
    plain (fun _ => rfl) <| plain (fun _ => rfl) <| plain (fun _ => rfl) <| faithful_failHere _

theorem faithful_operation? :
    Faithful src operation? fun operation => ∀ op ∈ operation, op.ReadFrom src := by
  refine faithful_onToken (fun _ _ _ => ?_) ?_
  · refine faithful_skipSmallGap.bind fun _ _ => faithful_value.bind fun v hv => faithful_pure ?_
    rintro _ ⟨⟩
    exact hv
  refine faithful_onToken (fun t read _ => faithful_pure ?_) ?_
  · rintro _ ⟨⟩
    exact read.span
  refine faithful_onToken (fun _ _ _ => ?_) (faithful_pure (by simp))
  refine faithful_skipSmallGap.bind fun _ _ => (faithful_take _).bind fun dot _ => ?_
  refine faithful_objectPath.bind fun path hpath => faithful_pure ?_
  rintro _ ⟨⟩
  exact hpath

theorem faithful_endOfStatement (inBlock : Bool) :
    Faithful src (endOfStatement inBlock) fun _ => True := by
  refine faithful_skipSmallGap.bind fun _ _ => (faithful_accept _).bind fun atEnd _ => ?_
  split
  · exact faithful_pure trivial
  · refine (faithful_take _).bind fun newline _ => ?_
    split
    · exact faithful_pure trivial
    · split
      · refine (faithful_accept _).bind fun closes _ => ?_
        split
        · exact faithful_pure trivial
        · exact faithful_failHere _
      · exact faithful_failHere _

theorem faithful_filePattern : Faithful src filePattern fun found => found.2.LiesIn src :=
  faithful_onToken (fun _ read _ => faithful_pure read.span) <|
  faithful_onToken (fun _ read _ => faithful_pure read.span) <|
  faithful_onToken (fun _ read _ => faithful_pure read.span) <| faithful_failHere _

theorem faithful_inclusion (inBlock : Bool) :
    Faithful src (inclusion inBlock) (·.ReadFrom src) := by
  refine (faithful_expect _).bind fun keyword hkeyword => (faithful_take _).bind fun _ _ => ?_
  refine faithful_filePattern.bind fun ⟨pattern, span⟩ hspan => ?_
  refine (faithful_endOfStatement inBlock).bind fun _ _ => ?_
  refine (faithful_noteInclude pattern).bind fun _ _ => faithful_pure ?_
  rw [Statement.ReadFrom]
  exact hkeyword.1.span.join hspan

theorem faithful_block {contents : Option (Parser (List Statement))}
    (h : ∀ p, contents = some p → Faithful src p (Statement.AllReadFrom src)) :
    Faithful src (block contents) fun b =>
      b.openBrace.LiesIn src ∧ Statement.AllReadFrom src b.statements ∧
        b.closeBrace.LiesIn src := by
  refine (faithful_expect _).bind fun openBrace hopen => ?_
  cases contents with
  | none => exact faithful_fail ⟨hopen.1.span, by simp⟩
  | some p =>
    refine (h p rfl).bind fun statements hs => ?_
    exact faithful_onToken (fun closeBrace read _ => faithful_pure ⟨hopen.1.span, hs, read.span⟩)
      (faithful_fail ⟨hopen.1.span, by simp⟩)

theorem faithful_object {inBlock : Bool} {contents : Option (Parser (List Statement))}
    (h : ∀ p, contents = some p → Faithful src p (Statement.AllReadFrom src)) :
    Faithful src (object inBlock contents) (·.ReadFrom src) := by
  refine faithful_objectPath.bind fun path hpath => faithful_skipSmallGap.bind fun _ _ => ?_
  refine faithful_getLexer.bind fun afterPath reads => ?_
  refine faithful_operation?.bind fun operation hop => faithful_skipSmallGap.bind fun _ _ => ?_
  refine (faithful_accept _).bind fun opens _ => ?_
  split
  · refine (faithful_block h).bind fun b hb => faithful_pure ?_
    rw [Statement.ReadFrom]
    exact ⟨hpath, hop, hb⟩
  · cases operation with
    | none => exact faithful_fail ⟨reads.liesIn_charSpan _, by simp⟩
    | some op =>
      refine (faithful_endOfStatement inBlock).bind fun _ _ => faithful_pure ?_
      rw [Statement.ReadFrom]
      exact ⟨hpath, hop⟩

theorem faithful_acceptAny (kinds : List TokenKind) :
    Faithful src (acceptAny kinds) fun _ => True := by
  induction kinds with
  | nil => exact faithful_pure trivial
  | cons kind kinds ih =>
    refine (faithful_accept kind).bind fun accepted _ => ?_
    split
    · exact faithful_pure trivial
    · exact ih

theorem faithful_statement {inBlock : Bool} {contents : Option (Parser (List Statement))}
    (h : ∀ p, contents = some p → Faithful src p (Statement.AllReadFrom src)) :
    Faithful src (statement inBlock contents) (·.ReadFrom src) := by
  refine (faithful_accept _).bind fun isInclude _ => ?_
  split
  · exact faithful_inclusion inBlock
  · refine (faithful_acceptAny _).bind fun isObject _ => ?_
    split
    · exact faithful_object h
    · exact faithful_failHere _

theorem faithful_endOfStatements (inBlock : Bool) :
    Faithful src (endOfStatements inBlock) fun _ => True := by
  refine faithful_skipBigGap.bind fun _ _ => (faithful_accept _).bind fun atEnd _ => ?_
  split
  · exact faithful_pure trivial
  · split
    · exact faithful_accept _
    · exact faithful_pure trivial

theorem Faithful.repeatUntil_statements {inBlock : Bool} {p : Parser Statement}
    {progress : p.Progresses} (h : Faithful src p (·.ReadFrom src)) :
    Faithful src (Parser.repeatUntil (endOfStatements inBlock) p progress)
      (Statement.AllReadFrom src) := by
  have each : Faithful src (Parser.repeatUntil (endOfStatements inBlock) p progress)
      fun ss => ∀ s ∈ ss, s.ReadFrom src :=
    Faithful.repeatUntil (faithful_endOfStatements inBlock) h
  simpa only [← Statement.allReadFrom_iff] using each

theorem faithful_statements (room : Nat) (inBlock : Bool) :
    Faithful src (statements room inBlock) (Statement.AllReadFrom src) := by
  induction room generalizing inBlock with
  | zero => exact (faithful_statement fun _ hp => by cases hp).repeatUntil_statements
  | succ room ih =>
    refine (faithful_statement fun p hp => ?_).repeatUntil_statements
    cases hp
    exact ih true

theorem faithful_document :
    Faithful src document fun d => Statement.AllReadFrom src d.statements := by
  refine (faithful_statements maxNesting false).bind fun statements hs => ?_
  exact faithful_getLexer.bind fun lexer _ => faithful_pure hs

end Parser

/-- A source is read without a problem, into statements whose places lie in it; or it is not, and
then exactly one problem is reported, which is one of the source. -/
theorem Source.parse_faithful (src : Source) :
    match src.parse with
    | .ok document r => r.problems = [] ∧ Statement.AllReadFrom src document.statements
    | .error e r => r.problems = [e] ∧ e.IsOf src := by
  have faithful := Parser.faithful_document { lexer := Lexer.ofSource src }
    (Lexer.reads_ofSource src)
  change Parser.KeepsTo src [] _ src.parse at faithful
  cases h : src.parse with
  | ok document r =>
    rw [h] at faithful
    exact faithful.2
  | error e r =>
    rw [h] at faithful
    exact ⟨faithful.2, faithful.1⟩

end FusionTree
