import FusionTree.Proofs.Parser.Spans

/-!
# Extents of statements

A statement extends from its path, or from the keyword of an inclusion, to its last part. In a
source that is read statements come in their order and apart from each other; those of a block stand
between its braces, and path, operation and block of a statement follow one another. Together with
what the spans say of their texts, this makes every span of a document one that tells the truth. -/

namespace FusionTree

open Text

/-- The spans of an operation tell the truth; a copy source that is seen from the parent of the
target has a dot right before it. -/
def Operation.Truthful (src : Source) : Operation → Prop
  | assign value => value.span.Marks src value.Spells
  | unset span => span.Marks src (· = ['>'])
  | copy source => source.path.Truthful src ∧ (source.relative = true →
      ∃ dot : Span, dot.Marks src (· = ['.']) ∧ dot.stop = source.path.span.start)

namespace Statement

def HeadTruthful (src : Source) (path : ObjectPath) (operation : Option Operation) : Prop :=
  path.Truthful src ∧ ∀ op ∈ operation, op.Truthful src ∧ path.span.stop ≤ op.span.start

def headStop (path : ObjectPath) (operation : Option Operation) : Nat :=
  match operation with
  | none => path.span.stop
  | some op => op.span.stop

/-- Where the statement ends. It starts where its span does. -/
def stop : Statement → Nat
  | inclusion _ span => span.stop
  | object path operation none => headStop path operation
  | object _ _ (some block) => block.closeBrace.stop

mutual

/-- The spans of the statement tell the truth, and its parts come one after the other, those of its
block between the braces. -/
def Truthful (src : Source) : Statement → Prop
  | .inclusion pattern span => span.Marks src (InclusionSpells pattern)
  | .object path operation none => HeadTruthful src path operation
  | .object path operation (some ⟨openBrace, inner, closeBrace⟩) =>
    HeadTruthful src path operation ∧ headStop path operation ≤ openBrace.start ∧
      openBrace.Marks src (· = ['\x7b']) ∧ closeBrace.Marks src (· = ['\x7d']) ∧
      AllTruthful src openBrace.stop inner closeBrace.start

/-- The spans of the statements tell the truth, and the statements come one after the other between
the two offsets. -/
def AllTruthful (src : Source) (first : Nat) : List Statement → (last : Nat) → Prop
  | [], last => first ≤ last
  | s :: rest, last =>
    s.Truthful src ∧ first ≤ s.span.start ∧ s.span.start < s.stop ∧
      AllTruthful src s.stop rest last

end

def TruthfulBetween (src : Source) (before after : List Char) (s : Statement) : Prop :=
  s.Truthful src ∧ byteLength before ≤ s.span.start ∧ s.span.start < s.stop ∧
    s.stop ≤ byteLength after

theorem AllTruthful.le {src : Source} {ss : List Statement} {first first' last last' : Nat}
    (h : AllTruthful src first ss last) (hf : first' ≤ first) (hl : last ≤ last') :
    AllTruthful src first' ss last' := by
  induction ss generalizing first first' with
  | nil =>
    rw [AllTruthful] at h ⊢
    omega
  | cons s rest ih =>
    rw [AllTruthful] at h ⊢
    obtain ⟨truthful, start, stop, others⟩ := h
    exact ⟨truthful, Nat.le_trans hf start, stop, ih others (Nat.le_refl _)⟩

/-- Statements between two offsets leave these in their order. -/
theorem AllTruthful.first_le_last {src : Source} {ss : List Statement} {first last : Nat}
    (h : AllTruthful src first ss last) : first ≤ last := by
  induction ss generalizing first with
  | nil => rwa [AllTruthful] at h
  | cons s rest ih =>
    rw [AllTruthful] at h
    obtain ⟨_, start, stop, others⟩ := h
    have := ih others
    omega

/-- Where the operation is read behind the path, both stand before what comes next. -/
theorem HeadTruthful.of_operation {src : Source} {path : ObjectPath} {operation : Option Operation}
    {behindPath behind : Nat} (hp : path.Truthful src) (stop : path.span.stop ≤ behindPath)
    (le : behindPath ≤ behind)
    (ho : ∀ op ∈ operation, op.Truthful src ∧ behindPath ≤ op.span.start ∧
      op.span.start ≤ op.span.stop ∧ op.span.stop ≤ behind) :
    HeadTruthful src path operation ∧ path.span.stop ≤ headStop path operation ∧
      headStop path operation ≤ behind := by
  cases operation with
  | none =>
    simp only [HeadTruthful, headStop]
    exact ⟨⟨hp, nofun⟩, Nat.le_refl _, Nat.le_trans stop le⟩
  | some op =>
    obtain ⟨truthful, start, nonempty, stop'⟩ := ho op rfl
    refine ⟨⟨hp, ?_⟩, ?_, stop'⟩
    · rintro _ ⟨⟩
      exact ⟨truthful, Nat.le_trans stop start⟩
    · rw [headStop]
      omega

end Statement

namespace Parser

variable {src : Source} {before after : List Char}

theorem takes_operation? : Takes src before operation? fun after operation =>
    ∀ op ∈ operation, op.Truthful src ∧ byteLength before ≤ op.span.start ∧
      op.span.start ≤ op.span.stop ∧ op.span.stop ≤ byteLength after := by
  refine takes_onToken (fun sign _ => ?assign) <| takes_onToken (fun sign hs => ?unset) <|
    takes_onToken (fun sign _ => ?copy) <| takes_pure nofun
  case assign =>
    refine takes_skipSmallGap.bind fun mid _ further _ => ?_
    refine takes_value.inSource.bind fun after v _ ⟨le, hv⟩ => takes_pure ?_
    rintro _ ⟨⟩
    exact ⟨hv.marks le, hv.between ((List.prefix_append _ _).trans further)⟩
  case unset =>
    refine (takes_pure (Q := fun after op => after = before ++ sign.lexeme ∧
      op = some (.unset sign.span)) ⟨rfl, rfl⟩).mono ?_
    rintro _ _ _ le ⟨rfl, rfl⟩ _ ⟨⟩
    have lexeme : sign.lexeme = ['>'] := hs.shape (by decide)
    exact ⟨(hs.covers.mono fun _ eq => eq.trans lexeme).marks le,
      hs.covers.between List.prefix_rfl⟩
  case copy =>
    refine takes_skipSmallGap.bind fun mid _ further _ => ?_
    refine (takes_take .dot).bind fun start dot onwards hd => ?_
    refine takes_objectPath.inSource.bind fun after p _ ⟨le, hp, covers⟩ => takes_pure ?_
    rintro _ ⟨⟩
    refine ⟨⟨hp, fun relative => ?_⟩, covers.between
      ((List.prefix_append _ _).trans (further.trans onwards))⟩
    obtain ⟨t, rfl⟩ := Option.isSome_iff_exists.mp relative
    obtain ⟨rfl, taken⟩ := hd
    have lexeme : t.lexeme = ['.'] := taken.shape (by decide)
    exact ⟨t.span, (taken.covers.mono fun _ eq => eq.trans lexeme).marks (covers.isPrefix.trans le),
      taken.covers.stop_eq.trans covers.start_eq.symm⟩

theorem takes_filePattern : Takes src before filePattern fun after p =>
    p.2.Covers src before after fun written => written = p.1.toList ∨
      ∃ quote, (quote = '"' ∨ quote = '\'') ∧ written = quote :: (p.1.toList ++ [quote]) := by
  have quoted {t : Token} {kind : TokenKind} {quote : Char} (h : t.TakenAt src before kind)
      (delimiter : quote = '"' ∨ quote = '\'') (enclosed : Rule.Enclosed quote t.lexeme) :
      t.span.Covers src before (before ++ t.lexeme) fun written =>
        written = (String.ofList (t.inner 1)).toList ∨ ∃ quote, (quote = '"' ∨ quote = '\'') ∧
          written = quote :: ((String.ofList (t.inner 1)).toList ++ [quote]) := by
    obtain ⟨inner, eq⟩ := enclosed
    refine h.covers.mono ?_
    rintro _ rfl
    exact .inr ⟨quote, delimiter, by rw [Token.inner_of_lexeme eq, String.toList_ofList, eq]⟩
  refine takes_onToken (fun t ht => takes_pure (quoted ht (.inl rfl) (ht.shape (by decide)))) <|
    takes_onToken (fun t ht => takes_pure (quoted ht (.inr rfl) (ht.shape (by decide)))) <|
    takes_onToken (fun t ht => takes_pure (ht.covers.mono ?_)) <| takes_failHere _
  rintro _ rfl
  exact .inl (by simp [Token.text])

theorem takes_endOfStatement (inBlock : Bool) :
    Takes src before (endOfStatement inBlock) fun _ _ => True := by
  refine takes_skipSmallGap.bind fun _ _ _ _ => (takes_accept _).bind fun _ ended _ _ => ?_
  split
  · exact takes_pure trivial
  refine (takes_take _).bind fun _ newline _ _ => ?_
  split
  · exact takes_pure trivial
  split
  · refine (takes_accept _).bind fun _ closes _ _ => ?_
    split
    · exact takes_pure trivial
    · exact takes_failHere _
  · exact takes_failHere _

theorem takes_inclusion (inBlock : Bool) :
    Takes src before (inclusion inBlock) (Statement.TruthfulBetween src before) := by
  refine (takes_expect _).bind fun _ keyword _ ⟨same, hk⟩ => ?_
  refine (takes_take _).bind fun start _ onwards _ => ?_
  refine takes_filePattern.bind fun mid ⟨pattern, span⟩ _ covers => ?_
  refine (takes_endOfStatement inBlock).inSource.bind fun after _ further ⟨le, _⟩ => ?_
  refine (takes_noteInclude pattern).bind fun _ _ _ same' => takes_pure ?_
  subst same same'
  obtain ⟨spaces, rfl⟩ := onwards
  obtain ⟨blanks, blank, lexeme⟩ : ∃ blanks, (∀ c ∈ blanks, isBlank c = true) ∧
    keyword.lexeme = "include".toList ++ (blanks ++ [':']) := hk.shape (by decide)
  have all : (keyword.span.join span).Covers src before mid (InclusionSpells pattern) := by
    refine hk.covers.join covers ?_
    rintro _ written rfl spelled
    exact ⟨blanks, spaces, written, blank, by simp [lexeme], spelled⟩
  have ne_nil : ∀ text, InclusionSpells pattern text → text ≠ [] := by
    rintro _ ⟨_, _, _, _, rfl, _⟩
    simp
  obtain ⟨start, _, stop⟩ := all.between List.prefix_rfl
  exact ⟨by rw [Statement.Truthful]; exact all.marks (further.trans le), start,
    all.start_lt_stop ne_nil, Nat.le_trans stop (byteLength_le_of_isPrefix further)⟩

def TakesTruthful (src : Source) (contents : Option (Parser (List Statement))) : Prop :=
  ∀ p, contents = some p → ∀ before, Takes src before p fun after ss =>
    Statement.AllTruthful src (byteLength before) ss (byteLength after)

variable {contents : Option (Parser (List Statement))}

theorem takes_block (hc : TakesTruthful src contents) :
    Takes src before (block contents) fun after b =>
      byteLength before ≤ b.openBrace.start ∧ b.openBrace.Marks src (· = ['\x7b']) ∧
        b.closeBrace.Marks src (· = ['\x7d']) ∧
        Statement.AllTruthful src b.openBrace.stop b.statements b.closeBrace.start ∧
        b.closeBrace.start < b.closeBrace.stop ∧ b.closeBrace.stop ≤ byteLength after := by
  refine (takes_expect _).bind fun _ openBrace _ ⟨same, ho⟩ => ?_
  subst same
  cases contents with
  | none => exact takes_fail _ _
  | some p =>
    refine (hc p rfl _).bind fun mid ss further truthful => ?_
    refine takes_onToken (fun closeBrace hb => ?_) (takes_fail _ _)
    refine (takes_pure (Q := fun after b => after = mid ++ closeBrace.lexeme ∧
      b = ⟨openBrace.span, ss, closeBrace.span⟩) ⟨rfl, rfl⟩).mono ?_
    rintro _ _ _ le ⟨rfl, rfl⟩
    have opening : openBrace.lexeme = ['\x7b'] := ho.shape (by decide)
    have closing : closeBrace.lexeme = ['\x7d'] := hb.shape (by decide)
    have opens := ho.covers.mono fun _ eq => eq.trans opening
    have closes := hb.covers.mono fun _ eq => eq.trans closing
    refine ⟨(opens.between List.prefix_rfl).1,
      opens.marks (further.trans (closes.isPrefix.trans le)), closes.marks le, ?_,
      closes.start_lt_stop (by rintro _ rfl; exact List.cons_ne_nil _ _),
      (closes.between List.prefix_rfl).2.2⟩
    rwa [opens.stop_eq, closes.start_eq]

theorem takes_object (inBlock : Bool) (hc : TakesTruthful src contents) :
    Takes src before (object inBlock contents) (Statement.TruthfulBetween src before) := by
  refine takes_objectPath.bind fun behindPath path _ ⟨hp, covers⟩ => ?_
  refine takes_skipSmallGap.bind fun _ _ further₁ _ => ?_
  refine takes_getLexer.bind fun _ afterPath _ ⟨same, _⟩ => ?_
  subst same
  refine takes_operation?.bind fun behindOperation operation further₂ ho => ?_
  have start := (covers.between List.prefix_rfl).1
  have nonempty : path.span.start < path.span.stop := covers.start_lt_stop fun _ ne_nil => ne_nil
  have pathStop := covers.stop_eq
  have le₁ := byteLength_le_of_isPrefix further₁
  have le₂ := byteLength_le_of_isPrefix further₂
  obtain ⟨truthful, headStop, headLe⟩ :=
    Statement.HeadTruthful.of_operation hp (pathStop ▸ le₁) le₂ ho
  refine takes_skipSmallGap.bind fun behindGap _ further₃ _ => ?_
  have le₃ := byteLength_le_of_isPrefix further₃
  refine (takes_accept _).bind fun _ opens _ same => ?_
  subst same
  split
  · refine (takes_block hc).bind fun _ b _ ⟨openStart, ho, hc, inner, closes, stop⟩ =>
      takes_pure ?_
    obtain ⟨openBrace, ss, closeBrace⟩ := b
    have order := inner.first_le_last
    have open_le := (Span.liesIn_iff.mp ho.1).2.1
    refine ⟨?_, start, ?_, stop⟩
    · rw [Statement.Truthful]
      exact ⟨truthful, by simp only at openStart; omega, ho, hc, inner⟩
    · simp only [Statement.span, Statement.stop]
      simp only at openStart closes order open_le
      omega
  · cases operation with
    | none => exact takes_fail _ _
    | some op =>
      refine (takes_endOfStatement inBlock).bind fun _ _ further₄ _ => takes_pure ?_
      have le₄ := byteLength_le_of_isPrefix further₄
      refine ⟨by rwa [Statement.Truthful], start, ?_, ?_⟩
      · simp only [Statement.span, Statement.stop]
        omega
      · simp only [Statement.stop]
        omega

theorem takes_acceptAny (kinds : List TokenKind) :
    Takes src before (acceptAny kinds) fun after _ => after = before := by
  induction kinds with
  | nil => exact takes_pure rfl
  | cons kind kinds ih =>
    refine (takes_accept kind).bind fun _ accepted _ same => ?_
    subst same
    split
    · exact takes_pure rfl
    · exact ih

theorem takes_statement (inBlock : Bool) (hc : TakesTruthful src contents) :
    Takes src before (statement inBlock contents) (Statement.TruthfulBetween src before) := by
  refine (takes_accept _).bind fun _ isInclude _ same => ?_
  subst same
  split
  · exact takes_inclusion inBlock
  · refine (takes_acceptAny _).bind fun _ isObject _ same => ?_
    subst same
    split
    · exact takes_object inBlock hc
    · exact takes_failHere _

theorem takes_endOfStatements (inBlock : Bool) :
    Takes src before (endOfStatements inBlock) fun _ _ => True := by
  refine takes_skipBigGap.bind fun _ _ _ _ => (takes_accept _).bind fun _ ended _ _ => ?_
  split
  · exact takes_pure trivial
  split
  · exact (takes_accept _).mono fun _ _ _ _ _ => trivial
  · exact takes_pure trivial

theorem InTurn.allTruthful {ss : List Statement}
    (h : InTurn (Statement.TruthfulBetween src) before after ss) :
    Statement.AllTruthful src (byteLength before) ss (byteLength after) := by
  induction h with
  | nil gap =>
    rw [Statement.AllTruthful]
    exact byteLength_le_of_isPrefix gap
  | cons gap item rest ih =>
    obtain ⟨truthful, start, order, stop⟩ := item
    rw [Statement.AllTruthful]
    exact ⟨truthful, Nat.le_trans (byteLength_le_of_isPrefix gap) start, order,
      ih.le stop (Nat.le_refl _)⟩

theorem takes_repeatUntil_statement {inBlock : Bool} {contents : Option (Parser (List Statement))}
    (hc : TakesTruthful src contents) :
    Takes src before
      (repeatUntil (endOfStatements inBlock) (statement inBlock contents)
        (progresses_statement _ _)) fun after ss =>
      Statement.AllTruthful src (byteLength before) ss (byteLength after) :=
  (Takes.repeatUntil (fun _ => takes_endOfStatements inBlock) fun _ =>
    takes_statement inBlock hc).mono fun _ _ _ _ inTurn => inTurn.allTruthful

theorem takes_statements (room : Nat) (inBlock : Bool) :
    Takes src before (statements room inBlock) fun after ss =>
      Statement.AllTruthful src (byteLength before) ss (byteLength after) := by
  induction room generalizing inBlock before with
  | zero => exact takes_repeatUntil_statement fun _ hp => by cases hp
  | succ room ih =>
    refine takes_repeatUntil_statement fun p hp before => ?_
    cases hp
    exact ih true

theorem takesTruthful_contentsIn (room : Nat) : TakesTruthful src (contentsIn room) := by
  intro p eq before
  cases room with
  | zero => cases eq
  | succ room =>
    cases eq
    exact takes_statements room true

end Parser

/-- The spans of the whole and of every part tell the truth, and the statements come one after the
other. -/
structure Document.Truthful (src : Source) (d : Document) : Prop where
  span : d.span.Marks src (· = src.text)
  statements : Statement.AllTruthful src 0 d.statements src.size

theorem Parser.takes_document {src : Source} :
    Takes src [] document fun _ d => d.Truthful src := by
  refine (takes_statements maxNesting false).inSource.bind fun after ss _ ⟨le, truthful⟩ => ?_
  refine takes_getLexer.bind fun _ lexer _ ⟨_, source⟩ => takes_pure ⟨?_, ?_⟩
  · have whole : (src.piece [] src.text).Covers src [] src.text (· = src.text) :=
      ⟨src.text, rfl, rfl, rfl⟩
    rw [Lexer.span, source, src.new?_whole]
    exact whole.marks List.prefix_rfl
  · exact truthful.le (Nat.zero_le _) (byteLength_le_of_isPrefix le)

/-- Spans tell the truth: in every source that is read, each span is a range of the source that cuts
no character and has the text that its part of the syntax was read from, sibling statements do not
overlap and come in their order, those of a block between its braces, and path, operation and block
of a statement follow one another. -/
theorem Source.spans_truthful {src : Source} {document : Document} {r : Reading}
    (h : src.parse = .ok document r) : document.Truthful src := by
  obtain ⟨_, _, _, truthful⟩ :=
    Parser.takes_document { lexer := Lexer.ofSource src } document r (Lexer.follows_ofSource src) h
  exact truthful

def Source.extents (src : Source) : List (Nat × Nat) :=
  match src.parse with
  | .ok document _ => document.statements.map fun s => (s.span.start, s.stop)
  | .error .. => []

/-- An assignment with a block, and a comment behind it. -/
theorem Source.spans_truthful_of_assignment_and_block :
    let src := Source.ofString "a.'é' = 7 \x7b\n  @c < .d\n\x7d\n# e\n" none
    src.extents = [(0, 24)] ∧
      ∃ document reading, src.parse = .ok document reading ∧ document.Truthful src := by
  intro src
  have extents : src.extents = [(0, 24)] := by decide +kernel
  refine ⟨extents, ?_⟩
  cases parsed : src.parse with
  | ok document reading => exact ⟨document, reading, rfl, spans_truthful parsed⟩
  | error problem reading =>
    rw [Source.extents, parsed] at extents
    cases extents

end FusionTree
