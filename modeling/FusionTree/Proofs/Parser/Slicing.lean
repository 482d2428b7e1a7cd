import FusionTree.Proofs.Parser.Mirroring

/-!
# No slice is out of range

The reader of sources by slices is in step with the parser, from the segments of a path up to a
whole document. As it never comes to nothing, every slice that it takes is one. -/

namespace FusionTree

open Text

namespace Slicer

variable {α β : Type} {src : Source}

theorem inner?_of_enclosed {kind : TokenKind} {t : Token} {m : Mark} {quote : Char}
    (h : t.Marked src kind m) (one : quote.utf8Size = 1) (enclosed : Rule.Enclosed quote t.lexeme) :
    m.inner? 1 = some (t.inner 1) := by
  obtain ⟨inner, eq⟩ := enclosed
  have size : byteLength [quote] = 1 := by simp [one]
  have cut : m.inner? (byteLength [quote]) = some inner := h.inner? eq size
  rw [size] at cut
  rw [cut, Token.inner, eq]
  simp

theorem mirrors_quotedKey {kind : TokenKind} {t : Token} {m : Mark} {quote : Char}
    (h : t.Marked src kind m) (one : quote.utf8Size = 1) (enclosed : Rule.Enclosed quote t.lexeme) :
    Mirrors src (quotedKey m) (Parser.quotedKey t) Eq := by
  refine Mirrors.cut (inner?_of_enclosed h one enclosed) (mirrors_pure ?_)
  rw [h.span_eq]

theorem mirrors_pathSegment : Mirrors src pathSegment Parser.pathSegment Eq := by
  refine mirrors_onToken (fun start m hs => ?prototype) <|
    mirrors_onToken (fun start m hs => ?metaProperty) <|
    mirrors_onToken (fun t m h => mirrors_quotedKey h rfl (h.shape (by decide))) <|
    mirrors_onToken (fun t m h => mirrors_quotedKey h rfl (h.shape (by decide))) <|
    mirrors_onToken (fun t m h => ?plain) <| mirrors_failHere _
  case prototype =>
    have named : Mirrors src (onToken .objectName pure (failHere .expectedPrototypeName))
        (Parser.onToken .objectName pure (Parser.failHere .expectedPrototypeName))
        (Token.Marked src .objectName) :=
      mirrors_onToken (fun t m h => mirrors_pure h) (mirrors_failHere _)
    refine named.bind fun name n hn => (mirrors_expect _).bind fun close c hc => ?_
    refine .cut hn.text? <| .cut (hs.join? (hc.span_eq ▸ hc.source_eq)) <| mirrors_pure ?_
    rw [hc.span_eq, Token.text]
  case metaProperty =>
    refine (mirrors_expect _).bind fun name n hn => ?_
    refine .cut hn.text? <| .cut (hs.join? (hn.span_eq ▸ hn.source_eq)) <| mirrors_pure ?_
    rw [hn.span_eq, Token.text]
  case plain =>
    refine .cut h.text? <| mirrors_pure ?_
    rw [h.span_eq, Token.text]

theorem mirrors_objectPath : Mirrors src objectPath Parser.objectPath Eq := by
  refine mirrors_pathSegment.bind fun first _ same => ?_
  refine (Mirrors.eachAfter mirrors_pathSegment).bind fun more _ same' => mirrors_pure ?_
  rw [same, same']

theorem mirrors_dslValue {identifier : Token} {m : Mark}
    (h : identifier.Marked src .dslStart m) :
    Mirrors src (dslValue m) (Parser.dslValue identifier) Eq := by
  refine mirrors_onToken (fun code c hc => ?_) ?_
  · refine .cut (inner?_of_enclosed hc rfl (hc.shape (by decide))) <| .cut h.text? <|
      .cut (h.join? (hc.span_eq ▸ hc.source_eq)) <| mirrors_pure ?_
    rw [hc.span_eq, Token.text]
  · refine .cut h.text? ?_
    rw [h.span_eq]
    exact mirrors_fail _ _

theorem mirrors_value : Mirrors src value Parser.value Eq := by
  refine mirrors_onToken (fun t m h => ?single) <| mirrors_onToken (fun t m h => ?double) <|
    mirrors_onToken (fun t m h => ?objectName) <|
    mirrors_onToken (fun t m h => mirrors_dslValue h) <| mirrors_onToken (fun t m h => ?eel) <|
    mirrors_onToken (fun t m h => ?float) <| mirrors_onToken (fun t m h => ?integer) <|
    mirrors_onToken (fun t m h => mirrors_pure (by rw [h.span_eq])) <|
    mirrors_onToken (fun t m h => mirrors_pure (by rw [h.span_eq])) <|
    mirrors_onToken (fun t m h => mirrors_pure (by rw [h.span_eq])) <| mirrors_failHere _
  case single | double =>
    refine .cut (inner?_of_enclosed h rfl (h.shape (by decide))) <| mirrors_pure ?_
    rw [h.span_eq]
  case eel =>
    obtain ⟨code, eq⟩ : ∃ code, t.lexeme = '$' :: '\x7b' :: (code ++ ['\x7d']) :=
      h.shape (by decide)
    have cut : m.inner? (byteLength ['$', '\x7b']) = some code := h.inner? eq rfl
    refine .cut cut <| mirrors_pure ?_
    rw [h.span_eq, Token.inner, eq]
    simp
  case objectName =>
    refine .cut h.text? <| mirrors_pure ?_
    rw [h.span_eq, Token.text]
  case float | integer =>
    refine .cut h.text? <| mirrors_pure ?_
    rw [h.span_eq]

theorem mirrors_operation? : Mirrors src operation? Parser.operation? Eq := by
  refine mirrors_onToken (fun t m h => ?assign) <|
    mirrors_onToken (fun t m h => mirrors_pure (by rw [h.span_eq])) <|
    mirrors_onToken (fun t m h => ?copy) <| mirrors_pure rfl
  case assign =>
    refine mirrors_skipSmallGap.bind fun _ _ _ => mirrors_value.bind fun v _ same => ?_
    exact mirrors_pure (by rw [same])
  case copy =>
    refine mirrors_skipSmallGap.bind fun _ _ _ => (mirrors_take _).bind fun dot dot' marked => ?_
    refine mirrors_objectPath.bind fun path _ same => mirrors_pure ?_
    have relative : dot.isSome = dot'.isSome := by cases marked <;> rfl
    rw [same, relative]

theorem mirrors_ite {P : α → β → Prop} {b : Bool} {q q' : Slicer β} {p p' : Parser α}
    (ht : Mirrors src q p P) (he : Mirrors src q' p' P) :
    Mirrors src (if b then q else q') (if b then p else p') P := by
  cases b
  · exact he
  · exact ht

theorem mirrors_endOfStatement (inBlock : Bool) :
    Mirrors src (endOfStatement inBlock) (Parser.endOfStatement inBlock) Eq := by
  refine mirrors_skipSmallGap.bind fun _ _ _ => (mirrors_accept _).bind fun ended _ same => ?_
  subst same
  refine mirrors_ite (mirrors_pure rfl) ((mirrors_take _).bind fun newline newline' marked => ?_)
  have same : newline.isSome = newline'.isSome := by cases marked <;> rfl
  rw [same]
  refine mirrors_ite (mirrors_pure rfl) (mirrors_ite ?_ (mirrors_failHere _))
  refine (mirrors_accept _).bind fun closes _ same => ?_
  subst same
  exact mirrors_ite (mirrors_pure rfl) (mirrors_failHere _)

theorem mirrors_filePattern : Mirrors src filePattern Parser.filePattern
    fun x y => x = y ∧ y.2.source = src := by
  refine mirrors_onToken (fun t m h => ?quoted) <| mirrors_onToken (fun t m h => ?quoted') <|
    mirrors_onToken (fun t m h => ?plain) <| mirrors_failHere _
  case quoted | quoted' =>
    refine .cut (inner?_of_enclosed h rfl (h.shape (by decide))) <| mirrors_pure ?_
    rw [h.span_eq]
    exact ⟨rfl, h.source_eq⟩
  case plain =>
    refine .cut h.text? <| mirrors_pure ?_
    rw [h.span_eq]
    exact ⟨rfl, h.source_eq⟩

theorem mirrors_inclusion (inBlock : Bool) :
    Mirrors src (inclusion inBlock) (Parser.inclusion inBlock) Eq := by
  refine (mirrors_expect _).bind fun keyword k hk => (mirrors_take _).bind fun _ _ _ => ?_
  refine mirrors_filePattern.bind fun ⟨pattern, place⟩ _ ⟨same, source⟩ => ?_
  subst same
  refine (mirrors_endOfStatement inBlock).bind fun _ _ _ => ?_
  refine (mirrors_noteInclude pattern).bind fun _ _ _ => ?_
  exact .cut (hk.join? source) (mirrors_pure rfl)

/-- The readers of what may stand in a block are in step, or there is none on both sides. -/
abbrev MirrorsContents (src : Source) (contents' : Option (Slicer (List Statement)))
    (contents : Option (Parser (List Statement))) : Prop :=
  Option.Rel (fun q p => Mirrors src q p Eq) contents' contents

variable {contents' : Option (Slicer (List Statement))}
variable {contents : Option (Parser (List Statement))}

theorem mirrors_block (hc : MirrorsContents src contents' contents) :
    Mirrors src (block contents') (Parser.block contents) Eq := by
  refine (mirrors_expect _).bind fun openBrace o ho => ?_
  cases hc with
  | none =>
    rw [ho.span_eq]
    exact mirrors_fail _ _
  | some inner =>
    refine inner.bind fun ss _ same => ?_
    subst same
    rw [ho.span_eq]
    refine mirrors_onToken (fun closeBrace c hb => mirrors_pure ?_) (mirrors_fail _ _)
    rw [hb.span_eq]

theorem mirrors_object (inBlock : Bool) (hc : MirrorsContents src contents' contents) :
    Mirrors src (object inBlock contents') (Parser.object inBlock contents) Eq := by
  refine mirrors_objectPath.bind fun path _ same => mirrors_skipSmallGap.bind fun _ _ _ => ?_
  subst same
  refine mirrors_get.bind fun afterPath s ⟨before, follows, cursor, _⟩ => ?_
  refine mirrors_operation?.bind fun operation _ same => mirrors_skipSmallGap.bind fun _ _ _ => ?_
  subst same
  refine (mirrors_accept _).bind fun opens _ same => ?_
  subst same
  refine mirrors_ite ((mirrors_block hc).bind fun b _ same => mirrors_pure (by rw [same])) ?_
  cases operation with
  | none =>
    rw [cursor]
    exact .charSpan follows (mirrors_fail _ _)
  | some op => exact (mirrors_endOfStatement inBlock).bind fun _ _ _ => mirrors_pure rfl

theorem mirrors_acceptAny (kinds : List TokenKind) :
    Mirrors src (acceptAny kinds) (Parser.acceptAny kinds) Eq := by
  induction kinds with
  | nil => exact mirrors_pure rfl
  | cons kind kinds ih =>
    refine (mirrors_accept kind).bind fun accepted _ same => ?_
    subst same
    exact mirrors_ite (mirrors_pure rfl) ih

theorem mirrors_statement (inBlock : Bool) (hc : MirrorsContents src contents' contents) :
    Mirrors src (statement inBlock contents') (Parser.statement inBlock contents) Eq := by
  refine (mirrors_accept _).bind fun isInclude _ same => ?_
  subst same
  refine mirrors_ite (mirrors_inclusion inBlock) ?_
  refine (mirrors_acceptAny _).bind fun isObject _ same => ?_
  subst same
  exact mirrors_ite (mirrors_object inBlock hc) (mirrors_failHere _)

theorem mirrors_endOfStatements (inBlock : Bool) :
    Mirrors src (endOfStatements inBlock) (Parser.endOfStatements inBlock) Eq := by
  refine mirrors_skipBigGap.bind fun _ _ _ => (mirrors_accept _).bind fun ended _ same => ?_
  subst same
  exact mirrors_ite (mirrors_pure rfl) (mirrors_ite (mirrors_accept _) (mirrors_pure rfl))

theorem mirrors_statements (room : Nat) (inBlock : Bool) :
    Mirrors src (statements room inBlock) (Parser.statements room inBlock) Eq := by
  induction room generalizing inBlock with
  | zero => exact .repeatUntil (mirrors_endOfStatements _) (mirrors_statement inBlock .none)
  | succ room ih =>
    exact .repeatUntil (mirrors_endOfStatements _) (mirrors_statement inBlock (.some (ih true)))

theorem mirrors_document : Mirrors src document Parser.document Eq := by
  refine (mirrors_statements maxNesting false).bind fun ss _ same => ?_
  subst same
  refine mirrors_get.bind fun lexer reached ⟨before, follows, _, source⟩ s hs => ?_
  obtain ⟨_, follows'⟩ := id hs
  have there := src.new?_whole
  have read : run (span 0 src.size) s.marks = some (.ok (src.piece [] src.text), s.marks) := by
    have same : s.marks.source = src := follows'.source
    rw [span, run_bind, run_get]
    dsimp only
    rw [same, there, run_cut_some]
  rw [source, follows.source, run_bind, read, Lexer.span, follows.source, there]
  exact ⟨hs, _, rfl, rfl⟩

end Slicer

/-- No slice is out of range: the reader by slices, which comes to nothing as soon as a slice that
it takes is out of range or cuts a character, a range is none of the source, or two ranges to be
joined are of different sources, comes to what the parser comes to, whatever the source holds. -/
theorem Source.parse_by_slices (src : Source) :
    Slicer.run Slicer.document { source := src } =
      some (match src.parse with
        | .ok document r => (.ok document, r.marks)
        | .error problem r => (.error problem, r.marks)) := by
  have same := Slicer.mirrors_document { lexer := Lexer.ofSource src }
    ⟨[], Lexer.follows_ofSource src⟩
  change Slicer.Answers src (Slicer.run Slicer.document { source := src }) src.parse Eq at same
  cases parsed : src.parse with
  | ok document r =>
    rw [parsed] at same
    obtain ⟨_, _, ran, rfl⟩ := same
    exact ran
  | error problem r =>
    rw [parsed] at same
    exact same

end FusionTree
