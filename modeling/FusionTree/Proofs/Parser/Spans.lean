import FusionTree.Proofs.Parser.Consuming
import FusionTree.Proofs.Parser.ValueRoundTrip

/-!
# Spans tell the truth

A range `Marks` what is said of its text if it is one of the source and the text under it is so. In
a source that is read the span of every path, of every segment of a path and of every value marks
the text that it was read from, and that text spells it. -/

namespace FusionTree

open Text
open Rule (RunOf Numeral Fraction isDigit isPathPart)

/-! ### What parts of the syntax are written with -/

/-- The text is what the segment is written with. -/
def PathSegment.Spells : PathSegment → List Char → Prop
  | plain key _, text => RunOf isPathPart text ∧ text = key.toList
  | quoted key _, text => ∃ quote inner, (quote = '"' ∨ quote = '\'') ∧
      text = quote :: (inner ++ [quote]) ∧ key = String.ofList (stripSlashes inner)
  | metaProperty name _, text => text = '@' :: name.toList
  | prototype name _, text => text = "prototype(".toList ++ (name.toList ++ [')'])

def Value.Spells : Value → List Char → Prop
  | string value _, text =>
    ∃ inner, text = '\'' :: (inner ++ ['\'']) ∧ value = String.ofList (stripSlashes inner) ∨
      text = '"' :: (inner ++ ['"']) ∧ value = String.ofList (stripCSlashes inner)
  | int value _, text =>
    ∃ digits, RunOf isDigit digits ∧ (text = digits ∧ value = saturate (decimalValue digits) ∨
      text = '-' :: digits ∧ value = saturate (-decimalValue digits))
  | float value _, text =>
    ∃ minus whole places, (minus = [] ∨ minus = ['-']) ∧ RunOf isDigit whole ∧
      RunOf isDigit places ∧ text = minus ++ (whole ++ '.' :: places) ∧
      value = Binary64.ofDecimal (minus = ['-']) (decimalValue (whole ++ places)) places.length
  | bool true _, text => text = "true".toList ∨ text = "TRUE".toList
  | bool false _, text => text = "false".toList ∨ text = "FALSE".toList
  | null _, text => text = "null".toList ∨ text = "NULL".toList
  | objectName name _, text => text = name.toList
  | eel code _, text => text = '$' :: '\x7b' :: (code.toList ++ ['\x7d'])
  | dsl identifier code _, text => text = identifier.toList ++ '\x60' :: (code.toList ++ ['\x60'])

def InclusionSpells (pattern : String) (text : List Char) : Prop :=
  ∃ blanks spaces written, (∀ c ∈ blanks, isBlank c = true) ∧
    text = "include".toList ++ (blanks ++ ':' :: (spaces ++ written)) ∧
    (written = pattern.toList ∨ ∃ quote, (quote = '"' ∨ quote = '\'') ∧
      written = quote :: (pattern.toList ++ [quote]))

theorem PathSegment.Spells.ne_nil {s : PathSegment} {text : List Char} (h : s.Spells text) :
    text ≠ [] := by
  cases s with
  | plain key span => exact h.1.1
  | quoted key span =>
    obtain ⟨quote, inner, _, rfl, _⟩ := h
    exact List.cons_ne_nil _ _
  | metaProperty name span =>
    obtain rfl : text = _ := h
    exact List.cons_ne_nil _ _
  | prototype name span =>
    obtain rfl : text = _ := h
    simp

theorem integerValue_spells {lexeme : List Char} (h : Numeral lexeme) (span : Span) :
    (Value.int (integerValue lexeme) span).Spells lexeme := by
  obtain ⟨minus, digits, rfl | rfl, run, rfl⟩ := h
  · exact ⟨_, run, .inl ⟨rfl, integerValue_of_isDigit run.2⟩⟩
  · exact ⟨digits, run, .inr ⟨rfl, rfl⟩⟩

theorem floatValue_spells {lexeme : List Char} (h : Fraction lexeme) (span : Span) :
    (Value.float (floatValue lexeme) span).Spells lexeme := by
  obtain ⟨minus, whole, places, sign, hw, hp, rfl⟩ := h
  refine ⟨minus, whole, places, sign, hw, hp, rfl, ?_⟩
  have digits : (minus ++ (whole ++ '.' :: places)).filter isDigit = whole ++ places := by
    have noDigit : minus.filter isDigit = [] := by rcases sign with rfl | rfl <;> rfl
    rw [List.filter_append, noDigit, List.filter_append, List.filter_eq_self.mpr hw.2,
      List.filter_cons_of_neg (by decide), List.filter_eq_self.mpr hp.2, List.nil_append]
  have behind : (minus ++ (whole ++ '.' :: places)).dropWhile (· ≠ '.') = '.' :: places := by
    rw [← List.append_assoc, List.dropWhile_append_of_pos]
    · rfl
    · intro c mem
      rw [decide_eq_true_iff]
      rintro rfl
      rcases List.mem_append.mp mem with mem | mem
      · rcases sign with rfl | rfl <;> simp at mem
      · exact absurd (hw.2 '.' mem) (by decide)
  have negative : (minus ++ (whole ++ '.' :: places)).head? = some '-' ↔ minus = ['-'] := by
    rcases sign with rfl | rfl
    · obtain ⟨c, rest, rfl⟩ := List.exists_cons_of_ne_nil hw.1
      have digit : isDigit c = true := hw.2 c (by simp)
      simp only [List.nil_append, List.cons_append, List.head?_cons, Option.some.injEq,
        reduceCtorEq, iff_false]
      rintro rfl
      exact absurd digit (by decide)
    · simp
  simp only [floatValue, digits, behind, negative, List.length_cons, Nat.add_sub_cancel]

/-! ### What ranges say of their text -/

/-- The range is one of the source, and the text under it has the property. -/
def Span.Marks (span : Span) (src : Source) (P : List Char → Prop) : Prop :=
  span.LiesIn src ∧ P span.text

/-- The range is what a text of the source goes on with up to the end of a longer one, and this has
the property. -/
def Span.Covers (span : Span) (src : Source) (before after : List Char) (P : List Char → Prop) :
    Prop :=
  ∃ text, after = before ++ text ∧ span = src.piece before text ∧ P text

namespace Span

variable {span s t : Span} {src : Source} {before mid gap after : List Char}
variable {P Q R : List Char → Prop}

theorem Covers.marks (h : span.Covers src before after P) (le : after <+: src.text) :
    span.Marks src P := by
  obtain ⟨text, rfl, rfl, ht⟩ := h
  obtain ⟨rest, eq⟩ := le
  rw [List.append_assoc] at eq
  exact ⟨Source.liesIn_piece eq.symm, (Source.text_piece eq.symm).symm ▸ ht⟩

theorem Covers.eq_append (h : span.Covers src before after P) (le : after <+: src.text) :
    after = before ++ span.text := by
  obtain ⟨text, rfl, rfl, _⟩ := h
  obtain ⟨rest, eq⟩ := le
  rw [List.append_assoc] at eq
  rw [Source.text_piece eq.symm]

theorem Covers.start_eq (h : span.Covers src before after P) : span.start = byteLength before := by
  obtain ⟨text, _, rfl, _⟩ := h
  rfl

theorem Covers.stop_eq (h : span.Covers src before after P) : span.stop = byteLength after := by
  obtain ⟨text, rfl, rfl, _⟩ := h
  simp

theorem Covers.start_lt_stop (h : span.Covers src before after P)
    (ne_nil : ∀ text, P text → text ≠ []) : span.start < span.stop := by
  obtain ⟨text, rfl, rfl, ht⟩ := h
  have := byteLength_pos (ne_nil text ht)
  simp only [Source.start_piece, Source.stop_piece]
  omega

theorem Covers.isPrefix (h : span.Covers src before after P) : before <+: after := by
  obtain ⟨text, rfl, _⟩ := h
  exact List.prefix_append _ _

theorem Covers.mono (h : span.Covers src before after P) (imp : ∀ text, P text → Q text) :
    span.Covers src before after Q := by
  obtain ⟨text, eq, span_eq, ht⟩ := h
  exact ⟨text, eq, span_eq, imp text ht⟩

/-- The range lies behind whatever the text before it goes on from, and not behind the text
after. -/
theorem Covers.between (h : span.Covers src mid after P) (le : before <+: mid) :
    byteLength before ≤ span.start ∧ span.start ≤ span.stop ∧ span.stop ≤ byteLength after := by
  rw [h.start_eq, h.stop_eq]
  exact ⟨byteLength_le_of_isPrefix le, byteLength_le_of_isPrefix h.isPrefix, Nat.le_refl _⟩

/-- Two ranges with a gap between them join to the range of both and the gap. -/
theorem Covers.join (hs : s.Covers src before mid P) (ht : t.Covers src (mid ++ gap) after Q)
    (imp : ∀ first last, P first → Q last → R (first ++ (gap ++ last))) :
    (s.join t).Covers src before after R := by
  obtain ⟨first, rfl, rfl, hf⟩ := hs
  obtain ⟨last, rfl, rfl, hl⟩ := ht
  refine ⟨first ++ (gap ++ last), by simp, ?_, imp first last hf hl⟩
  rw [List.append_assoc, Source.join_piece]

/-- Two ranges one right behind the other join to the range of both. -/
theorem Covers.join_next (hs : s.Covers src before mid P) (ht : t.Covers src mid after Q)
    (imp : ∀ first last, P first → Q last → R (first ++ last)) :
    (s.join t).Covers src before after R := by
  have behind : t.Covers src (mid ++ []) after Q := by rwa [List.append_nil]
  exact hs.join behind imp

end Span

theorem Token.TakenAt.covers {t : Token} {src : Source} {before : List Char} {kind : TokenKind}
    (h : t.TakenAt src before kind) :
    t.span.Covers src before (before ++ t.lexeme) (· = t.lexeme) :=
  ⟨t.lexeme, rfl, h.span, rfl⟩

/-! ### Segments and values -/

namespace Parser

variable {src : Source} {before : List Char}

theorem takes_quotedKey {t : Token} {kind : TokenKind} {quote : Char}
    (h : t.TakenAt src before kind) (delimiter : quote = '"' ∨ quote = '\'')
    (enclosed : Rule.Enclosed quote t.lexeme) :
    Takes src (before ++ t.lexeme) (quotedKey t) fun after s =>
      s.span.Covers src before after s.Spells := by
  obtain ⟨inner, eq⟩ := enclosed
  refine takes_pure (h.covers.mono ?_)
  rintro _ rfl
  exact ⟨quote, inner, delimiter, eq, by rw [Token.inner_of_lexeme eq]⟩

theorem takes_pathSegment :
    Takes src before pathSegment fun after s => s.span.Covers src before after s.Spells := by
  refine takes_onToken (fun start hs => ?prototype) <| takes_onToken (fun start hs => ?metaProperty)
    <| takes_onToken (fun t ht => takes_quotedKey ht (.inl rfl) (ht.shape (by decide)))
    <| takes_onToken (fun t ht => takes_quotedKey ht (.inr rfl) (ht.shape (by decide)))
    <| takes_onToken (fun t ht => takes_pure (ht.covers.mono ?plain))
    <| takes_failHere _
  case prototype =>
    have opening : start.lexeme = "prototype(".toList := hs.shape (by decide)
    have named : Takes src (before ++ start.lexeme)
        (onToken .objectName pure (failHere .expectedPrototypeName)) fun after name =>
          after = before ++ start.lexeme ++ name.lexeme :=
      takes_onToken (fun name _ => takes_pure rfl) (takes_failHere _)
    refine named.bind fun _ name _ same => (takes_expect _).bind fun _ close _ hc => takes_pure ?_
    obtain ⟨rfl, hc⟩ := hc
    have closing : close.lexeme = [')'] := hc.shape (by decide)
    subst same
    refine hs.covers.join hc.covers ?_
    rintro _ _ rfl rfl
    rw [opening, closing]
    simp [PathSegment.Spells, Token.text]
  case metaProperty =>
    have at_sign : start.lexeme = ['@'] := hs.shape (by decide)
    refine (takes_expect _).bind fun _ name _ hn => takes_pure ?_
    obtain ⟨rfl, hn⟩ := hn
    refine hs.covers.join_next hn.covers ?_
    rintro _ _ rfl rfl
    rw [at_sign]
    simp [PathSegment.Spells, Token.text]
  case plain =>
    rintro _ rfl
    exact ⟨ht.shape (by decide), by simp [Token.text]⟩

theorem takes_value :
    Takes src before value fun after v => v.span.Covers src before after v.Spells := by
  refine takes_onToken (fun t ht => takes_pure (ht.covers.mono ?single))
    <| takes_onToken (fun t ht => takes_pure (ht.covers.mono ?double))
    <| takes_onToken (fun t ht => takes_pure (ht.covers.mono ?objectName))
    <| takes_onToken (fun identifier hi => ?dsl)
    <| takes_onToken (fun t ht => takes_pure (ht.covers.mono ?eel))
    <| takes_onToken (fun t ht => takes_pure (ht.covers.mono ?float))
    <| takes_onToken (fun t ht => takes_pure (ht.covers.mono ?int))
    <| takes_onToken (fun t ht => takes_pure (ht.covers.mono ?yes))
    <| takes_onToken (fun t ht => takes_pure (ht.covers.mono ?no))
    <| takes_onToken (fun t ht => takes_pure (ht.covers.mono ?null))
    <| takes_failHere _
  case single =>
    rintro _ rfl
    obtain ⟨inner, eq⟩ : Rule.Enclosed '\'' t.lexeme := ht.shape (by decide)
    exact ⟨inner, .inl ⟨eq, by rw [Token.inner_of_lexeme eq]⟩⟩
  case double =>
    rintro _ rfl
    obtain ⟨inner, eq⟩ : Rule.Enclosed '"' t.lexeme := ht.shape (by decide)
    exact ⟨inner, .inr ⟨eq, by rw [Token.inner_of_lexeme eq]⟩⟩
  case objectName =>
    rintro _ rfl
    simp [Value.Spells, Token.text]
  case dsl =>
    refine takes_onToken (fun code hc => takes_pure ?_) (takes_fail _ _)
    obtain ⟨inner, eq⟩ : Rule.Enclosed '\x60' code.lexeme := hc.shape (by decide)
    refine hi.covers.join_next hc.covers ?_
    rintro _ _ rfl rfl
    simp [Value.Spells, Token.text, Token.inner_of_lexeme eq, eq]
  case eel =>
    rintro _ rfl
    obtain ⟨code, eq⟩ : ∃ code, t.lexeme = '$' :: '\x7b' :: (code ++ ['\x7d']) :=
      ht.shape (by decide)
    simp [Value.Spells, Token.inner, eq]
  case float =>
    rintro _ rfl
    exact floatValue_spells (ht.shape (by decide)) _
  case int =>
    rintro _ rfl
    exact integerValue_spells (ht.shape (by decide)) _
  case yes | no | null =>
    rintro _ rfl
    exact ht.shape (by decide)

end Parser

/-! ### Paths -/

/-- The spans of a path tell the truth: those of its segments, which come in their order, and that
of the whole, under which the segments stand with dots between them. -/
structure ObjectPath.Truthful (src : Source) (p : ObjectPath) : Prop where
  named : p.segments ≠ []
  segments : ∀ s ∈ p.segments, s.span.Marks src s.Spells
  apart : p.segments.Pairwise fun s t => s.span.stop < t.span.start
  span : p.span.Marks src (· = ['.'].intercalate (p.segments.map (·.span.text)))

abbrev PathSegment.Covers (src : Source) (before after : List Char) (s : PathSegment) : Prop :=
  s.span.Covers src before after s.Spells

theorem intercalate_cons {sep text : List Char} {texts : List (List Char)} :
    sep.intercalate (text :: texts) = text ++ (texts.map (sep ++ ·)).flatten := by
  induction texts generalizing text with
  | nil => simp [List.intercalate]
  | cons next texts ih =>
    simp only [List.intercalate, List.intersperse_cons_cons, List.flatten_cons] at ih ⊢
    rw [ih]
    simp

namespace Parser

variable {src : Source} {before mid after : List Char} {first last : PathSegment}
variable {more : List PathSegment}

namespace EachBehind

theorem isPrefix (h : EachBehind .dot (PathSegment.Covers src) before after more) :
    before <+: after := by
  induction h with
  | nil => exact List.prefix_rfl
  | cons marked item rest ih =>
    obtain ⟨text, rfl, _⟩ := item
    exact ((List.prefix_append _ _).trans (List.prefix_append _ _)).trans ih

theorem eq_append (h : EachBehind .dot (PathSegment.Covers src) before after more)
    (le : after <+: src.text) :
    after = before ++ (more.map fun s => '.' :: s.span.text).flatten := by
  induction h with
  | nil => simp
  | @cons before mark between after s more marked item rest ih =>
    obtain rfl : mark = ['.'] := marked
    rw [ih le, item.eq_append (rest.isPrefix.trans le)]
    simp

theorem ordered (h : EachBehind .dot (PathSegment.Covers src) before after more)
    (le : after <+: src.text) :
    (∀ s ∈ more, s.span.Marks src s.Spells ∧ byteLength before < s.span.start) ∧
      more.Pairwise fun s t => s.span.stop < t.span.start := by
  induction h with
  | nil => exact ⟨nofun, .nil⟩
  | @cons before mark between after s more marked item rest ih =>
    obtain ⟨inOrder, apart⟩ := ih le
    obtain rfl : mark = ['.'] := marked
    have start : byteLength before < s.span.start := by
      rw [item.start_eq, byteLength_append]
      exact Nat.lt_add_of_pos_right (by decide)
    have further : s.span.start ≤ byteLength between :=
      item.start_eq ▸ byteLength_le_of_isPrefix item.isPrefix
    constructor
    · intro t mem
      rcases List.mem_cons.mp mem with rfl | mem
      · exact ⟨item.marks (rest.isPrefix.trans le), start⟩
      · have := (inOrder t mem).2
        exact ⟨(inOrder t mem).1, by omega⟩
    · refine .cons (fun t mem => ?_) apart
      rw [item.stop_eq]
      exact (inOrder t mem).2

theorem exists_last (h : EachBehind .dot (PathSegment.Covers src) before after more)
    (last_eq : more.getLast? = some last) :
    ∃ start, before <+: start ∧ last.Covers src start after := by
  induction h with
  | nil => cases last_eq
  | @cons before mark between after s more marked item rest ih =>
    cases rest with
    | nil =>
      obtain rfl : s = last := by simpa using last_eq
      exact ⟨before ++ mark, List.prefix_append _ _, item⟩
    | cons marked' item' rest' =>
      obtain ⟨start, le, covers⟩ := ih (by simpa using last_eq)
      exact ⟨start, (List.prefix_append _ _).trans (item.isPrefix.trans le), covers⟩

end EachBehind

theorem covers_of_eachBehind (hf : first.Covers src before mid)
    (hm : EachBehind .dot (PathSegment.Covers src) mid after more) :
    (⟨first :: more⟩ : ObjectPath).span.Covers src before after fun text => text ≠ [] := by
  simp only [ObjectPath.span]
  split
  · rename_i nothing
    obtain rfl : more = [] := List.getLast?_eq_none_iff.mp nothing
    cases hm
    exact hf.mono fun _ => PathSegment.Spells.ne_nil
  · rename_i last_eq
    obtain ⟨start, ⟨gap, rfl⟩, covers⟩ := hm.exists_last last_eq
    refine hf.join covers fun text _ hs _ => ?_
    exact List.append_ne_nil_of_left_ne_nil hs.ne_nil _

theorem truthful_of_eachBehind (le : after <+: src.text) (hf : first.Covers src before mid)
    (hm : EachBehind .dot (PathSegment.Covers src) mid after more) :
    ObjectPath.Truthful src ⟨first :: more⟩ := by
  obtain ⟨inOrder, apart⟩ := hm.ordered le
  have marks := hf.marks (hm.isPrefix.trans le)
  refine ⟨List.cons_ne_nil _ _, ?_, ?_, ?_⟩
  · intro s mem
    rcases List.mem_cons.mp mem with rfl | mem
    · exact marks
    · exact (inOrder s mem).1
  · refine .cons (fun t mem => ?_) apart
    rw [hf.stop_eq]
    exact (inOrder t mem).2
  · have covers := covers_of_eachBehind hf hm
    have all : before ++ (⟨first :: more⟩ : ObjectPath).span.text =
        before ++ (first.span.text ++ (more.map fun s => '.' :: s.span.text).flatten) := by
      rw [← covers.eq_append le, hm.eq_append le, hf.eq_append (hm.isPrefix.trans le),
        List.append_assoc]
    refine ⟨(covers.marks le).1, ?_⟩
    rw [List.append_cancel_left all, List.map_cons, intercalate_cons, List.map_map]
    rfl

theorem takes_objectPath : Takes src before objectPath fun after p =>
    p.Truthful src ∧ p.span.Covers src before after fun text => text ≠ [] := by
  refine takes_pathSegment.bind fun mid first _ hf => ?_
  refine (Takes.eachAfter fun _ => takes_pathSegment).inSource.bind fun after more _ h => ?_
  obtain ⟨le, hm⟩ := h
  refine takes_pure ?_
  exact ⟨truthful_of_eachBehind le hf hm, covers_of_eachBehind hf hm⟩

end Parser

end FusionTree
