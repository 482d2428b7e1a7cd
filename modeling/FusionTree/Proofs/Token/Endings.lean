import FusionTree.Parser.Statement
import FusionTree.Proofs.Source.Positions
import FusionTree.Proofs.Token.Lexemes
import FusionTree.Proofs.Token.Patterns

/-!
# Where strings and comments end

A string ends with the first quote that no backslash takes with it, and a block comment with the
first `*/` behind its opening. Nothing else may keep them from being read, so that the rules find
what the patterns of strings and comments describe, in every text.
-/

namespace FusionTree

open Text

/-! ### Strings -/

/-- The text ends with a backslash that has no other one to pair with. -/
def EndsUnpaired (text : List Char) : Prop :=
  ∃ before n, text = before ++ List.replicate (2 * n + 1) '\\' ∧ before.getLast? ≠ some '\\'

def TokenKind.quote? : TokenKind → Option Char
  | doubleQuoted => some '"'
  | singleQuoted => some '\''
  | _ => none

namespace Rule

variable {quote : Char} {p : Char → Prop} {text lexeme inner : List Char}

/-- Every backslash of a run of units begins a pair or is the second of one. -/
theorem Units.not_endsUnpaired (h : Units quote p inner) : ¬EndsUnpaired inner := by
  rintro ⟨before, n, eq, alone⟩
  induction h generalizing before n with
  | nil => simp at eq
  | @plain c rest _ noBackslash _ ih =>
    cases before with
    | nil =>
      rw [List.nil_append, List.replicate_succ] at eq
      exact noBackslash (List.cons.inj eq).1
    | cons d before =>
      obtain ⟨rfl, rfl⟩ := List.cons.inj eq
      refine ih before n rfl fun last => alone ?_
      rw [List.getLast?_cons, last, Option.getD_some]
  | @pair c rest _ _ ih =>
    -- The pair lies in the run of backslashes, around its beginning, or before it.
    match before with
    | [] =>
      cases n with
      | zero => simp at eq
      | succ n =>
        have rest_eq : rest = List.replicate (2 * n + 1) '\\' := by
          rw [List.nil_append, show 2 * (n + 1) + 1 = 2 * n + 1 + 1 + 1 from rfl,
            List.replicate_succ, List.replicate_succ] at eq
          exact (List.cons.inj (List.cons.inj eq).2).2
        exact ih [] n rest_eq (by simp)
    | [d] =>
      obtain ⟨rfl, _⟩ := List.cons.inj eq
      exact alone rfl
    | d :: e :: before =>
      obtain ⟨rfl, tail⟩ := List.cons.inj eq
      obtain ⟨rfl, rfl⟩ := List.cons.inj tail
      refine ih before n rfl fun last => alone ?_
      rw [List.getLast?_cons, List.getLast?_cons, last, Option.getD_some, Option.getD_some]

theorem quoted_eq_some_iff (different : quote ≠ '\\') :
    quoted quote text = some lexeme ↔
      (∃ inner, Units quote (· ≠ '\n') inner ∧ lexeme = quote :: (inner ++ [quote])) ∧
        lexeme <+: text := by
  constructor
  · exact fun h => ⟨exists_units_of_quoted h, matchesHead_quoted quote _ _ h⟩
  · rintro ⟨⟨inner, units, rfl⟩, rest, rfl⟩
    simpa using units.quoted different rest

end Rule

theorem TokenKind.lexeme?_of_quote? {kind : TokenKind} {quote : Char}
    (h : kind.quote? = some quote) : kind.lexeme? = Rule.quoted quote ∧ quote ≠ '\\' := by
  cases kind with
  | doubleQuoted | singleQuoted =>
    cases h
    exact ⟨rfl, by decide⟩
  | _ => cases h

/-! ### Comments -/

/-- A `*/` begins at a byte of the text. -/
def ClosesAt (text : List Char) (start : Nat) : Prop :=
  ∃ before after, text = before ++ '*' :: '/' :: after ∧ byteLength before = start

namespace Rule

variable {text lexeme tail : List Char}

/-- Wherever the text has a `*/`, the rule stops there at the latest. -/
theorem exists_throughCommentEnd (body rest : List Char) :
    ∃ lexeme, throughCommentEnd (body ++ '*' :: '/' :: rest) = some lexeme ∧
      byteLength lexeme ≤ byteLength body + 2 := by
  induction body with
  | nil => exact ⟨['*', '/'], rfl, Nat.le_refl _⟩
  | cons c body ih =>
    obtain ⟨lexeme, found, le⟩ := ih
    rw [List.cons_append, throughCommentEnd.eq_def]
    split
    · contradiction
    · exact ⟨_, rfl, Nat.le_add_left _ _⟩
    · rename_i eq
      obtain ⟨rfl, rfl⟩ := List.cons.inj eq
      refine ⟨c :: lexeme, by rw [found]; rfl, ?_⟩
      simp only [byteLength_cons]
      omega

theorem exists_of_throughCommentEnd (h : throughCommentEnd text = some lexeme) :
    ∃ body, lexeme = body ++ ['*', '/'] := by
  fun_induction throughCommentEnd text generalizing lexeme with
  | case1 => cases h
  | case2 =>
    cases h
    exact ⟨[], rfl⟩
  | case3 c rest _ ih =>
    obtain ⟨more, hm, rfl⟩ := Option.map_eq_some_iff.mp h
    obtain ⟨body, rfl⟩ := ih hm
    exact ⟨c :: body, rfl⟩

/-- Behind the opening of a comment, what closes it begins at the third byte or later. -/
theorem closesAt_opening_iff {start : Nat} :
    ClosesAt ('/' :: '*' :: tail) start ∧ 2 ≤ start ↔
      ∃ body after, tail = body ++ '*' :: '/' :: after ∧ start = byteLength body + 2 := by
  have opening (body : List Char) : byteLength ('/' :: '*' :: body) = byteLength body + 2 := by
    simp only [byteLength_cons]
    have one : '/'.utf8Size = 1 ∧ '*'.utf8Size = 1 := by decide
    omega
  constructor
  · rintro ⟨⟨before, after, eq, rfl⟩, le⟩
    match before with
    | [] => exact absurd le (by decide)
    | [c] =>
      obtain ⟨rfl, _⟩ := List.cons.inj eq
      exact absurd le (by decide)
    | c :: d :: body =>
      obtain ⟨rfl, behind⟩ := List.cons.inj eq
      obtain ⟨rfl, inside⟩ := List.cons.inj behind
      exact ⟨body, after, inside, opening body⟩
  · rintro ⟨body, after, rfl, rfl⟩
    exact ⟨⟨'/' :: '*' :: body, after, rfl, opening body⟩, Nat.le_add_left _ _⟩

theorem not_infix_of_throughCommentEnd {body : List Char}
    (h : throughCommentEnd text = some (body ++ ['*', '/'])) : ¬['*', '/'] <:+: body := by
  rintro ⟨before, after, rfl⟩
  obtain ⟨rest, eq⟩ := matchesHead_throughCommentEnd _ _ h
  obtain ⟨lexeme, found, le⟩ := exists_throughCommentEnd before (after ++ '*' :: '/' :: rest)
  have same : before ++ '*' :: '/' :: (after ++ '*' :: '/' :: rest) = text := by simp [← eq]
  rw [same, h] at found
  obtain rfl := Option.some.inj found
  have two : byteLength ['*', '/'] = 2 := by decide
  simp only [byteLength_append] at le
  omega

/-- What the rule reads is what the pattern of comments describes. -/
theorem blockComment_eq_some_iff_mem :
    TokenKind.blockComment.lexeme? text = some lexeme ↔
      lexeme ∈ Pattern.comment ∧ lexeme <+: text := by
  rw [Pattern.mem_comment_iff]
  constructor
  · intro h
    obtain ⟨_, right, hl, hr, rfl⟩ := andThen_eq_some_iff.mp h
    obtain rfl := eq_of_literal hl
    obtain ⟨body, rfl⟩ := exists_of_throughCommentEnd hr
    exact ⟨⟨body, not_infix_of_throughCommentEnd hr, rfl⟩, TokenKind.matchesHead_lexeme? _ _ _ h⟩
  · rintro ⟨⟨body, noEnd, rfl⟩, rest, rfl⟩
    have read := throughCommentEnd_append noEnd rest
    have whole : '/' :: '*' :: (body ++ ['*', '/']) ++ rest =
        ['/', '*'] ++ (body ++ '*' :: '/' :: rest) := by simp
    rw [whole]
    exact andThen_append (literal_append _ _) read

/-- The first `*/` of the text behind the two bytes of an opening begins at the byte. -/
structure FirstClose (text : List Char) (start : Nat) : Prop where
  closes : ClosesAt text start
  behind : 2 ≤ start
  first : ∀ other, ClosesAt text other → 2 ≤ other → start ≤ other

theorem firstClose_of_blockComment (h : TokenKind.blockComment.lexeme? text = some lexeme) :
    ['/', '*'] <+: text ∧ ∃ start, FirstClose text start ∧ byteLength lexeme = start + 2 := by
  obtain ⟨rest, rfl⟩ := TokenKind.matchesHead_lexeme? _ _ _ h
  obtain ⟨_, right, hl, hr, rfl⟩ := andThen_eq_some_iff.mp h
  obtain rfl := eq_of_literal hl
  obtain ⟨body, rfl⟩ := exists_of_throughCommentEnd hr
  have covered : ['/', '*'] ++ (body ++ ['*', '/']) ++ rest =
      '/' :: '*' :: (body ++ '*' :: '/' :: rest) := by simp
  rw [covered] at hr ⊢
  have two : byteLength ['*', '/'] = 2 := by decide
  obtain ⟨closes, behind⟩ := closesAt_opening_iff.mpr ⟨body, rest, rfl, rfl⟩
  refine ⟨⟨body ++ '*' :: '/' :: rest, rfl⟩, byteLength body + 2, ⟨closes, behind, ?_⟩, ?_⟩
  · intro other closes le
    obtain ⟨later, after, eq, rfl⟩ := closesAt_opening_iff.mp ⟨closes, le⟩
    obtain ⟨lexeme, found, least⟩ := exists_throughCommentEnd later after
    rw [← eq] at found
    obtain rfl := Option.some.inj (hr.symm.trans found)
    rw [byteLength_append] at least
    omega
  · rw [byteLength_append, byteLength_append, two]
    exact Nat.add_comm _ _

theorem exists_blockComment_iff :
    (∃ lexeme, TokenKind.blockComment.lexeme? text = some lexeme) ↔
      ['/', '*'] <+: text ∧ ∃ start, ClosesAt text start ∧ 2 ≤ start := by
  constructor
  · rintro ⟨lexeme, h⟩
    obtain ⟨opening, start, close, _⟩ := firstClose_of_blockComment h
    exact ⟨opening, start, close.closes, close.behind⟩
  · rintro ⟨⟨tail, rfl⟩, start, closes⟩
    obtain ⟨body, after, rfl, _⟩ := closesAt_opening_iff.mp closes
    obtain ⟨right, found, _⟩ := exists_throughCommentEnd body after
    exact ⟨['/', '*'] ++ right, andThen_append (literal_append _ _) found⟩

/-- A comment is read through the first `*/` behind its opening. -/
theorem blockComment_eq_some_iff :
    TokenKind.blockComment.lexeme? text = some lexeme ↔
      ['/', '*'] <+: text ∧ lexeme <+: text ∧
        ∃ start, FirstClose text start ∧ byteLength lexeme = start + 2 := by
  constructor
  · intro h
    obtain ⟨opening, close⟩ := firstClose_of_blockComment h
    exact ⟨opening, TokenKind.matchesHead_lexeme? _ _ _ h, close⟩
  · rintro ⟨opening, isPrefix, start, close, size⟩
    obtain ⟨found, h⟩ := exists_blockComment_iff.mpr ⟨opening, start, close.closes, close.behind⟩
    obtain ⟨_, start', close', size'⟩ := firstClose_of_blockComment h
    have isPrefix' := TokenKind.matchesHead_lexeme? _ _ _ h
    have same : start = start' := Nat.le_antisymm
      (close.first _ close'.closes close'.behind) (close'.first _ close.closes close.behind)
    have there := prefix_of_byteLength_le isPrefix isPrefix' (by omega)
    have back := prefix_of_byteLength_le isPrefix' isPrefix (by omega)
    rw [h, there.eq_of_length_le back.length_le]

end Rule

open Rule in
/-- In every text, the rules of strings read what the pattern of strings describes: a run of units
between two quotes, and it is over with the first quote that may close it. What stands between the
quotes of a token never ends in an unpaired backslash. A block comment is read if and only if the
text begins with the opening and has a `*/` at its third byte or later; it is what the pattern of
comments describes, and goes through the first such `*/`. -/
theorem strings_and_comments_end_where_closed (text : List Char) :
    (∀ kind quote, TokenKind.quote? kind = some quote →
      (∀ lexeme, kind.lexeme? text = some lexeme ↔
        lexeme ∈ Pattern.string quote ∧ lexeme <+: text) ∧
      ((∃ lexeme, kind.lexeme? text = some lexeme) ↔
        ∃ inner rest, Units quote (· ≠ '\n') inner ∧ text = quote :: (inner ++ quote :: rest)) ∧
      (∀ inner rest, Units quote (· ≠ '\n') inner → text = quote :: (inner ++ quote :: rest) →
        kind.lexeme? text = some (quote :: (inner ++ [quote]))) ∧
      ∀ token : Token, kind.lexeme? text = some token.lexeme → ¬EndsUnpaired (token.inner 1)) ∧
    ((∃ lexeme, TokenKind.blockComment.lexeme? text = some lexeme) ↔
      ['/', '*'] <+: text ∧ ∃ start, ClosesAt text start ∧ 2 ≤ start) ∧
    ∀ lexeme,
      (TokenKind.blockComment.lexeme? text = some lexeme ↔
        lexeme ∈ Pattern.comment ∧ lexeme <+: text) ∧
      (TokenKind.blockComment.lexeme? text = some lexeme ↔ ['/', '*'] <+: text ∧ lexeme <+: text ∧
        ∃ start, FirstClose text start ∧ byteLength lexeme = start + 2) := by
  refine ⟨fun kind quote hq => ?_, exists_blockComment_iff,
    fun lexeme => ⟨blockComment_eq_some_iff_mem, blockComment_eq_some_iff⟩⟩
  obtain ⟨rule, different⟩ := TokenKind.lexeme?_of_quote? hq
  rw [rule]
  refine ⟨fun lexeme => ?_, ⟨?_, ?_⟩, ?_, ?_⟩
  · rw [quoted_eq_some_iff different, Pattern.mem_string_iff]
  · rintro ⟨lexeme, h⟩
    obtain ⟨⟨inner, units, rfl⟩, rest, rfl⟩ := (quoted_eq_some_iff different).mp h
    exact ⟨inner, rest, units, by simp⟩
  · rintro ⟨inner, rest, units, rfl⟩
    exact ⟨_, units.quoted different rest⟩
  · rintro inner rest units rfl
    exact units.quoted different rest
  · intro token h
    obtain ⟨inner, units, eq⟩ := exists_units_of_quoted h
    have inside : token.inner 1 = inner := by simp [Token.inner, eq]
    rw [inside]
    exact units.not_endsUnpaired

/-- The quote behind a backslash does not close a string, the one behind a pair of backslashes
does. -/
theorem strings_end_behind_pairs :
    TokenKind.doubleQuoted.quote? = some '"' ∧
      TokenKind.doubleQuoted.lexeme? "\"a\\\"\\\\\" \"".toList =
        some "\"a\\\"\\\\\"".toList := by
  refine ⟨rfl, ?_⟩
  have rules := (strings_and_comments_end_where_closed "\"a\\\"\\\\\" \"".toList).1
    .doubleQuoted '"' rfl
  have units : Rule.Units '"' (· ≠ '\n') ['a', '\\', '"', '\\', '\\'] :=
    .plain (by decide) (by decide) (.pair (by decide) (.pair (by decide) .nil))
  exact rules.2.2.1 _ _ units rfl

end FusionTree
