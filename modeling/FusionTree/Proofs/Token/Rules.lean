import FusionTree.Token.Rule

/-!
# What token rules match

A lexeme is a piece of the input: whatever a rule matches stands at the head of the text that the
rule was given.
-/

namespace FusionTree

namespace Rule

/-- Whatever the rule matches stands at the head of the text. -/
def MatchesHead (rule : List Char → Option (List Char)) : Prop :=
  ∀ text lexeme, rule text = some lexeme → lexeme <+: text

theorem matchesHead_literal (word : List Char) : MatchesHead (literal word) := by
  intro text lexeme h
  unfold literal at h
  split at h
  · rename_i isPrefix
    obtain rfl := Option.some.inj h
    exact List.isPrefixOf_iff_prefix.mp isPrefix
  · cases h

theorem run_eq_some_iff {p : Char → Bool} {text lexeme : List Char} :
    run p text = some lexeme ↔ text.takeWhile p = lexeme ∧ lexeme ≠ [] := by
  unfold run
  split
  · rename_i h
    simp only [h, reduceCtorEq, false_iff]
    rintro ⟨rfl, ne⟩
    exact ne rfl
  · rename_i ne
    constructor
    · rintro ⟨⟩
      exact ⟨rfl, ne⟩
    · rintro ⟨rfl, _⟩
      rfl

theorem matchesHead_run (p : Char → Bool) : MatchesHead (run p) := by
  intro text lexeme h
  obtain ⟨rfl, _⟩ := run_eq_some_iff.mp h
  exact List.takeWhile_prefix p

theorem matchesHead_takeWhile (p : Char → Bool) :
    MatchesHead fun text => some (text.takeWhile p) := by
  intro text lexeme h
  obtain rfl := Option.some.inj h
  exact List.takeWhile_prefix p

theorem andThen_eq_some_iff {first second : List Char → Option (List Char)}
    {text lexeme : List Char} :
    andThen first second text = some lexeme ↔
      ∃ left right, first text = some left ∧ second (after left text) = some right ∧
        lexeme = left ++ right := by
  simp only [andThen, bind, Option.bind_eq_some_iff, pure, Option.some.injEq]
  constructor
  · rintro ⟨left, hl, right, hr, rfl⟩
    exact ⟨left, right, hl, hr, rfl⟩
  · rintro ⟨left, right, hl, hr, rfl⟩
    exact ⟨left, hl, right, hr, rfl⟩

@[simp] theorem after_append (lexeme rest : List Char) : after lexeme (lexeme ++ rest) = rest :=
  List.drop_left

theorem MatchesHead.andThen {first second : List Char → Option (List Char)}
    (hf : MatchesHead first) (hs : MatchesHead second) : MatchesHead (andThen first second) := by
  intro text lexeme h
  obtain ⟨left, right, hl, hr, rfl⟩ := andThen_eq_some_iff.mp h
  obtain ⟨rest, rfl⟩ := hf _ _ hl
  rw [after_append] at hr
  exact (List.prefix_append_right_inj left).mpr (hs _ _ hr)

theorem matchesHead_throughCommentEnd : MatchesHead throughCommentEnd := by
  intro text
  fun_induction throughCommentEnd text with
  | case1 => simp
  | case2 rest =>
    rintro _ ⟨⟩
    exact ⟨rest, rfl⟩
  | case3 c rest _ ih =>
    intro lexeme h
    obtain ⟨more, hm, rfl⟩ := Option.map_eq_some_iff.mp h
    exact List.cons_prefix_cons.mpr ⟨rfl, ih _ hm⟩

theorem matchesHead_digits (limit : Nat) : MatchesHead (digits limit) := by
  intro text lexeme h
  obtain ⟨all, hall, rfl⟩ := Option.map_eq_some_iff.mp h
  exact (List.take_prefix limit all).trans (matchesHead_run _ _ _ hall)

theorem matchesHead_shortDigits (limit : Nat) : MatchesHead (shortDigits limit) := by
  intro text lexeme h
  exact matchesHead_run _ _ _ (Option.filter_eq_some_iff.mp h).1

theorem matchesHead_sign : MatchesHead sign := by
  intro text lexeme h
  unfold sign at h
  split at h
  · rename_i minus
    obtain ⟨rest, rfl⟩ := List.head?_eq_some_iff.mp minus
    cases h
    exact ⟨rest, rfl⟩
  · cases h
    exact List.nil_prefix

theorem matchesHead_throughQuote (quote : Char) : MatchesHead (throughQuote quote) := by
  intro text
  fun_induction throughQuote quote text with
  | case1 => simp
  | case2 => simp
  | case3 => simp
  | case4 c rest _ ih =>
    intro lexeme h
    obtain ⟨more, hm, rfl⟩ := Option.map_eq_some_iff.mp h
    exact List.cons_prefix_cons.mpr ⟨rfl, List.cons_prefix_cons.mpr ⟨rfl, ih _ hm⟩⟩
  | case5 rest =>
    rintro _ ⟨⟩
    exact ⟨rest, rfl⟩
  | case6 c rest _ _ _ ih =>
    intro lexeme h
    obtain ⟨more, hm, rfl⟩ := Option.map_eq_some_iff.mp h
    exact List.cons_prefix_cons.mpr ⟨rfl, ih _ hm⟩

theorem matchesHead_quoted (quote : Char) : MatchesHead (quoted quote) :=
  (matchesHead_literal _).andThen (matchesHead_throughQuote quote)

theorem matchesHead_throughClosingBrace (depth : Nat) (quote : Option Char) :
    MatchesHead (throughClosingBrace depth quote) := by
  intro text
  have cons {c : Char} {rest lexeme : List Char} {more : Option (List Char)}
      (ih : ∀ l, more = some l → l <+: rest) (h : more.map (c :: ·) = some lexeme) :
      lexeme <+: c :: rest := by
    obtain ⟨l, hl, rfl⟩ := Option.map_eq_some_iff.mp h
    exact List.cons_prefix_cons.mpr ⟨rfl, ih l hl⟩
  fun_induction throughClosingBrace depth quote text with
  | case1 => simp
  | case2 => simp
  | case3 depth q escaped rest ih =>
    intro lexeme h
    obtain ⟨l, hl, rfl⟩ := Option.map_eq_some_iff.mp h
    exact List.cons_prefix_cons.mpr ⟨rfl, List.cons_prefix_cons.mpr ⟨rfl, ih _ hl⟩⟩
  | case6 rest =>
    rintro _ ⟨⟩
    exact ⟨rest, rfl⟩
  | _ =>
    rename_i ih
    exact fun _ => cons ih

theorem matchesHead_dslStart : MatchesHead dslStart := by
  intro text lexeme h
  simp only [dslStart, bind, Option.bind_eq_some_iff] at h
  obtain ⟨name, hn, h⟩ := h
  split at h
  · cases h
    exact matchesHead_run _ _ _ hn
  · cases h

theorem matchesHead_either (lower upper : String) : MatchesHead (either lower upper) := by
  intro text lexeme h
  rw [either, Option.orElse_eq_orElse, Option.orElse_eq_or, Option.or_eq_some_iff] at h
  rcases h with h | ⟨_, h⟩
  · exact matchesHead_literal _ _ _ h
  · exact matchesHead_literal _ _ _ h

end Rule

open Rule in
theorem TokenKind.matchesHead_lexeme? (kind : TokenKind) : MatchesHead kind.lexeme? := by
  cases kind with
  | endOfInput => intro text lexeme h; cases h
  | slashComment => exact (matchesHead_literal _).andThen (matchesHead_takeWhile _)
  | hashComment => exact (matchesHead_literal _).andThen (matchesHead_takeWhile _)
  | blockComment => exact (matchesHead_literal _).andThen matchesHead_throughCommentEnd
  | newline => exact matchesHead_run _
  | space => exact matchesHead_run _
  | trueLiteral => exact matchesHead_either _ _
  | falseLiteral => exact matchesHead_either _ _
  | nullLiteral => exact matchesHead_either _ _
  | integer => exact matchesHead_sign.andThen (matchesHead_digits 19)
  | float =>
    exact matchesHead_sign.andThen <| (matchesHead_shortDigits 14).andThen <|
      (matchesHead_literal _).andThen (matchesHead_digits 14)
  | doubleQuoted => exact matchesHead_quoted _
  | singleQuoted => exact matchesHead_quoted _
  | dslStart => exact matchesHead_dslStart
  | dslCode =>
    exact (matchesHead_literal _).andThen <| (matchesHead_takeWhile _).andThen <|
      matchesHead_literal _
  | eel => exact (matchesHead_literal _).andThen (matchesHead_throughClosingBrace 0 none)
  | objectName =>
    exact (matchesHead_run _).andThen <| (matchesHead_literal _).andThen (matchesHead_run _)
  | inclusion =>
    exact (matchesHead_literal _).andThen <| (matchesHead_takeWhile _).andThen <|
      matchesHead_literal _
  | pathPart => exact matchesHead_run _
  | filePattern => exact matchesHead_run _
  | _ => exact matchesHead_literal _

end FusionTree
