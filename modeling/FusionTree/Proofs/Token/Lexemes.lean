import FusionTree.Proofs.Token.Matching

/-!
# What lexemes look like

Whatever text a token is read from, its kind tells the shape of its lexeme: which delimiters stand
at its two ends, and what may stand between them. No lexeme is empty.
-/

namespace FusionTree

namespace Rule

/-- Characters of a class, at least one. -/
def RunOf (p : Char → Bool) (lexeme : List Char) : Prop :=
  lexeme ≠ [] ∧ ∀ c ∈ lexeme, p c = true

def Enclosed (quote : Char) (lexeme : List Char) : Prop :=
  ∃ inner, lexeme = quote :: (inner ++ [quote])

/-- Digits, perhaps with a minus sign before them. -/
def Numeral (lexeme : List Char) : Prop :=
  ∃ minus digits, (minus = [] ∨ minus = ['-']) ∧ RunOf isDigit digits ∧ lexeme = minus ++ digits

/-- Digits with a point among them, perhaps with a minus sign before them. -/
def Fraction (lexeme : List Char) : Prop :=
  ∃ minus whole places, (minus = [] ∨ minus = ['-']) ∧ RunOf isDigit whole ∧
    RunOf isDigit places ∧ lexeme = minus ++ (whole ++ '.' :: places)

variable {text lexeme : List Char} {p : Char → Bool}

theorem ne_nil_of_andThen {first second : List Char → Option (List Char)}
    (hf : ∀ left, first text = some left → left ≠ [])
    (h : andThen first second text = some lexeme) : lexeme ≠ [] := by
  obtain ⟨left, right, hl, _, rfl⟩ := andThen_eq_some_iff.mp h
  exact List.append_ne_nil_of_left_ne_nil (hf left hl) right

theorem ne_nil_of_literal {word : List Char} (ne_nil : word ≠ [])
    (h : literal word text = some lexeme) : lexeme ≠ [] := by
  rwa [eq_of_literal h]

theorem ne_nil_of_lineComment {opening : List Char} (ne_nil : opening ≠ [])
    (h : lineComment opening text = some lexeme) : lexeme ≠ [] :=
  ne_nil_of_andThen (fun _ => ne_nil_of_literal ne_nil) h

/-- What goes through to a quote is a run of units with the quote after it. -/
theorem exists_units_of_throughQuote {quote : Char} (h : throughQuote quote text = some lexeme) :
    ∃ inner, Units quote (· ≠ '\n') inner ∧ lexeme = inner ++ [quote] := by
  fun_induction throughQuote quote text generalizing lexeme with
  | case1 => cases h
  | case2 => cases h
  | case3 => cases h
  | case4 c rest noNewline ih =>
    obtain ⟨more, hm, rfl⟩ := Option.map_eq_some_iff.mp h
    obtain ⟨inner, units, rfl⟩ := ih hm
    exact ⟨'\\' :: c :: inner, .pair noNewline units, rfl⟩
  | case5 =>
    cases h
    exact ⟨[], .nil, rfl⟩
  | case6 c rest noPair noEnd noQuote ih =>
    obtain ⟨more, hm, rfl⟩ := Option.map_eq_some_iff.mp h
    obtain ⟨inner, units, rfl⟩ := ih hm
    have noBackslash : c ≠ '\\' := by
      rintro rfl
      cases rest with
      | nil => exact noPair rfl rfl
      | cons d rest => exact noEnd d rest rfl rfl
    exact ⟨c :: inner, .plain noQuote noBackslash units, rfl⟩

theorem exists_units_of_quoted {quote : Char} (h : quoted quote text = some lexeme) :
    ∃ inner, Units quote (· ≠ '\n') inner ∧ lexeme = quote :: (inner ++ [quote]) := by
  obtain ⟨left, right, hl, hr, rfl⟩ := andThen_eq_some_iff.mp h
  obtain rfl := eq_of_literal hl
  obtain ⟨inner, units, rfl⟩ := exists_units_of_throughQuote hr
  exact ⟨inner, units, rfl⟩

theorem enclosed_of_quoted {quote : Char} (h : quoted quote text = some lexeme) :
    Enclosed quote lexeme := by
  obtain ⟨inner, _, eq⟩ := exists_units_of_quoted h
  exact ⟨inner, eq⟩

theorem exists_of_throughClosingBrace {depth : Nat} {quote : Option Char}
    (h : throughClosingBrace depth quote text = some lexeme) :
    ∃ code, lexeme = code ++ ['\x7d'] := by
  have further {c : Char} {more : Option (List Char)} {l : List Char}
      (ih : ∀ l, more = some l → ∃ code, l = code ++ ['\x7d']) (h : more.map (c :: ·) = some l) :
      ∃ code, l = code ++ ['\x7d'] := by
    obtain ⟨l, hl, rfl⟩ := Option.map_eq_some_iff.mp h
    obtain ⟨code, rfl⟩ := ih l hl
    exact ⟨c :: code, rfl⟩
  fun_induction throughClosingBrace depth quote text generalizing lexeme with
  | case1 => cases h
  | case2 => cases h
  | case3 depth q escaped rest ih =>
    obtain ⟨l, hl, rfl⟩ := Option.map_eq_some_iff.mp h
    obtain ⟨code, rfl⟩ := ih hl
    exact ⟨'\\' :: escaped :: code, rfl⟩
  | case6 =>
    cases h
    exact ⟨[], rfl⟩
  | _ =>
    rename_i ih
    exact further (fun _ => ih) h

theorem exists_of_eel (h : eel text = some lexeme) :
    ∃ code, lexeme = '$' :: '\x7b' :: (code ++ ['\x7d']) := by
  obtain ⟨left, right, hl, hr, rfl⟩ := andThen_eq_some_iff.mp h
  obtain rfl := eq_of_literal hl
  obtain ⟨code, rfl⟩ := exists_of_throughClosingBrace hr
  exact ⟨code, rfl⟩

theorem enclosed_of_dslCode (h : dslCode text = some lexeme) : Enclosed '\x60' lexeme := by
  obtain ⟨left, right, hl, hr, rfl⟩ := andThen_eq_some_iff.mp h
  obtain ⟨code, close, _, hc, rfl⟩ := andThen_eq_some_iff.mp hr
  obtain rfl := eq_of_literal hl
  obtain rfl := eq_of_literal hc
  exact ⟨code, rfl⟩

theorem runOf_of_dslStart (h : dslStart text = some lexeme) : RunOf isNamePart lexeme := by
  simp only [dslStart, bind, Option.bind_eq_some_iff] at h
  obtain ⟨taken, hrun, h⟩ := h
  split at h
  · obtain rfl := Option.some.inj h
    exact forall_mem_of_run hrun
  · cases h

theorem minus_of_sign (h : sign text = some lexeme) : lexeme = [] ∨ lexeme = ['-'] := by
  unfold sign at h
  split at h
  · exact .inr (Option.some.inj h).symm
  · exact .inl (Option.some.inj h).symm

theorem runOf_of_digits {limit : Nat} (positive : 0 < limit)
    (h : digits limit text = some lexeme) : RunOf isDigit lexeme := by
  obtain ⟨all, hrun, rfl⟩ := Option.map_eq_some_iff.mp h
  obtain ⟨ne_nil, digits⟩ := forall_mem_of_run hrun
  exact ⟨by simp [ne_nil, Nat.pos_iff_ne_zero.mp positive],
    fun c mem => digits c (List.mem_of_mem_take mem)⟩

theorem numeral_of_integer (h : integer text = some lexeme) : Numeral lexeme := by
  obtain ⟨minus, digits, hm, hd, rfl⟩ := andThen_eq_some_iff.mp h
  exact ⟨minus, digits, minus_of_sign hm, runOf_of_digits (by decide) hd, rfl⟩

theorem fraction_of_float (h : float text = some lexeme) : Fraction lexeme := by
  obtain ⟨minus, _, hm, unsigned, rfl⟩ := andThen_eq_some_iff.mp h
  obtain ⟨whole, _, hw, behind, rfl⟩ := andThen_eq_some_iff.mp unsigned
  obtain ⟨point, places, hp, hd, rfl⟩ := andThen_eq_some_iff.mp behind
  obtain rfl := eq_of_literal hp
  exact ⟨minus, whole, places, minus_of_sign hm,
    forall_mem_of_run (Option.filter_eq_some_iff.mp hw).1, runOf_of_digits (by decide) hd, rfl⟩

theorem eq_of_either {lower upper : String} (h : either lower upper text = some lexeme) :
    lexeme = lower.toList ∨ lexeme = upper.toList := by
  rw [either, Option.orElse_eq_orElse, Option.orElse_eq_or, Option.or_eq_some_iff] at h
  exact h.imp eq_of_literal fun h => eq_of_literal h.2

theorem exists_of_inclusion (h : inclusion text = some lexeme) :
    ∃ blanks, (∀ c ∈ blanks, Text.isBlank c = true) ∧
      lexeme = "include".toList ++ (blanks ++ [':']) := by
  obtain ⟨keyword, _, hk, hr, rfl⟩ := andThen_eq_some_iff.mp h
  obtain ⟨blanks, colon, hb, hc, rfl⟩ := andThen_eq_some_iff.mp hr
  obtain rfl := eq_of_literal hk
  obtain rfl := eq_of_literal hc
  obtain rfl := Option.some.inj hb
  exact ⟨_, List.all_eq_true.mp List.all_takeWhile, rfl⟩

end Rule

open Rule in
def TokenKind.Shape : TokenKind → List Char → Prop
  | endOfInput, _ => False
  | slashComment, lexeme | hashComment, lexeme | blockComment, lexeme => lexeme ≠ []
  | newline, lexeme => RunOf (· == '\n') lexeme
  | space, lexeme => RunOf (fun c => c == ' ' || c == '\t') lexeme
  | trueLiteral, lexeme => lexeme = "true".toList ∨ lexeme = "TRUE".toList
  | falseLiteral, lexeme => lexeme = "false".toList ∨ lexeme = "FALSE".toList
  | nullLiteral, lexeme => lexeme = "null".toList ∨ lexeme = "NULL".toList
  | integer, lexeme => Numeral lexeme
  | float, lexeme => Fraction lexeme
  | doubleQuoted, lexeme => Enclosed '"' lexeme
  | singleQuoted, lexeme => Enclosed '\'' lexeme
  | dslStart, lexeme => RunOf isNamePart lexeme
  | dslCode, lexeme => Enclosed '\x60' lexeme
  | eel, lexeme => ∃ code, lexeme = '$' :: '\x7b' :: (code ++ ['\x7d'])
  | objectName, lexeme => lexeme ≠ []
  | inclusion, lexeme =>
    ∃ blanks, (∀ c ∈ blanks, Text.isBlank c = true) ∧ lexeme = "include".toList ++ (blanks ++ [':'])
  | prototypeStart, lexeme => lexeme = "prototype(".toList
  | pathPart, lexeme => RunOf isPathPart lexeme
  | metaStart, lexeme => lexeme = ['@']
  | filePattern, lexeme => RunOf isFilePattern lexeme
  | assign, lexeme => lexeme = ['=']
  | copy, lexeme => lexeme = ['<']
  | unset, lexeme => lexeme = ['>']
  | dot, lexeme => lexeme = ['.']
  | closeParen, lexeme => lexeme = [')']
  | openBrace, lexeme => lexeme = ['\x7b']
  | closeBrace, lexeme => lexeme = ['\x7d']

namespace TokenKind

open Rule

variable {kind : TokenKind} {text lexeme : List Char}

theorem shape_of_lexeme? (h : kind.lexeme? text = some lexeme) : kind.Shape lexeme := by
  cases kind with
  | endOfInput => cases h
  | slashComment => exact ne_nil_of_lineComment (List.cons_ne_nil _ _) h
  | hashComment => exact ne_nil_of_lineComment (List.cons_ne_nil _ _) h
  | blockComment => exact ne_nil_of_andThen (fun _ => ne_nil_of_literal (by decide)) h
  | newline => exact forall_mem_of_run h
  | space => exact forall_mem_of_run h
  | trueLiteral => exact eq_of_either h
  | falseLiteral => exact eq_of_either h
  | nullLiteral => exact eq_of_either h
  | integer => exact numeral_of_integer h
  | float => exact fraction_of_float h
  | doubleQuoted => exact enclosed_of_quoted h
  | singleQuoted => exact enclosed_of_quoted h
  | dslStart => exact runOf_of_dslStart h
  | dslCode => exact enclosed_of_dslCode h
  | eel => exact exists_of_eel h
  | objectName => exact ne_nil_of_andThen (fun _ hl => (forall_mem_of_run hl).1) h
  | inclusion => exact exists_of_inclusion h
  | pathPart => exact forall_mem_of_run h
  | filePattern => exact forall_mem_of_run h
  | _ => exact eq_of_literal h

theorem Shape.ne_nil (h : kind.Shape lexeme) : lexeme ≠ [] := by
  have numeral {minus digits : List Char} (hd : RunOf isDigit digits) : minus ++ digits ≠ [] :=
    List.append_ne_nil_of_right_ne_nil _ hd.1
  cases kind with
  | endOfInput => cases h
  | slashComment | hashComment | blockComment | objectName => exact h
  | newline | space | dslStart | pathPart | filePattern => exact h.1
  | trueLiteral | falseLiteral | nullLiteral => rcases h with rfl | rfl <;> decide
  | integer =>
    obtain ⟨minus, digits, _, hd, rfl⟩ := h
    exact numeral hd
  | float =>
    obtain ⟨minus, whole, places, _, _, _, rfl⟩ := h
    simp
  | doubleQuoted | singleQuoted | dslCode =>
    obtain ⟨inner, rfl⟩ := h
    exact List.cons_ne_nil _ _
  | eel =>
    obtain ⟨code, rfl⟩ := h
    exact List.cons_ne_nil _ _
  | inclusion =>
    obtain ⟨blanks, _, rfl⟩ := h
    simp
  | _ =>
    obtain rfl : lexeme = _ := h
    decide

theorem ne_nil_of_lexeme? (h : kind.lexeme? text = some lexeme) : lexeme ≠ [] :=
  (shape_of_lexeme? h).ne_nil

end TokenKind

end FusionTree
