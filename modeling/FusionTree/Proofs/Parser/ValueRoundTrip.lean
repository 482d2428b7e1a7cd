import FusionTree.Proofs.Parser.PathRoundTrip

/-!
# Reading values back

A value that is written out is read back. A word may be a token of several kinds, which are told
apart by what comes after it, and numbers by there being no point.
-/

namespace FusionTree

open FusionTree.Parser

/-! ### Whole numbers -/

theorem decimalValue_toDigits (n : Nat) : decimalValue (Nat.toDigits 10 n) = n :=
  Nat.ofDigitChars_toDigits (by decide) (by decide)

theorem isDigit_of_mem_toDigits {n : Nat} {c : Char} (h : c ∈ Nat.toDigits 10 n) :
    Rule.isDigit c = true := by
  have digit : c.isDigit = true := Nat.isDigit_of_mem_toDigits (by decide) (by decide) h
  simpa [Rule.isDigit, Char.isDigit, Char.le_def] using digit

theorem length_toDigits_le {n : Nat} (h : n ≤ 9223372036854775808) :
    (Nat.toDigits 10 n).length ≤ 19 :=
  (Nat.length_toDigits_le_iff (by decide) (by decide)).mpr (Nat.lt_of_le_of_lt h (by decide))

theorem saturate_toInt (n : Int64) : saturate n.toInt = n := by
  have low : Int64.minValue.toInt ≤ n.toInt := n.minValue_le_toInt
  have high : n.toInt ≤ Int64.maxValue.toInt := n.toInt_le
  rw [saturate, Int.min_eq_left high, Int.max_eq_right low, Int64.ofInt_toInt]

theorem integerValue_of_isDigit {digits : List Char} (all : ∀ c ∈ digits, Rule.isDigit c = true) :
    integerValue digits = saturate (decimalValue digits) := by
  unfold integerValue
  split
  · exact absurd (all '-' (by simp)) (by decide)
  · rfl

/-- A 64-bit integer is written with at most 19 digits, and they spell it. -/
theorem exists_digits (n : Int64) :
    ∃ minus digits, (toString n.toInt).toList = minus ++ digits ∧ (minus = [] ∨ minus = ['-']) ∧
      digits ≠ [] ∧ (∀ c ∈ digits, Rule.isDigit c = true) ∧ digits.length ≤ 19 ∧
        integerValue (minus ++ digits) = n := by
  have low := n.le_toInt
  have high := n.toInt_lt
  rw [Int.toString_eq_repr, Int.repr_eq_if]
  split
  · rename_i positive
    refine ⟨[], Nat.toDigits 10 n.toInt.toNat, by simp [Nat.repr], .inl rfl, Nat.toDigits_ne_nil,
      fun c => isDigit_of_mem_toDigits, length_toDigits_le (by omega), ?_⟩
    rw [List.nil_append, integerValue_of_isDigit fun c => isDigit_of_mem_toDigits,
      decimalValue_toDigits, Int.toNat_of_nonneg positive, saturate_toInt]
  · rename_i negative
    refine ⟨['-'], Nat.toDigits 10 (-n.toInt).toNat, by simp [Nat.repr], .inr rfl,
      Nat.toDigits_ne_nil, fun c => isDigit_of_mem_toDigits, length_toDigits_le (by omega), ?_⟩
    have value : integerValue (['-'] ++ Nat.toDigits 10 (-n.toInt).toNat) =
        saturate (-decimalValue (Nat.toDigits 10 (-n.toInt).toNat)) := rfl
    rw [value, decimalValue_toDigits, Int.toNat_of_nonneg (by omega), Int.neg_neg, saturate_toInt]

/-! ### Words -/

def afterValue : List Char := [' ', '\t', '/', '\x7b', '\n']

namespace View

variable {word rest : List Char}

/-- A word in front of what may come after a value is neither an object name nor the identifier of
code. -/
theorem lacks_names (ne_nil : word ≠ []) (all : ∀ c ∈ word, Rule.isNamePart c = true)
    (after : HeadIn afterValue rest) :
    (View.at (word ++ rest)).Lacks .objectName ∧ (View.at (word ++ rest)).Lacks .dslStart := by
  have stops : Rule.Stops Rule.isNamePart rest := .of_headIn after (by decide)
  have other {c : Char} (h : c ∉ afterValue) : rest.head? ≠ some c := fun hc => h (after c hc)
  exact ⟨lacks_of_lexeme? (by simp [ne_nil])
      (Rule.objectName_eq_none all stops (other (by decide))),
    lacks_of_lexeme? (by simp [ne_nil]) (Rule.dslStart_eq_none all stops (other (by decide)))⟩

/-- A word does not begin with a quote. -/
theorem lacks_quoted (ne_nil : word ≠ []) (all : ∀ c ∈ word, Rule.isNamePart c = true) :
    (View.at (word ++ rest)).Lacks .singleQuoted ∧
      (View.at (word ++ rest)).Lacks .doubleQuoted := by
  obtain ⟨c, word, rfl⟩ := List.exists_cons_of_ne_nil ne_nil
  have hc : Rule.isNamePart c = true := all c (by simp)
  constructor
  all_goals
    refine lacks_cons (beq_eq_false_iff_ne.mpr ?_) _
    rintro rfl
    exact absurd hc (by decide)

theorem lacks_eel (ne_nil : word ≠ []) (all : ∀ c ∈ word, Rule.isNamePart c = true) :
    (View.at (word ++ rest)).Lacks .eel := by
  obtain ⟨c, word, rfl⟩ := List.exists_cons_of_ne_nil ne_nil
  have hc : Rule.isNamePart c = true := all c (by simp)
  refine lacks_cons (beq_eq_false_iff_ne.mpr ?_) _
  rintro rfl
  exact absurd hc (by decide)

/-- No kind that is asked for before numbers is offered where a word stands. -/
theorem lacks_of_word (ne_nil : word ≠ []) (all : ∀ c ∈ word, Rule.isNamePart c = true)
    (after : HeadIn afterValue rest) {kind : TokenKind}
    (mem : kind ∈ [.singleQuoted, .doubleQuoted, .objectName, .dslStart, .eel]) :
    (View.at (word ++ rest)).Lacks kind := by
  simp only [List.mem_cons, List.not_mem_nil, or_false] at mem
  rcases mem with rfl | rfl | rfl | rfl | rfl
  · exact (lacks_quoted ne_nil all).1
  · exact (lacks_quoted ne_nil all).2
  · exact (lacks_names ne_nil all after).1
  · exact (lacks_names ne_nil all after).2
  · exact lacks_eel ne_nil all

end View

namespace Parser

variable {rest : List Char}

theorem reads_string (text : String) (span : Span) :
    value.Reads (.at (Text.doubleQuoted text ++ rest))
      (fun y => y.bare = (Value.string text span).bare) (.at rest) := by
  have noNewline (c : Char) : Text.doubleCode c ≠ some '\n' := by
    unfold Text.doubleCode
    split
    · rename_i h
      rcases h with rfl | rfl <;> decide
    · split <;> decide
  have offers : (View.at (Text.doubleQuoted text ++ rest)).Offers .doubleQuoted
      (Text.doubleQuoted text) rest := by
    refine ⟨rfl, List.cons_ne_nil _ _, ?_⟩
    have backslash : Text.doubleCode '\\' ≠ none := by decide
    have quote : Text.doubleCode '"' ≠ none := by decide
    have quoted := Rule.quoted_escapeWith backslash quote (by decide) noNewline text.toList rest
    simpa [TokenKind.lexeme?, Text.doubleQuoted] using quoted
  refine reads_onToken_otherwise (View.lacks_cons rfl _) <|
    reads_onToken offers fun token same => reads_pure ?_ _
  simp [Value.bare, Token.inner_of_lexeme same, Text.stripCSlashes_escapeWith]

theorem reads_objectName {name : String} (h : TokenKind.objectName.IsLexeme name.toList)
    (after : HeadIn afterValue rest) (span : Span) :
    value.Reads (.at (name.toList ++ rest)) (fun y => y.bare = (Value.objectName name span).bare)
      (.at rest) := by
  obtain ⟨left, right, ⟨ne_nil, all⟩, _, eq⟩ := Rule.exists_of_objectName h
  have quotes : (View.at (name.toList ++ rest)).Lacks .singleQuoted ∧
      (View.at (name.toList ++ rest)).Lacks .doubleQuoted := by
    rw [eq, List.append_assoc]
    exact View.lacks_quoted ne_nil all
  have offers : (View.at (name.toList ++ rest)).Offers .objectName name.toList rest :=
    ⟨rfl, by simp [eq], Rule.objectName_append h (.of_headIn after (by decide))⟩
  refine reads_onToken_otherwise quotes.1 <| reads_onToken_otherwise quotes.2 <|
    reads_onToken offers fun token same => reads_pure ?_ _
  simp [Value.bare, Token.text, same]

theorem reads_dsl {identifier code : String}
    (named : TokenKind.dslStart.lexeme? (identifier.toList ++ ['\x60']) = some identifier.toList)
    (noBacktick : '\x60' ∉ code.toList) (span : Span) :
    value.Reads (.at (identifier.toList ++ '\x60' :: (code.toList ++ '\x60' :: rest)))
      (fun y => y.bare = (Value.dsl identifier code span).bare) (.at rest) := by
  obtain ⟨ne_nil, all⟩ := Rule.forall_mem_of_dslStart named
  have stops : Rule.Stops Rule.isNamePart ('\x60' :: (code.toList ++ '\x60' :: rest)) :=
    .cons (by decide) _
  have noColon := Rule.objectName_eq_none all stops (by simp)
  have starts : (View.at (identifier.toList ++ '\x60' :: (code.toList ++ '\x60' :: rest))).Offers
      .dslStart identifier.toList ('\x60' :: (code.toList ++ '\x60' :: rest)) :=
    ⟨rfl, ne_nil, Rule.dslStart_append ne_nil all _⟩
  have codes : (View.at ('\x60' :: (code.toList ++ '\x60' :: rest))).Offers .dslCode
      ('\x60' :: (code.toList ++ ['\x60'])) rest :=
    ⟨by simp, List.cons_ne_nil _ _, Rule.dslCode_append noBacktick rest⟩
  refine reads_onToken_otherwise (View.lacks_quoted ne_nil all).1 <|
    reads_onToken_otherwise (View.lacks_quoted ne_nil all).2 <|
    reads_onToken_otherwise (View.lacks_of_lexeme? (by simp) noColon) <|
    reads_onToken starts fun identifier same =>
      reads_onToken codes fun code sameCode => reads_pure ?_ _
  simp [Value.bare, Token.text, same, Token.inner_of_lexeme sameCode]

theorem reads_eel {code : String} (h : TokenKind.eel.IsLexeme (Value.eelText code))
    (span : Span) :
    value.Reads (.at (Value.eelText code ++ rest)) (fun y => y.bare = (Value.eel code span).bare)
      (.at rest) := by
  have offers : (View.at (Value.eelText code ++ rest)).Offers .eel (Value.eelText code) rest :=
    ⟨rfl, List.cons_ne_nil _ _, Rule.eel_append h rest⟩
  have lacks {kind : TokenKind} (other : kind.mayBegin '$' = false) :
      (View.at (Value.eelText code ++ rest)).Lacks kind := View.lacks_cons other _
  refine reads_onToken_otherwise (lacks rfl) <| reads_onToken_otherwise (lacks rfl) <|
    reads_onToken_otherwise (lacks (by decide)) <| reads_onToken_otherwise (lacks (by decide)) <|
    reads_onToken offers fun token same => reads_pure ?_ _
  simp [Value.bare, Token.inner, same, Value.eelText]

/-- No kind that is asked for before numbers is offered where a whole number stands. -/
theorem lacks_of_digits {minus digits : List Char} (sign : minus = [] ∨ minus = ['-'])
    (ne_nil : digits ≠ []) (all : ∀ c ∈ digits, Rule.isDigit c = true)
    (after : HeadIn afterValue rest) {kind : TokenKind}
    (mem : kind ∈ [.singleQuoted, .doubleQuoted, .objectName, .dslStart, .eel]) :
    (View.at (minus ++ digits ++ rest)).Lacks kind := by
  rcases sign with rfl | rfl
  · have names : ∀ c ∈ digits, Rule.isNamePart c = true := fun c hc => by
      simp [Rule.isNamePart, Rule.isAlphanumeric, all c hc]
    exact View.lacks_of_word ne_nil names after mem
  · exact View.lacks_cons ((by decide : ∀ k ∈ _, k.mayBegin '-' = false) kind mem) _

/-- A whole number is read with its first 19 digits, and the others are left. -/
theorem reads_numeral {minus digits : List Char} (sign : minus = [] ∨ minus = ['-'])
    (ne_nil : digits ≠ []) (all : ∀ c ∈ digits, Rule.isDigit c = true)
    (after : HeadIn afterValue rest) (span : Span) :
    value.Reads (.at (minus ++ digits ++ rest))
      (fun y => y.bare = (Value.int (integerValue (minus ++ digits.take 19)) span).bare)
      (.at (digits.drop 19 ++ rest)) := by
  have lacks {kind : TokenKind}
      (mem : kind ∈ [.singleQuoted, .doubleQuoted, .objectName, .dslStart, .eel]) :=
    lacks_of_digits sign ne_nil all after mem
  have stops : Rule.Stops Rule.isDigit rest := .of_headIn after (by decide)
  have text_ne_nil : minus ++ digits ++ rest ≠ [] := by simp [ne_nil]
  have noPoint : rest.head? ≠ some '.' := fun h =>
    (by decide : '.' ∉ afterValue) (after '.' h)
  have split : minus ++ digits ++ rest = minus ++ digits.take 19 ++ (digits.drop 19 ++ rest) := by
    rw [← List.append_assoc, List.append_assoc minus (digits.take 19), List.take_append_drop]
  have offers : (View.at (minus ++ digits ++ rest)).Offers .integer (minus ++ digits.take 19)
      (digits.drop 19 ++ rest) :=
    ⟨split, by simp [ne_nil], Rule.integer_append sign ne_nil all stops⟩
  refine reads_onToken_otherwise (lacks (by decide)) <|
    reads_onToken_otherwise (lacks (by decide)) <|
    reads_onToken_otherwise (lacks (by decide)) <|
    reads_onToken_otherwise (lacks (by decide)) <|
    reads_onToken_otherwise (lacks (by decide)) <|
    reads_onToken_otherwise (View.lacks_of_lexeme? text_ne_nil
      (Rule.float_eq_none sign ne_nil all stops noPoint)) <|
    reads_onToken offers fun token same => reads_pure ?_ _
  rw [same]
  rfl

theorem reads_int (n : Int64) (after : HeadIn afterValue rest) (span : Span) :
    value.Reads (.at ((toString n.toInt).toList ++ rest))
      (fun y => y.bare = (Value.int n span).bare) (.at rest) := by
  obtain ⟨minus, digits, eq, sign, ne_nil, all, few, spelled⟩ := exists_digits n
  have read := reads_numeral sign ne_nil all after span
  rwa [List.take_of_length_le few, List.drop_of_length_le few, spelled, ← eq] at read

/-- No kind that is asked for before keywords is offered where a word stands that does not begin
with a digit. -/
theorem lacks_of_keyword {word : List Char} (ne_nil : word ≠ [])
    (all : word.all Rule.isNamePart = true) (letter : word.head?.any Rule.isDigit = false)
    (after : HeadIn afterValue rest) {kind : TokenKind}
    (mem : kind ∈ [.singleQuoted, .doubleQuoted, .objectName, .dslStart, .eel] ++
      [.float, .integer]) : (View.at (word ++ rest)).Lacks kind := by
  have names := List.all_eq_true.mp all
  have noNumber {kind : TokenKind} (h : ∀ c, kind.mayBegin c = (c == '-' || Rule.isDigit c)) :
      (View.at (word ++ rest)).Lacks kind := by
    obtain ⟨c, word, rfl⟩ := List.exists_cons_of_ne_nil ne_nil
    have noDigit : Rule.isDigit c = false := letter
    refine View.lacks_cons ?_ _
    rw [h, noDigit, Bool.or_false, beq_eq_false_iff_ne]
    rintro rfl
    exact absurd (names '-' (by simp)) (by decide)
  rcases List.mem_append.mp mem with mem | mem
  · exact View.lacks_of_word ne_nil names after mem
  · simp only [List.mem_cons, List.not_mem_nil, or_false] at mem
    rcases mem with rfl | rfl <;> exact noNumber fun _ => rfl

theorem reads_value_keyword {word : List Char} (ne_nil : word ≠ [])
    (all : word.all Rule.isNamePart = true) (letter : word.head?.any Rule.isDigit = false)
    (after : HeadIn afterValue rest) {Q : Value → Prop} {w : View}
    (h : (onToken .trueLiteral (fun t => return .bool true t.span) <|
      onToken .falseLiteral (fun t => return .bool false t.span) <|
      onToken .nullLiteral (fun t => return .null t.span) <|
      failHere .expectedValue).Reads (.at (word ++ rest)) Q w) :
    value.Reads (.at (word ++ rest)) Q w := by
  have lacks {kind : TokenKind} (mem : kind ∈ [.singleQuoted, .doubleQuoted, .objectName, .dslStart,
      .eel] ++ [.float, .integer]) : (View.at (word ++ rest)).Lacks kind :=
    lacks_of_keyword ne_nil all letter after mem
  exact reads_onToken_otherwise (lacks (by decide)) <|
    reads_onToken_otherwise (lacks (by decide)) <| reads_onToken_otherwise (lacks (by decide)) <|
    reads_onToken_otherwise (lacks (by decide)) <| reads_onToken_otherwise (lacks (by decide)) <|
    reads_onToken_otherwise (lacks (by decide)) <| reads_onToken_otherwise (lacks (by decide)) h

theorem either_lower (lower upper : String) (rest : List Char) :
    Rule.either lower upper (lower.toList ++ rest) = some lower.toList := by
  rw [Rule.either, Rule.literal_append]
  rfl

theorem reads_bool (b : Bool) (after : HeadIn afterValue rest) (span : Span) :
    value.Reads (.at ((if b then "true" else "false").toList ++ rest))
      (fun y => y.bare = (Value.bool b span).bare) (.at rest) := by
  cases b with
  | true =>
    refine reads_value_keyword (by decide) (by decide) (by decide) after ?_
    have offers : (View.at ("true".toList ++ rest)).Offers .trueLiteral "true".toList rest :=
      ⟨rfl, by decide, either_lower "true" "TRUE" rest⟩
    exact reads_onToken offers fun token _ => reads_pure (by rfl) _
  | false =>
    refine reads_value_keyword (by decide) (by decide) (by decide) after ?_
    have offers : (View.at ("false".toList ++ rest)).Offers .falseLiteral "false".toList rest :=
      ⟨rfl, by decide, either_lower "false" "FALSE" rest⟩
    exact reads_onToken_otherwise (View.lacks_cons rfl _) <|
      reads_onToken offers fun token _ => reads_pure (by rfl) _

theorem reads_null (after : HeadIn afterValue rest) (span : Span) :
    value.Reads (.at ("null".toList ++ rest)) (fun y => y.bare = (Value.null span).bare)
      (.at rest) := by
  refine reads_value_keyword (by decide) (by decide) (by decide) after ?_
  have offers : (View.at ("null".toList ++ rest)).Offers .nullLiteral "null".toList rest :=
    ⟨rfl, by decide, either_lower "null" "NULL" rest⟩
  exact reads_onToken_otherwise (View.lacks_cons rfl _) <|
    reads_onToken_otherwise (View.lacks_cons rfl _) <|
    reads_onToken offers fun token _ => reads_pure (by rfl) _

/-- A value is read where it is written. -/
theorem reads_value {x : Value} (h : x.Printable) (after : HeadIn afterValue rest) :
    value.Reads (.at (x.print ++ rest)) (fun y => y.bare = x.bare) (.at rest) := by
  cases x with
  | string text span => exact reads_string text span
  | int n span => exact reads_int n after span
  | float => cases h
  | bool b span => exact reads_bool b after span
  | null span => exact reads_null after span
  | objectName name span => exact reads_objectName h after span
  | eel code span => exact reads_eel h.1 span
  | dsl identifier code span =>
    rw [Value.print, List.append_assoc, List.cons_append, List.append_assoc]
    exact reads_dsl h.1 h.2.1 span

end Parser

end FusionTree
