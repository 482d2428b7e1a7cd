import FusionTree.Proofs.Text.Escaping
import FusionTree.Proofs.Token.Rules

/-!
# Which token a text becomes

A word that is a token of some kind still is that token in front of other text, as long as that text
does not begin with something that would go on with it. Other kinds are told apart by their first
characters, or by what comes after the word.
-/

namespace FusionTree

/-- The text is empty or begins with one of the characters. -/
def HeadIn (cs text : List Char) : Prop :=
  ∀ c ∈ text.head?, c ∈ cs

theorem HeadIn.mono {cs ds text : List Char} (h : HeadIn cs text) (le : cs ⊆ ds) :
    HeadIn ds text := fun c hc => le (h c hc)

theorem headIn_cons {cs : List Char} {c : Char} (h : c ∈ cs) (rest : List Char) :
    HeadIn cs (c :: rest) := by
  rintro _ ⟨⟩
  exact h

theorem not_mem_of_apart {cs ds : List Char} (apart : cs.any ds.contains = false) {c : Char}
    (h : c ∈ cs) : c ∉ ds := fun mem =>
  List.any_eq_false.mp apart c h (List.contains_iff_mem.mpr mem)

namespace Rule

/-- A run of characters of a class ends where the text begins. -/
def Stops (p : Char → Bool) (text : List Char) : Prop :=
  ∀ c ∈ text.head?, p c = false

variable {p : Char → Bool} {word rest : List Char}

theorem Stops.of_headIn {cs : List Char} (h : HeadIn cs rest) (others : cs.any p = false) :
    Stops p rest := fun c hc => Bool.eq_false_iff.mpr (List.any_eq_false.mp others c (h c hc))

theorem Stops.cons {c : Char} (h : p c = false) (rest : List Char) : Stops p (c :: rest) := by
  rintro _ ⟨⟩
  exact h

theorem takeWhile_eq_nil (stops : Stops p rest) : rest.takeWhile p = [] := by
  cases rest with
  | nil => rfl
  | cons c rest => simp [stops c rfl]

theorem takeWhile_append (all : ∀ c ∈ word, p c = true) (stops : Stops p rest) :
    (word ++ rest).takeWhile p = word := by
  rw [List.takeWhile_append_of_pos all, takeWhile_eq_nil stops, List.append_nil]

theorem run_append (ne_nil : word ≠ []) (all : ∀ c ∈ word, p c = true) (stops : Stops p rest) :
    run p (word ++ rest) = some word :=
  run_eq_some_iff.mpr ⟨takeWhile_append all stops, ne_nil⟩

theorem run_eq_none (stops : Stops p rest) : run p rest = none := by
  rw [run, takeWhile_eq_nil stops]

/-- What a run gives is made of characters of its class. -/
theorem forall_mem_of_run {text : List Char} (h : run p text = some word) :
    word ≠ [] ∧ ∀ c ∈ word, p c = true := by
  obtain ⟨rfl, ne_nil⟩ := run_eq_some_iff.mp h
  exact ⟨ne_nil, List.all_eq_true.mp List.all_takeWhile⟩

theorem andThen_append {first second : List Char → Option (List Char)} {left right : List Char}
    (hf : first (left ++ rest) = some left) (hs : second rest = some right) :
    andThen first second (left ++ rest) = some (left ++ right) :=
  andThen_eq_some_iff.mpr ⟨left, right, hf, by rw [after_append, hs], rfl⟩

theorem andThen_eq_none {first second : List Char → Option (List Char)} {left : List Char}
    (hf : first (left ++ rest) = some left) (hs : second rest = none) :
    andThen first second (left ++ rest) = none := by
  simp [andThen, hf, hs]

theorem andThen_eq_none_of_first {first second : List Char → Option (List Char)}
    {text : List Char} (h : first text = none) : andThen first second text = none := by
  simp [andThen, h]

@[simp] theorem literal_append (word rest : List Char) :
    literal word (word ++ rest) = some word := by
  simp [literal]

theorem eq_of_literal {text lexeme : List Char} (h : literal word text = some lexeme) :
    lexeme = word := by
  unfold literal at h
  split at h
  · exact (Option.some.inj h).symm
  · cases h

theorem literal_eq_none {c d : Char} (h : c ≠ d) (word rest : List Char) :
    literal (d :: word) (c :: rest) = none := by
  simp [literal, Ne.symm h]

/-! ### Quoted text -/

/-- A run of units of a quoted text: characters other than the quote and the backslash, and pairs of
a backslash and a character of a class. -/
inductive Units (quote : Char) (p : Char → Prop) : List Char → Prop
  | nil : Units quote p []
  | plain {c : Char} {rest : List Char} (noQuote : c ≠ quote) (noBackslash : c ≠ '\\')
      (hr : Units quote p rest) : Units quote p (c :: rest)
  | pair {c : Char} {rest : List Char} (hc : p c) (hr : Units quote p rest) :
      Units quote p ('\\' :: c :: rest)

section Units

variable {quote c : Char}

theorem Units.append {p : Char → Prop} {first second : List Char} (hf : Units quote p first)
    (hs : Units quote p second) : Units quote p (first ++ second) := by
  induction hf with
  | nil => exact hs
  | plain noQuote noBackslash _ ih => exact .plain noQuote noBackslash ih
  | pair hc _ ih => exact .pair hc ih

theorem units_of_forall {p : Char → Prop} {text : List Char}
    (plain : ∀ c ∈ text, c ≠ '\\' ∧ c ≠ quote) : Units quote p text := by
  induction text with
  | nil => exact .nil
  | cons c text ih =>
    obtain ⟨⟨backslash, inner⟩, tail⟩ := List.forall_mem_cons.mp plain
    exact .plain inner backslash (ih tail)

/-- An escaped text is a run of units if the backslash and the quote are escaped. -/
theorem units_escapeWith {p : Char → Prop} {code : Char → Option Char}
    (backslash : code '\\' ≠ none) (ends : code quote ≠ none)
    (codes : ∀ c e, code c = some e → p e) (text : List Char) :
    Units quote p (Text.escapeWith code text) := by
  induction text with
  | nil => exact .nil
  | cons c text ih =>
    cases hc : code c with
    | some e =>
      rw [Text.escapeWith_cons_of_some hc]
      exact .pair (codes c e hc) ih
    | none =>
      have inner : c ≠ quote := fun same => ends (same ▸ hc)
      have plain : c ≠ '\\' := fun same => backslash (same ▸ hc)
      rw [Text.escapeWith_cons_of_none hc]
      exact .plain inner plain ih

theorem throughQuote_escape (h : c ≠ '\n') (rest : List Char) :
    throughQuote quote ('\\' :: c :: rest) =
      (throughQuote quote rest).map ('\\' :: c :: ·) := by
  simp [throughQuote, h]

theorem throughQuote_quote (h : quote ≠ '\\') (rest : List Char) :
    throughQuote quote (quote :: rest) = some [quote] := by
  rw [throughQuote] <;> simp [h]

theorem throughQuote_cons (backslash : c ≠ '\\') (h : c ≠ quote) (rest : List Char) :
    throughQuote quote (c :: rest) = (throughQuote quote rest).map (c :: ·) := by
  rw [throughQuote] <;> simp [h, backslash]

/-- Units go through to the quote after them. -/
theorem Units.throughQuote (different : quote ≠ '\\') {inner : List Char}
    (h : Units quote (· ≠ '\n') inner) (rest : List Char) :
    throughQuote quote (inner ++ quote :: rest) = some (inner ++ [quote]) := by
  induction h with
  | nil => exact throughQuote_quote different rest
  | plain noQuote noBackslash _ ih =>
    rw [List.cons_append, throughQuote_cons noBackslash noQuote, ih]
    rfl
  | pair hc _ ih =>
    rw [List.cons_append, List.cons_append, throughQuote_escape hc, ih]
    rfl

/-- A run of units between two quotes is read in front of any text. -/
theorem Units.quoted (different : quote ≠ '\\') {inner : List Char}
    (h : Units quote (· ≠ '\n') inner) (rest : List Char) :
    quoted quote (quote :: (inner ++ quote :: rest)) = some (quote :: (inner ++ [quote])) :=
  andThen_append (literal_append [quote] _) (h.throughQuote different rest)

theorem quoted_escapeWith {code : Char → Option Char} (backslash : code '\\' ≠ none)
    (ends : code quote ≠ none) (different : quote ≠ '\\') (noNewline : ∀ c, code c ≠ some '\n')
    (text rest : List Char) :
    quoted quote (quote :: (Text.escapeWith code text ++ quote :: rest)) =
      some (quote :: (Text.escapeWith code text ++ [quote])) := by
  refine (units_escapeWith backslash ends (fun c e hc => ?_) text).quoted different rest
  rintro rfl
  exact noNewline c hc

theorem quoted_plain (different : quote ≠ '\\') {text : List Char}
    (plain : ∀ c ∈ text, c ≠ '\\' ∧ c ≠ quote) (rest : List Char) :
    quoted quote (quote :: (text ++ quote :: rest)) = some (quote :: (text ++ [quote])) :=
  (units_of_forall plain).quoted different rest

end Units

/-! ### Code -/

theorem throughClosingBrace_append {depth : Nat} {open? : Option Char} {text lexeme : List Char}
    (h : throughClosingBrace depth open? text = some lexeme) (rest : List Char) :
    throughClosingBrace depth open? (text ++ rest) = some lexeme := by
  have further {c : Char} {more next : Option (List Char)} {l : List Char}
      (ih : ∀ l, more = some l → next = some l) (h : more.map (c :: ·) = some l) :
      next.map (c :: ·) = some l := by
    obtain ⟨l, hl, rfl⟩ := Option.map_eq_some_iff.mp h
    rw [ih l hl]
    rfl
  induction depth, open?, text using throughClosingBrace.induct generalizing lexeme with
  | case1 => cases h
  | case2 => cases h
  | case3 depth q escaped text ih =>
    obtain ⟨l, hl, rfl⟩ := Option.map_eq_some_iff.mp h
    simpa [throughClosingBrace] using ih hl
  | case4 depth q c text other ih =>
    rw [throughClosingBrace.eq_def] at h ⊢
    simp only [other, if_false, List.cons_append] at h ⊢
    exact further (fun _ => ih) h
  | case5 depth text ih =>
    simp only [throughClosingBrace, if_true, List.cons_append] at h ⊢
    exact further (fun _ => ih) h
  | case6 => simpa [throughClosingBrace] using h
  | case7 text _ depth ih =>
    simp only [throughClosingBrace, if_true, List.cons_append] at h ⊢
    exact further (fun _ => ih) h
  | case8 depth c text opens closes quote ih =>
    simp only [throughClosingBrace, opens, closes, quote, if_true, if_false, List.cons_append]
      at h ⊢
    exact further (fun _ => ih) h
  | case9 depth c text opens closes quote ih =>
    simp only [throughClosingBrace, opens, closes, quote, if_false, List.cons_append] at h ⊢
    exact further (fun _ => ih) h

/-- The code of an expression that is closed by its own last brace is read in front of any text. -/
theorem eel_append {lexeme : List Char} (h : eel lexeme = some lexeme) (rest : List Char) :
    eel (lexeme ++ rest) = some lexeme := by
  obtain ⟨left, right, hl, hr, eq⟩ := andThen_eq_some_iff.mp h
  obtain rfl := eq_of_literal hl
  subst eq
  rw [after_append] at hr
  rw [List.append_assoc]
  exact andThen_append (literal_append _ _) (throughClosingBrace_append hr rest)

theorem dslCode_append {code : List Char} (noBacktick : '\x60' ∉ code) (rest : List Char) :
    dslCode ('\x60' :: (code ++ '\x60' :: rest)) = some ('\x60' :: (code ++ ['\x60'])) := by
  refine andThen_append (literal_append ['\x60'] _) (andThen_append ?_ (literal_append ['\x60'] _))
  rw [takeWhile_append]
  · intro c hc
    exact decide_eq_true fun same => noBacktick (same ▸ hc)
  · exact .cons (by decide) rest

theorem forall_mem_of_dslStart {name : List Char} (h : dslStart (name ++ ['\x60']) = some name) :
    name ≠ [] ∧ ∀ c ∈ name, isNamePart c = true := by
  simp only [dslStart, bind, Option.bind_eq_some_iff] at h
  obtain ⟨taken, hrun, h⟩ := h
  split at h
  · obtain rfl := Option.some.inj h
    exact forall_mem_of_run hrun
  · cases h

theorem dslStart_append {name : List Char} (ne_nil : name ≠ [])
    (all : ∀ c ∈ name, isNamePart c = true) (rest : List Char) :
    dslStart (name ++ '\x60' :: rest) = some name := by
  have stops : Stops isNamePart ('\x60' :: rest) := .cons (by decide) rest
  simp [dslStart, run_append ne_nil all stops]

theorem dslStart_eq_none {name : List Char} (all : ∀ c ∈ name, isNamePart c = true)
    (stops : Stops isNamePart rest) (h : rest.head? ≠ some '\x60') :
    dslStart (name ++ rest) = none := by
  by_cases ne_nil : name = []
  · simp [dslStart, ne_nil, run_eq_none stops]
  · simp [dslStart, run_append ne_nil all stops, h]

/-! ### Names -/

/-- An object name is two names with a colon between them. -/
theorem exists_of_objectName {name : List Char} (h : objectName name = some name) :
    ∃ left right, (left ≠ [] ∧ ∀ c ∈ left, isNamePart c = true) ∧
      (right ≠ [] ∧ ∀ c ∈ right, isNamePart c = true) ∧ name = left ++ ':' :: right := by
  obtain ⟨left, _, hl, hrest, eq⟩ := andThen_eq_some_iff.mp h
  obtain ⟨colon, right, hc, hr, rfl⟩ := andThen_eq_some_iff.mp hrest
  obtain rfl := eq_of_literal hc
  exact ⟨left, right, forall_mem_of_run hl, forall_mem_of_run hr, eq⟩

theorem objectName_append {name : List Char} (h : objectName name = some name)
    (stops : Stops isNamePart rest) : objectName (name ++ rest) = some name := by
  obtain ⟨left, right, ⟨left_ne_nil, allLeft⟩, ⟨right_ne_nil, allRight⟩, rfl⟩ :=
    exists_of_objectName h
  have colon : Stops isNamePart (':' :: (right ++ rest)) := .cons (by decide) _
  rw [List.append_assoc, List.cons_append]
  exact andThen_append (run_append left_ne_nil allLeft colon)
    (andThen_append (literal_append [':'] _) (run_append right_ne_nil allRight stops))

theorem objectName_eq_none {name : List Char} (all : ∀ c ∈ name, isNamePart c = true)
    (stops : Stops isNamePart rest) (h : rest.head? ≠ some ':') :
    objectName (name ++ rest) = none := by
  by_cases ne_nil : name = []
  · rw [ne_nil]
    exact andThen_eq_none_of_first (run_eq_none stops)
  · refine andThen_eq_none (run_append ne_nil all stops) (andThen_eq_none_of_first ?_)
    cases rest with
    | nil => rfl
    | cons c rest => exact literal_eq_none (fun same => h (by rw [same]; rfl)) _ _

/-- A word that a key does not begin with does not stand at the key, if what follows the key does
not go on with the word. -/
theorem literal_append_eq_none {key : List Char} (notPrefix : ¬word <+: key)
    (other : ∀ c ∈ rest.head?, c ∉ word) : literal word (key ++ rest) = none := by
  refine if_neg fun isPrefix => ?_
  have le := List.isPrefixOf_iff_prefix.mp isPrefix
  rcases List.prefix_or_prefix_of_prefix le (List.prefix_append key rest) with inside | ⟨more, rfl⟩
  · exact notPrefix inside
  · cases more with
    | nil => exact notPrefix (by simp)
    | cons d more =>
      obtain ⟨rest, rfl⟩ := (List.prefix_append_right_inj key).mp le
      exact other d rfl (by simp)

theorem after_takeWhile (p : Char → Bool) (text : List Char) :
    after (text.takeWhile p) text = text.dropWhile p :=
  calc after (text.takeWhile p) text
    _ = after (text.takeWhile p) (text.takeWhile p ++ text.dropWhile p) := by
      rw [List.takeWhile_append_dropWhile]
    _ = text.dropWhile p := after_append _ _

theorem isBlank_eq_false_of_isPathPart {c : Char} (h : isPathPart c = true) :
    Text.isBlank c = false := by
  have ascii : 0x2D ≤ c.toNat ∧ c.toNat ≤ 0x7A := by
    simp only [isPathPart, isAlphanumeric, isDigit, Bool.or_eq_true, Bool.and_eq_true,
      decide_eq_true_eq, beq_iff_eq, Char.le_def, UInt32.le_iff_toNat_le, Char.toNat_val] at h
    rcases h with (((((h | h) | h) | rfl) | rfl) | rfl)
    case inr | inl.inr | inl.inl.inr => decide
    all_goals
      simp only [Char.reduceToNat] at h
      omega
  simp only [Text.isBlank, Bool.or_eq_false_iff, Bool.and_eq_false_iff, decide_eq_false_iff_not,
    beq_eq_false_iff_ne]
  omega

/-- A key that does not begin with the keyword of an include statement and its colon is none, if
no colon comes after the blanks behind it. -/
theorem inclusion_eq_none {key : List Char} (all : ∀ c ∈ key, isPathPart c = true)
    (noKeyword : ¬"include:".toList <+: key) (other : ∀ c ∈ rest.head?, c ∉ "include".toList)
    (noColon : (rest.dropWhile Text.isBlank).head? ≠ some ':') :
    inclusion (key ++ rest) = none := by
  by_cases keyword : "include".toList <+: key
  · obtain ⟨more, rfl⟩ := keyword
    rw [List.append_assoc]
    refine andThen_eq_none (literal_append _ _) ?_
    have colon : ((more ++ rest).dropWhile Text.isBlank).head? ≠ some ':' := by
      cases more with
      | nil => exact noColon
      | cons c more =>
        have ink := isBlank_eq_false_of_isPathPart (all c (by simp))
        rw [List.cons_append, List.dropWhile_cons_of_neg (by simp [ink])]
        intro h
        obtain rfl := Option.some.inj h
        exact noKeyword ⟨more, rfl⟩
    rw [andThen, Option.bind_eq_bind, Option.bind_some, after_takeWhile]
    cases h : (more ++ rest).dropWhile Text.isBlank with
    | nil => rfl
    | cons c tail =>
      rw [literal_eq_none (fun same => colon (by rw [h, same]; rfl))]
      rfl
  · exact andThen_eq_none_of_first (literal_append_eq_none keyword other)

/-! ### Numbers -/

theorem sign_append {digits : List Char} {minus : List Char} (h : minus = [] ∨ minus = ['-'])
    (noMinus : digits.head? ≠ some '-') : sign (minus ++ digits) = some minus := by
  rcases h with rfl | rfl
  · exact if_neg noMinus
  · rfl

theorem unsigned_eq_none {second : List Char → Option (List Char)} {c : Char} (noMinus : c ≠ '-')
    (h : second (c :: rest) = none) : andThen sign second (c :: rest) = none := by
  have unsigned : sign ([] ++ c :: rest) = some [] := if_neg (by simpa using noMinus)
  exact andThen_eq_none unsigned h

theorem head?_append_ne {digits : List Char} (ne_nil : digits ≠ [])
    (all : ∀ c ∈ digits, isDigit c = true) (rest : List Char) :
    (digits ++ rest).head? ≠ some '-' := by
  cases digits with
  | nil => exact absurd rfl ne_nil
  | cons c digits =>
    intro h
    have digit := all c (by simp)
    rw [Option.some.inj h] at digit
    cases digit

/-- A whole number is read with its first 19 digits. -/
theorem integer_append {minus digits : List Char} (h : minus = [] ∨ minus = ['-'])
    (ne_nil : digits ≠ []) (all : ∀ c ∈ digits, isDigit c = true) (stops : Stops isDigit rest) :
    integer (minus ++ digits ++ rest) = some (minus ++ digits.take 19) := by
  rw [List.append_assoc]
  refine andThen_append (sign_append h (head?_append_ne ne_nil all rest)) ?_
  rw [Rule.digits, run_append ne_nil all stops, Option.map_some]

/-- A whole number is no fraction. -/
theorem float_eq_none {minus digits : List Char} (h : minus = [] ∨ minus = ['-'])
    (ne_nil : digits ≠ []) (all : ∀ c ∈ digits, isDigit c = true) (stops : Stops isDigit rest)
    (noPoint : rest.head? ≠ some '.') : float (minus ++ digits ++ rest) = none := by
  rw [List.append_assoc]
  refine andThen_eq_none (sign_append h (head?_append_ne ne_nil all rest)) ?_
  by_cases few : digits.length ≤ 14
  · refine andThen_eq_none ?_ (andThen_eq_none_of_first ?_)
    · simp [shortDigits, run_append ne_nil all stops, few]
    · cases rest with
      | nil => rfl
      | cons c rest => exact literal_eq_none (fun same => noPoint (by rw [same]; rfl)) _ _
  · refine andThen_eq_none_of_first ?_
    simpa [shortDigits, run_append ne_nil all stops] using few

/-! ### Comments -/

theorem lineComment_append {opening body : List Char} (oneLine : '\n' ∉ body)
    (stops : Stops (· ≠ '\n') rest) :
    lineComment opening (opening ++ (body ++ rest)) = some (opening ++ body) := by
  have all : ∀ c ∈ body, decide (c ≠ '\n') = true := by
    intro c hc
    refine decide_eq_true ?_
    rintro rfl
    exact oneLine hc
  refine andThen_append (literal_append _ _) ?_
  rw [takeWhile_append all stops]

theorem lineComment_eq_none {opening text : List Char} (h : literal opening text = none) :
    lineComment opening text = none :=
  andThen_eq_none_of_first h

theorem throughCommentEnd_append {body : List Char} (noEnd : ¬['*', '/'] <:+: body)
    (rest : List Char) :
    throughCommentEnd (body ++ '*' :: '/' :: rest) = some (body ++ ['*', '/']) := by
  induction body with
  | nil => rfl
  | cons c body ih =>
    have tail : ¬['*', '/'] <:+: body := fun h =>
      noEnd (h.trans (List.infix_cons (List.infix_refl _)))
    have goesOn : ∀ more, c = '*' → body ++ '*' :: '/' :: rest = '/' :: more → False := by
      rintro more rfl eq
      cases body with
      | nil => cases eq
      | cons d body =>
        obtain ⟨rfl, _⟩ := List.cons.inj eq
        exact noEnd ⟨[], body, rfl⟩
    rw [List.cons_append, throughCommentEnd, ih tail]
    · rfl
    · exact goesOn

end Rule

open Rule in
def TokenKind.mayBegin : TokenKind → Char → Bool
  | endOfInput, _ => false
  | slashComment, c | blockComment, c => c == '/'
  | hashComment, c => c == '#'
  | newline, c => c == '\n'
  | space, c => c == ' ' || c == '\t'
  | trueLiteral, c => c == 't' || c == 'T'
  | falseLiteral, c => c == 'f' || c == 'F'
  | nullLiteral, c => c == 'n' || c == 'N'
  | integer, c | float, c => c == '-' || isDigit c
  | doubleQuoted, c => c == '"'
  | singleQuoted, c => c == '\''
  | dslStart, c | objectName, c => isNamePart c
  | dslCode, c => c == '\x60'
  | eel, c => c == '$'
  | inclusion, c => c == 'i'
  | prototypeStart, c => c == 'p'
  | pathPart, c => isPathPart c
  | metaStart, c => c == '@'
  | filePattern, c => isFilePattern c
  | assign, c => c == '='
  | copy, c => c == '<'
  | unset, c => c == '>'
  | dot, c => c == '.'
  | closeParen, c => c == ')'
  | openBrace, c => c == '\x7b'
  | closeBrace, c => c == '\x7d'

open Rule in
theorem TokenKind.lexeme?_eq_none {kind : TokenKind} {c : Char} (h : kind.mayBegin c = false)
    (rest : List Char) : kind.lexeme? (c :: rest) = none := by
  have run {p : Char → Bool} (hp : p c = false) : run p (c :: rest) = none :=
    run_eq_none fun _ hd => by cases hd; exact hp
  have literal {d : Char} (hd : (c == d) = false) (word : List Char) :
      literal (d :: word) (c :: rest) = none := literal_eq_none (by simpa using hd) word rest
  cases kind with
  | endOfInput => rfl
  | slashComment => exact lineComment_eq_none (literal h ['/'])
  | blockComment => exact andThen_eq_none_of_first (literal h ['*'])
  | hashComment => exact lineComment_eq_none (literal h [])
  | newline => exact run h
  | space => exact run h
  | trueLiteral | falseLiteral | nullLiteral =>
    obtain ⟨lower, upper⟩ := Bool.or_eq_false_iff.mp h
    rw [lexeme?, either, Option.orElse_eq_orElse, Option.orElse_eq_or]
    exact Option.or_eq_none_iff.mpr ⟨literal lower _, literal upper _⟩
  | integer =>
    obtain ⟨noMinus, noDigit⟩ := Bool.or_eq_false_iff.mp h
    exact unsigned_eq_none (by simpa using noMinus) (by simp [digits, run noDigit])
  | float =>
    obtain ⟨noMinus, noDigit⟩ := Bool.or_eq_false_iff.mp h
    exact unsigned_eq_none (by simpa using noMinus)
      (andThen_eq_none_of_first (by simp [shortDigits, run noDigit]))
  | doubleQuoted => exact andThen_eq_none_of_first (literal h [])
  | singleQuoted => exact andThen_eq_none_of_first (literal h [])
  | dslStart =>
    have noName : Rule.run isNamePart (c :: rest) = none := run h
    simp [lexeme?, Rule.dslStart, noName]
  | objectName => exact andThen_eq_none_of_first (run h)
  | dslCode => exact andThen_eq_none_of_first (literal h [])
  | eel => exact andThen_eq_none_of_first (literal h _)
  | inclusion => exact andThen_eq_none_of_first (literal h _)
  | prototypeStart => exact literal h _
  | pathPart => exact run h
  | filePattern => exact run h
  | _ => exact literal h []

end FusionTree
