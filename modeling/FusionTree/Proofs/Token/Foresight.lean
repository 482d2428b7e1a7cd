import FusionTree.Proofs.Token.Lexemes
import Mathlib.Data.List.Basic
import Mathlib.Data.List.TakeWhile

/-!
# How far rules see

Two texts are the same up to a brace. Most rules are `Blind` behind it: they never take the brace
and come to the same in both texts. The others are those of comments, quoted texts and code, which
may go beyond the brace. What they find before it they find in both texts; but where they find
nothing in one of them, they may find something in the other. Then their delimiter stands there, and
in the first text no other rule matches either, except that a file pattern may begin like a comment.
-/

namespace FusionTree

namespace Rule

/-- The rule sees nothing of what stands behind the character, and takes nothing of it. -/
structure Blind (b : Char) (rule : List Char → Option (List Char)) : Prop where
  same : ∀ m u v, rule (m ++ b :: u) = rule (m ++ b :: v)
  before : ∀ m u l, rule (m ++ b :: u) = some l → l <+: m

/-- What the rule finds at the head of a text it finds whatever stands behind that. -/
def Settled (rule : List Char → Option (List Char)) : Prop :=
  ∀ l u v, rule (l ++ u) = some l → rule (l ++ v) = some l

variable {b : Char} {m u v l word : List Char} {p : Char → Bool}
variable {first second rule : List Char → Option (List Char)}

/-! ### Rules that are blind -/

theorem takeWhile_append_cons (stop : p b = false) (m u : List Char) :
    (m ++ b :: u).takeWhile p = m.takeWhile p := by
  induction m with
  | nil => simp [stop]
  | cons c m ih => simp only [List.cons_append, List.takeWhile_cons, ih]

theorem blind_takeWhile (stop : p b = false) : Blind b fun text => some (text.takeWhile p) where
  same m u v := by simp only [takeWhile_append_cons stop]
  before m u l found := by
    rw [takeWhile_append_cons stop] at found
    obtain rfl := Option.some.inj found
    exact List.takeWhile_prefix p

theorem blind_run (stop : p b = false) : Blind b (run p) where
  same m u v := by simp only [run, takeWhile_append_cons stop]
  before m u l found := by
    obtain ⟨rfl, _⟩ := run_eq_some_iff.mp found
    rw [takeWhile_append_cons stop]
    exact List.takeWhile_prefix p

/-- A word without the character stands at the head if it stands there before the character. -/
theorem prefix_append_cons_iff (other : b ∉ word) : word <+: m ++ b :: u ↔ word <+: m := by
  refine ⟨fun h => ?_, fun h => h.trans (List.prefix_append _ _)⟩
  rcases List.prefix_or_prefix_of_prefix h (List.prefix_append m _) with le | ⟨more, rfl⟩
  · exact le
  · cases more with
    | nil => simp
    | cons c more =>
      have le := (List.prefix_append_right_inj m).mp h
      obtain ⟨rfl, _⟩ := List.cons_prefix_cons.mp le
      exact absurd (by simp) other

theorem blind_literal (other : b ∉ word) : Blind b (literal word) where
  same m u v := by
    have found (u : List Char) : word.isPrefixOf (m ++ b :: u) = true ↔ word <+: m := by
      rw [List.isPrefixOf_iff_prefix, prefix_append_cons_iff other]
    simp only [literal, found]
  before m u l found := by
    have le := matchesHead_literal word _ _ found
    obtain rfl := eq_of_literal found
    exact (prefix_append_cons_iff other).mp le

theorem Blind.andThen (hf : Blind b first) (hs : Blind b second) :
    Blind b (andThen first second) where
  same m u v := by
    simp only [Rule.andThen, hf.same m u v]
    cases found : first (m ++ b :: v) with
    | none => rfl
    | some left =>
      obtain ⟨m', rfl⟩ := hf.before m v left found
      simp only [Option.bind_eq_bind, Option.bind_some, List.append_assoc, after_append,
        hs.same m' u v]
  before m u l found := by
    obtain ⟨left, right, hl, hr, rfl⟩ := andThen_eq_some_iff.mp found
    obtain ⟨m', rfl⟩ := hf.before m u left hl
    rw [List.append_assoc, after_append] at hr
    exact (List.prefix_append_right_inj left).mpr (hs.before m' u right hr)

/-- Only some of what a blind rule finds. -/
theorem Blind.shorter {f : Option (List Char) → Option (List Char)} (h : Blind b rule)
    (le : ∀ found l, f found = some l → ∃ all, found = some all ∧ l <+: all) :
    Blind b fun text => f (rule text) where
  same m u v := by simp only [h.same m u v]
  before m u l found := by
    obtain ⟨all, hall, part⟩ := le _ _ found
    exact part.trans (h.before m u all hall)

theorem blind_digits (stop : isDigit b = false) (limit : Nat) : Blind b (digits limit) := by
  refine (blind_run stop).shorter (f := Option.map (·.take limit)) fun found l h => ?_
  obtain ⟨all, rfl, rfl⟩ := Option.map_eq_some_iff.mp h
  exact ⟨all, rfl, List.take_prefix limit all⟩

theorem blind_shortDigits (stop : isDigit b = false) (limit : Nat) :
    Blind b (shortDigits limit) := by
  refine (blind_run stop).shorter (f := Option.filter (·.length ≤ limit)) fun found l h => ?_
  exact ⟨l, (Option.filter_eq_some_iff.mp h).1, List.prefix_rfl⟩

theorem blind_sign (other : b ≠ '-') : Blind b sign where
  same m u v := by cases m <;> simp [sign]
  before m u l found := by
    cases m with
    | nil => simp_all [sign]
    | cons c m =>
      unfold sign at found
      split at found
      · rename_i minus
        cases found
        simp_all
      · cases found
        exact List.nil_prefix

theorem blind_either {lower upper : String} (hl : b ∉ lower.toList) (hu : b ∉ upper.toList) :
    Blind b (either lower upper) where
  same m u v := by
    simp only [either, (blind_literal hl).same m u v, (blind_literal hu).same m u v]
  before m u l found := by
    rw [either, Option.orElse_eq_orElse, Option.orElse_eq_or, Option.or_eq_some_iff] at found
    rcases found with found | ⟨_, found⟩
    · exact (blind_literal hl).before m u l found
    · exact (blind_literal hu).before m u l found

theorem blind_dslStart (stop : isNamePart b = false) : Blind b dslStart where
  same m u v := by
    simp only [dslStart, (blind_run stop).same m u v]
    cases found : run isNamePart (m ++ b :: v) with
    | none => rfl
    | some name =>
      obtain ⟨m', rfl⟩ := (blind_run stop).before m v name found
      simp only [Option.bind_eq_bind, Option.bind_some, List.append_assoc, after_append]
      cases m' <;> rfl
  before m u l found := by
    simp only [dslStart, bind, Option.bind_eq_some_iff] at found
    obtain ⟨name, hn, found⟩ := found
    split at found
    · cases found
      exact (blind_run stop).before m u _ hn
    · cases found

/-! ### Rules that are settled -/

theorem Blind.of_within (h : Blind b rule) (found : rule (m ++ b :: u) = some l) :
    rule (m ++ b :: v) = some l := by
  rw [h.same m v u]
  exact found

theorem Settled.of_within (h : Settled rule) (found : rule (m ++ b :: u) = some l)
    (le : l <+: m) : rule (m ++ b :: v) = some l := by
  obtain ⟨m', rfl⟩ := le
  rw [List.append_assoc] at found ⊢
  exact h l _ _ found

theorem settled_literal (word : List Char) : Settled (literal word) := by
  intro l u v found
  obtain rfl := eq_of_literal found
  exact literal_append _ _

theorem settled_quoted {quote : Char} (different : quote ≠ '\\') : Settled (quoted quote) := by
  intro l u v found
  obtain ⟨inner, units, rfl⟩ := exists_units_of_quoted found
  simpa using units.quoted different v

theorem settled_throughCommentEnd : Settled throughCommentEnd := by
  intro l u v found
  generalize text : l ++ u = all at found
  fun_induction throughCommentEnd all generalizing l with
  | case1 => cases found
  | case2 rest =>
    cases found
    rfl
  | case3 c rest noEnd ih =>
    obtain ⟨more, hm, rfl⟩ := Option.map_eq_some_iff.mp found
    obtain ⟨_, rfl⟩ := List.cons.inj text
    have nonempty : more ≠ [] := by
      rintro rfl
      unfold throughCommentEnd at hm
      split at hm <;> simp_all
    have goesOn : ∀ tail, c = '*' → more ++ v = '/' :: tail → False := by
      rintro tail rfl eq
      cases more with
      | nil => exact nonempty rfl
      | cons d more =>
        obtain ⟨rfl, _⟩ := List.cons.inj eq
        exact noEnd _ rfl rfl
    rw [List.cons_append, throughCommentEnd, ih more rfl hm]
    · rfl
    · exact goesOn

theorem settled_throughClosingBrace (depth : Nat) (open? : Option Char) :
    Settled (throughClosingBrace depth open?) := by
  intro l u v found
  have goesOn {c : Char} {rest l : List Char} {more : Option (List Char)}
      (text : l ++ u = c :: rest) (found : more.map (c :: ·) = some l) :
      ∃ tail, l = c :: tail ∧ rest = tail ++ u ∧ more = some tail := by
    obtain ⟨tail, hm, rfl⟩ := Option.map_eq_some_iff.mp found
    exact ⟨tail, rfl, (List.cons.inj text).2.symm, hm⟩
  generalize text : l ++ u = all at found
  fun_induction throughClosingBrace depth open? all generalizing l with
  | case1 => cases found
  | case2 => cases found
  | case3 depth q escaped rest ih =>
    obtain ⟨tail, hm, rfl⟩ := Option.map_eq_some_iff.mp found
    have behind : tail ++ u = rest := (List.cons.inj (List.cons.inj text).2).2
    simp [throughClosingBrace, ih tail behind hm]
  | case4 depth q c rest other ih =>
    obtain ⟨tail, rfl, rfl, hm⟩ := goesOn text found
    rw [List.cons_append, throughClosingBrace.eq_def]
    simp only [other, if_false, ih tail rfl hm, Option.map_some]
  | case5 depth rest ih =>
    obtain ⟨tail, rfl, rfl, hm⟩ := goesOn text found
    simp only [throughClosingBrace, if_true, List.cons_append, ih tail rfl hm, Option.map_some]
  | case6 rest =>
    cases found
    simp [throughClosingBrace]
  | case7 rest _ depth ih =>
    obtain ⟨tail, rfl, rfl, hm⟩ := goesOn text found
    simp only [throughClosingBrace, if_true, List.cons_append, ih tail rfl hm, Option.map_some]
    rfl
  | case8 depth c rest opens closes quote ih =>
    obtain ⟨tail, rfl, rfl, hm⟩ := goesOn text found
    simp only [throughClosingBrace, opens, closes, quote, if_true, if_false, List.cons_append,
      ih tail rfl hm, Option.map_some]
  | case9 depth c rest opens closes quote ih =>
    obtain ⟨tail, rfl, rfl, hm⟩ := goesOn text found
    simp only [throughClosingBrace, opens, closes, quote, if_false, List.cons_append,
      ih tail rfl hm, Option.map_some]

theorem Settled.andThen (hf : Settled first) (hs : Settled second) :
    Settled (andThen first second) := by
  intro l u v found
  obtain ⟨left, right, hl, hr, rfl⟩ := andThen_eq_some_iff.mp found
  rw [List.append_assoc] at hl hr ⊢
  rw [after_append] at hr
  exact andThen_append (hf left _ _ hl) (hs right _ _ hr)

theorem settled_eel : Settled eel :=
  (settled_literal _).andThen (settled_throughClosingBrace 0 none)

theorem settled_blockComment : Settled (andThen (literal ['/', '*']) throughCommentEnd) :=
  (settled_literal _).andThen settled_throughCommentEnd

theorem not_mem_of_takeWhile_eq {text : List Char} (same : text.takeWhile (· ≠ b) = l) : b ∉ l := by
  subst same
  intro mem
  simpa using List.mem_takeWhile_imp mem

theorem settled_dslCode : Settled dslCode := by
  intro l u v found
  obtain ⟨opening, _, hopen, hrest, rfl⟩ := andThen_eq_some_iff.mp found
  obtain ⟨code, closing, hcode, hclose, rfl⟩ := andThen_eq_some_iff.mp hrest
  obtain rfl := eq_of_literal hopen
  obtain rfl := eq_of_literal hclose
  have noBacktick : '\x60' ∉ code := not_mem_of_takeWhile_eq (Option.some.inj hcode)
  simpa using dslCode_append noBacktick v

/-- A line that ends before the character is read in both texts. -/
theorem lineComment_of_within {opening : List Char} (other : b ≠ '\n')
    (found : lineComment opening (m ++ b :: u) = some l) (le : l <+: m) :
    lineComment opening (m ++ b :: v) = some l := by
  obtain ⟨left, body, hl, hbody, rfl⟩ := andThen_eq_some_iff.mp found
  obtain rfl := eq_of_literal hl
  obtain ⟨m', rfl⟩ := le
  have hbody : (body ++ (m' ++ b :: u)).takeWhile (· ≠ '\n') = body := by
    simpa [List.append_assoc, after_append] using hbody
  have oneLine : '\n' ∉ body := not_mem_of_takeWhile_eq hbody
  have stops : Stops (· ≠ '\n') (m' ++ b :: v) := by
    rw [List.takeWhile_append_of_pos fun c mem => decide_eq_true (ne_of_mem_of_not_mem mem oneLine)]
      at hbody
    have ends : (m' ++ b :: u).takeWhile (· ≠ '\n') = [] := List.append_right_eq_self.mp hbody
    cases m' with
    | nil => simp [other] at ends
    | cons c m' =>
      by_cases newline : c = '\n'
      · exact .cons (by simp [newline]) _
      · simp [newline] at ends
  have read : lineComment left (left ++ (body ++ (m' ++ b :: v))) = some (left ++ body) :=
    lineComment_append oneLine stops
  simpa [List.append_assoc] using read

theorem lineComment_eq_none_iff {opening text : List Char} :
    lineComment opening text = none ↔ literal opening text = none := by
  unfold lineComment andThen
  cases literal opening text <;> simp

end Rule

namespace TokenKind

open Rule

variable {kind : TokenKind} {m u v l : List Char}

/-- The kinds of token that may go beyond a brace, and the brace itself. -/
def mayEnclose : TokenKind → Bool
  | slashComment | hashComment | blockComment | doubleQuoted | singleQuoted | dslCode | eel
  | openBrace => true
  | _ => false

theorem blind_lexeme? (h : kind.mayEnclose = false) : Blind '\x7b' kind.lexeme? := by
  cases kind with
  | slashComment | hashComment | blockComment | doubleQuoted | singleQuoted | dslCode | eel
  | openBrace => cases h
  | endOfInput => exact ⟨fun _ _ _ => rfl, nofun⟩
  | newline | space | pathPart | filePattern => exact blind_run (by decide)
  | trueLiteral | falseLiteral | nullLiteral => exact blind_either (by decide) (by decide)
  | integer => exact (blind_sign (by decide)).andThen (blind_digits (by decide) 19)
  | float =>
    exact (blind_sign (by decide)).andThen <| (blind_shortDigits (by decide) 14).andThen <|
      (blind_literal (by decide)).andThen (blind_digits (by decide) 14)
  | dslStart => exact blind_dslStart (by decide)
  | objectName =>
    exact (blind_run (by decide)).andThen <| (blind_literal (by decide)).andThen <|
      blind_run (by decide)
  | inclusion =>
    exact (blind_literal (by decide)).andThen <| (blind_takeWhile (by decide)).andThen <|
      blind_literal (by decide)
  | _ => exact blind_literal (by decide)

/-- What a rule finds before the brace it finds whatever stands behind the brace. -/
theorem lexeme?_of_within (found : kind.lexeme? (m ++ '\x7b' :: u) = some l) (le : l <+: m) :
    kind.lexeme? (m ++ '\x7b' :: v) = some l := by
  cases encloses : kind.mayEnclose with
  | false => exact (blind_lexeme? encloses).of_within found
  | true =>
    cases kind with
    | slashComment | hashComment => exact lineComment_of_within (by decide) found le
    | blockComment => exact settled_blockComment.of_within found le
    | doubleQuoted | singleQuoted => exact (settled_quoted (by decide)).of_within found le
    | dslCode => exact settled_dslCode.of_within found le
    | eel => exact settled_eel.of_within found le
    | openBrace => exact (settled_literal _).of_within found le
    | _ => cases encloses

def NoneBut (but : List TokenKind) (text : List Char) : Prop :=
  ∀ kind ∉ but, kind.lexeme? text = none

/-- The rule of a kind with a delimiter of its own. -/
theorem lexeme?_eq_none_or_of_delimiter {but : List TokenKind} {quote : Char}
    (begins : ∀ c, kind.mayBegin c = (c == quote))
    (others : ∀ other : TokenKind, other ≠ kind → other.mayBegin quote = false)
    (nothing : kind.lexeme? (m ++ '\x7b' :: u) = none) :
    kind.lexeme? (m ++ '\x7b' :: v) = none ∨ NoneBut but (m ++ '\x7b' :: u) := by
  obtain ⟨c, tail, head⟩ := List.exists_cons_of_ne_nil (l := m ++ ['\x7b']) (by simp)
  have text (w : List Char) : m ++ '\x7b' :: w = c :: (tail ++ w) := by
    rw [← List.cons_append, ← head, List.append_assoc]
    rfl
  rw [text] at nothing ⊢
  rw [text]
  by_cases opens : c = quote
  · refine .inr fun other _ => ?_
    by_cases same : other = kind
    · rw [same]
      exact nothing
    · exact lexeme?_eq_none (opens ▸ others other same) _
  · exact .inl (lexeme?_eq_none (by simp [begins, opens]) _)

/-- Where a block comment begins, no other rule matches but that of file patterns. -/
theorem noneBut_of_comment {but : List TokenKind} {text : List Char} (pattern : filePattern ∈ but)
    (opens : ['/', '*'] <+: text) (nothing : blockComment.lexeme? text = none) :
    NoneBut but text := by
  obtain ⟨rest, rfl⟩ := opens
  intro other notBut
  cases other with
  | blockComment => exact nothing
  | slashComment => exact lineComment_eq_none rfl
  | filePattern => exact absurd pattern notBut
  | _ => exact lexeme?_eq_none (by decide) _

/-- Where a rule finds nothing, it finds nothing either whatever else stands behind the brace; or
its delimiter stands there, and no other rule finds anything. -/
theorem lexeme?_eq_none_or {but : List TokenKind}
    (comments : kind = blockComment → filePattern ∈ but)
    (nothing : kind.lexeme? (m ++ '\x7b' :: u) = none) :
    kind.lexeme? (m ++ '\x7b' :: v) = none ∨ NoneBut but (m ++ '\x7b' :: u) := by
  cases encloses : kind.mayEnclose with
  | false => exact .inl ((blind_lexeme? encloses).same m v u ▸ nothing)
  | true =>
    cases kind with
    | slashComment | hashComment =>
      refine .inl (lineComment_eq_none_iff.mpr ?_)
      rw [(blind_literal (by decide)).same m v u]
      exact lineComment_eq_none_iff.mp nothing
    | blockComment =>
      cases opening : literal ['/', '*'] (m ++ '\x7b' :: u) with
      | none =>
        rw [(blind_literal (by decide)).same m u v] at opening
        exact .inl (andThen_eq_none_of_first opening)
      | some word =>
        have opens := matchesHead_literal _ _ _ opening
        rw [eq_of_literal opening] at opens
        exact .inr (noneBut_of_comment (comments rfl) opens nothing)
    | doubleQuoted | singleQuoted | dslCode | eel | openBrace =>
      refine lexeme?_eq_none_or_of_delimiter (fun _ => rfl) (fun other => ?_) nothing
      cases other <;> decide
    | _ => cases encloses

/-- The kinds of token that may end with an opening brace and not be one. Of object names it is not
known, because their shape says nothing. -/
def braceEnding : List TokenKind :=
  [slashComment, hashComment, blockComment, objectName]

/-- A token that ends with an opening brace is one, or a comment, or an object name. -/
theorem Shape.ends_with_brace (h : kind.Shape l) (last : l.getLast? = some '\x7b') :
    kind = openBrace ∨ kind ∈ braceEnding := by
  have run {p : Char → Bool} (before : List Char) {word : List Char} (h : RunOf p word)
      (last : (before ++ word).getLast? = some '\x7b') : p '\x7b' = true := by
    rw [List.getLast?_append_of_ne_nil before h.1] at last
    exact h.2 _ (List.mem_of_getLast? last)
  have ends (word : List Char) {c : Char} (last : (word ++ [c]).getLast? = some '\x7b') :
      c = '\x7b' := by simpa using last
  cases kind with
  | openBrace | slashComment | hashComment | blockComment | objectName => decide
  | endOfInput => cases h
  | newline | space | dslStart | pathPart | filePattern =>
    exact absurd (run [] h last) (by decide)
  | trueLiteral | falseLiteral | nullLiteral => rcases h with rfl | rfl <;> cases last
  | integer =>
    obtain ⟨minus, digits, _, hd, rfl⟩ := h
    exact absurd (run _ hd last) (by decide)
  | float =>
    obtain ⟨minus, whole, places, _, _, hp, rfl⟩ := h
    rw [← List.append_assoc] at last
    exact absurd (run (minus ++ whole ++ ['.']) hp (by simpa using last)) (by decide)
  | doubleQuoted | singleQuoted | dslCode =>
    obtain ⟨inner, rfl⟩ := h
    exact absurd (ends (_ :: inner) last) (by decide)
  | eel =>
    obtain ⟨code, rfl⟩ := h
    exact absurd (ends (_ :: _ :: code) last) (by decide)
  | inclusion =>
    obtain ⟨blanks, _, rfl⟩ := h
    rw [← List.append_assoc] at last
    exact absurd (ends _ last) (by decide)
  | _ =>
    obtain rfl : l = _ := h
    cases last

/-- Where the text goes on behind a token: before the brace; behind the brace, if the token is the
brace; or farther on, and then beyond the brace unless tokens of the kind may end with one. -/
theorem goes_on_of_lexeme? {rest : List Char} (found : kind.lexeme? (m ++ '\x7b' :: u) = some l)
    (text : m ++ '\x7b' :: u = l ++ rest) :
    (∃ m', m = l ++ m' ∧ rest = m' ++ '\x7b' :: u) ∨ (kind = openBrace ∧ m = [] ∧ rest = u) ∨
      rest.length ≤ u.length ∧
        (kind ∉ braceEnding → rest.length < u.length) := by
  have shape := shape_of_lexeme? found
  rcases List.append_eq_append_iff.mp text with ⟨more, rfl, behind⟩ | ⟨m', rfl, behind⟩
  · cases more with
    | nil => exact .inl ⟨[], by simp, by simpa using behind.symm⟩
    | cons b more =>
      obtain ⟨rfl, rfl⟩ := List.cons.inj behind
      by_cases brace : kind = openBrace
      · subst brace
        have word : m ++ '\x7b' :: more = ['\x7b'] := shape
        obtain ⟨rfl, rfl⟩ : m = [] ∧ more = [] := by
          cases m <;> simp_all
        exact .inr (.inl ⟨rfl, rfl, rfl⟩)
      · refine .inr (.inr ⟨by simp, fun others => ?_⟩)
        cases more with
        | nil =>
          rcases shape.ends_with_brace (by simp) with same | ending
          · exact absurd same brace
          · exact absurd ending others
        | cons c more =>
          simp only [List.append_eq, List.length_append, List.length_cons]
          omega
  · exact .inl ⟨m', rfl, behind⟩

end TokenKind

end FusionTree
