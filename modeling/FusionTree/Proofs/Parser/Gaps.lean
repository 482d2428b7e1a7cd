import FusionTree.Proofs.Parser.Reading
import FusionTree.Proofs.Token.Matching

/-!
# Gaps

What stands between the parts of a statement, and between statements. Skipping takes white space in
runs and comments one at a time, and arrives behind the gap whatever order they come in.
-/

namespace FusionTree

/-- What may stand in a gap: blanks and comments, and in a big one also newlines and comments up to
the end of a line. -/
inductive Gap (big : Bool) : List Char → Prop
  | nil : Gap big []
  | blank {c : Char} {g : List Char} (h : c = ' ' ∨ c = '\t') (rest : Gap big g) : Gap big (c :: g)
  | comment {body g : List Char} (noEnd : ¬['*', '/'] <:+: body) (rest : Gap big g) :
      Gap big ('/' :: '*' :: (body ++ '*' :: '/' :: g))
  | newline {g : List Char} (isBig : big = true) (rest : Gap big g) : Gap big ('\n' :: g)
  | lineComment {opening body g : List Char} (isBig : big = true)
      (opens : opening = ['/', '/'] ∨ opening = ['#']) (oneLine : '\n' ∉ body ∧ '\r' ∉ body)
      (rest : Gap big g) : Gap big (opening ++ (body ++ '\n' :: g))

/-- The text begins with nothing that a gap could go on with. -/
def Solid (big : Bool) (text : List Char) : Prop :=
  ∀ c ∈ text.head?, c ≠ ' ' ∧ c ≠ '\t' ∧ c ≠ '/' ∧ c ≠ '#' ∧ (big = true → c ≠ '\n')

namespace Gap

variable {big : Bool} {g rest : List Char}

theorem headIn {cs : List Char} (h : Gap false g) (hr : HeadIn cs rest) :
    HeadIn (' ' :: '\t' :: '/' :: cs) (g ++ rest) := by
  cases h with
  | nil => exact hr.mono fun c hc => by simp [hc]
  | blank h => rcases h with rfl | rfl <;> exact headIn_cons (by simp) _
  | comment => exact headIn_cons (by simp) _
  | newline isBig => cases isBig
  | lineComment isBig => cases isBig

theorem append {g' : List Char} (h : Gap big g) (h' : Gap big g') : Gap big (g ++ g') := by
  induction h with
  | nil => exact h'
  | blank h rest ih => exact .blank h ih
  | comment noEnd rest ih => simpa using Gap.comment noEnd ih
  | newline isBig rest ih => exact .newline isBig ih
  | lineComment isBig opens oneLine rest ih =>
    simpa using Gap.lineComment isBig opens oneLine ih

theorem dropWhile_space (h : Gap big g) :
    Gap big (g.dropWhile fun c => c == ' ' || c == '\t') := by
  induction h with
  | nil => exact .nil
  | blank h rest ih => rcases h with rfl | rfl <;> exact ih
  | comment noEnd rest => exact .comment noEnd rest
  | newline isBig rest => exact .newline isBig rest
  | lineComment isBig opens oneLine rest =>
    rcases opens with rfl | rfl
    · exact .lineComment isBig (.inl rfl) oneLine rest
    · exact .lineComment isBig (.inr rfl) oneLine rest

theorem dropWhile_newline (h : Gap big g) : Gap big (g.dropWhile (· == '\n')) := by
  induction h with
  | nil => exact .nil
  | blank h rest => rcases h with rfl | rfl <;> exact .blank (by simp) rest
  | comment noEnd rest => exact .comment noEnd rest
  | newline isBig rest ih => exact ih
  | lineComment isBig opens oneLine rest =>
    rcases opens with rfl | rfl
    · exact .lineComment isBig (.inl rfl) oneLine rest
    · exact .lineComment isBig (.inr rfl) oneLine rest

end Gap

namespace Rule

variable {p : Char → Bool} {text rest : List Char}

theorem takeWhile_append_of_stops (stops : Stops p rest) :
    (text ++ rest).takeWhile p = text.takeWhile p := by
  induction text with
  | nil => simpa using takeWhile_eq_nil stops
  | cons c text ih => simp [List.takeWhile_cons, ih]

theorem dropWhile_append_of_stops (stops : Stops p rest) :
    (text ++ rest).dropWhile p = text.dropWhile p ++ rest := by
  induction text with
  | nil =>
    cases rest with
    | nil => rfl
    | cons c rest => simp [stops c rfl]
  | cons c text ih =>
    rw [List.cons_append, List.dropWhile_cons, List.dropWhile_cons]
    split
    · exact ih
    · rfl

/-- A run of characters of a class is read up to where the text goes on with something else. -/
theorem run_append_of_stops {c : Char} (hc : p c = true) (stops : Stops p rest) :
    run p (c :: text ++ rest) = some ((c :: text).takeWhile p) := by
  rw [run_eq_some_iff, takeWhile_append_of_stops stops]
  simp [hc]

end Rule

namespace Lexer

variable {kinds : List TokenKind} {noEnd : .endOfInput ∉ kinds} {v : View} {kind : TokenKind}
  {lexeme rest : List Char}

theorem takeAny_of_lacks {lx : Lexer} (h : lx.Shows v) (lacks : ∀ k ∈ kinds, v.Lacks k) :
    (lx.takeAny kinds).1 = false ∧ (lx.takeAny kinds).2.Shows v := by
  induction kinds generalizing lx with
  | nil => exact ⟨rfl, h⟩
  | cons k kinds ih =>
    obtain ⟨head, tail⟩ := List.forall_mem_cons.mp lacks
    obtain ⟨nothing, shows⟩ := take_of_lacks h head
    rw [takeAny_of_none nothing]
    exact ih shows tail

theorem takeAny_of_offers {lx : Lexer} (h : lx.Shows v) (mem : kind ∈ kinds)
    (offers : v.Offers kind lexeme rest) (others : ∀ k ∈ kinds, k ≠ kind → v.Lacks k) :
    (lx.takeAny kinds).1 = true ∧ (lx.takeAny kinds).2.Shows (.at rest) := by
  induction kinds generalizing lx with
  | nil => cases mem
  | cons k kinds ih =>
    by_cases same : k = kind
    · subst same
      obtain ⟨token, taken, _, shows⟩ := take_of_offers h offers
      rw [takeAny_of_some taken]
      exact ⟨rfl, shows⟩
    · obtain ⟨head, tail⟩ := List.forall_mem_cons.mp others
      obtain ⟨nothing, shows⟩ := take_of_lacks h (head same)
      rw [takeAny_of_none nothing]
      exact ih shows ((List.mem_cons.mp mem).resolve_left (Ne.symm same)) tail

theorem skip_of_lacks {lx : Lexer} (h : lx.Shows v) (lacks : ∀ k ∈ kinds, v.Lacks k) :
    (skip kinds noEnd lx).Shows v := by
  obtain ⟨nothing, shows⟩ := takeAny_of_lacks h lacks
  rwa [skip_of_false nothing]

theorem skip_of_offers {lx : Lexer} (h : lx.Shows v) (mem : kind ∈ kinds)
    (offers : v.Offers kind lexeme rest) (others : ∀ k ∈ kinds, k ≠ kind → v.Lacks k) :
    ∃ next : Lexer, next.Shows (.at rest) ∧ skip kinds noEnd lx = skip kinds noEnd next := by
  obtain ⟨taken, shows⟩ := takeAny_of_offers h mem offers others
  exact ⟨_, shows, skip_of_true taken⟩

end Lexer

/-! ### Gaps -/

theorem TokenKind.mem_of_isTrivia {k : TokenKind} (h : k.isTrivia = true) :
    k ∈ [slashComment, hashComment, blockComment, newline, space] := by
  cases k <;> first | decide | cases h

theorem View.lacks_cons {kind : TokenKind} {c : Char} (h : kind.mayBegin c = false)
    (rest : List Char) : (View.at (c :: rest)).Lacks kind :=
  TokenKind.lexeme?_eq_none h rest

namespace Gap

variable {big : Bool} {g rest : List Char}

/-- One piece of the gap is next and nothing else; behind it the gap goes on with the text. -/
structure Offered (big : Bool) (g rest : List Char) (kind : TokenKind) (lexeme g' : List Char) :
    Prop where
  isTrivia : kind.isTrivia = true
  isBig : kind = .newline → big = true
  offers : (View.at (g ++ rest)).Offers kind lexeme (g' ++ rest)
  others : ∀ k : TokenKind, k.isTrivia = true → k ≠ kind → (View.at (g ++ rest)).Lacks k
  gap : Gap big g'
  shorter : g'.length < g.length

/-- A run of white space is taken as a whole. -/
theorem offered_of_run {p : Char → Bool} {kind : TokenKind} (rule : kind.lexeme? = Rule.run p)
    (isTrivia : kind.isTrivia = true) (isBig : kind = .newline → big = true) {c : Char}
    (hc : p c = true) (stops : Rule.Stops p rest)
    (others : ∀ k : TokenKind, k.isTrivia = true → k ≠ kind → k.mayBegin c = false)
    (gap : Gap big ((c :: g).dropWhile p)) :
    Offered big (c :: g) rest kind ((c :: g).takeWhile p) ((c :: g).dropWhile p) where
  isTrivia := isTrivia
  isBig := isBig
  offers := by
    refine ⟨?_, by simp [hc], by rw [rule, Rule.run_append_of_stops hc stops]⟩
    rw [← List.append_assoc, List.takeWhile_append_dropWhile]
  others k hk other := View.lacks_cons (others k hk other) _
  gap := gap
  shorter := by
    rw [List.dropWhile_cons_of_pos hc]
    exact Nat.lt_succ_of_le (List.dropWhile_suffix p).length_le

theorem offered_blank {c : Char} (blank : c = ' ' ∨ c = '\t') (gap : Gap big g)
    (solid : Solid big rest) : ∃ lexeme g', Offered big (c :: g) rest .space lexeme g' := by
  have stops : Rule.Stops (fun c => c == ' ' || c == '\t') rest := fun c hc => by
    simp [(solid c hc).1, (solid c hc).2.1]
  refine ⟨_, _, offered_of_run rfl rfl (by simp) (by simpa using blank) stops ?_
    (Gap.blank blank gap).dropWhile_space⟩
  intro k hk other
  have mem := TokenKind.mem_of_isTrivia hk
  rcases blank with rfl | rfl
  · exact (by decide : ∀ k ∈ _, k ≠ .space → k.mayBegin ' ' = false) k mem other
  · exact (by decide : ∀ k ∈ _, k ≠ .space → k.mayBegin '\t' = false) k mem other

theorem offered_newline (isBig : big = true) (gap : Gap big g) (solid : Solid big rest) :
    ∃ lexeme g', Offered big ('\n' :: g) rest .newline lexeme g' := by
  have stops : Rule.Stops (· == '\n') rest := fun c hc => by simp [(solid c hc).2.2.2.2 isBig]
  refine ⟨_, _, offered_of_run rfl rfl (fun _ => isBig) rfl stops ?_
    (Gap.newline isBig gap).dropWhile_newline⟩
  intro k hk other
  exact (by decide : ∀ k ∈ _, k ≠ .newline → k.mayBegin '\n' = false) k
    (TokenKind.mem_of_isTrivia hk) other

/-- Two kinds of comment begin with a slash. -/
theorem lacks_at_slash {k : TokenKind} (hk : k.isTrivia = true) (block : k ≠ .blockComment)
    (line : k ≠ .slashComment) (text : List Char) : (View.at ('/' :: text)).Lacks k :=
  View.lacks_cons ((by decide : ∀ k ∈ _, k ≠ .blockComment → k ≠ .slashComment →
    k.mayBegin '/' = false) k (TokenKind.mem_of_isTrivia hk) block line) text

theorem offered_comment {body : List Char} (noEnd : ¬['*', '/'] <:+: body) (gap : Gap big g) :
    Offered big ('/' :: '*' :: (body ++ '*' :: '/' :: g)) rest .blockComment
      ('/' :: '*' :: (body ++ ['*', '/'])) g where
  isTrivia := rfl
  isBig := by simp
  offers := by
    refine ⟨by simp, by simp, ?_⟩
    have matched : TokenKind.blockComment.lexeme?
        (['/', '*'] ++ (body ++ '*' :: '/' :: (g ++ rest))) = some _ :=
      Rule.andThen_append (Rule.literal_append ['/', '*'] _)
        (Rule.throughCommentEnd_append noEnd (g ++ rest))
    simpa using matched
  others k hk other := by
    by_cases line : k = .slashComment
    · subst line
      exact Rule.lineComment_eq_none (by simp [Rule.literal])
    · exact lacks_at_slash hk other line _
  gap := gap
  shorter := by
    simp only [List.length_append, List.length_cons]
    omega

/-- A comment up to the end of a line leaves the newline. -/
theorem offered_lineComment {kind : TokenKind} {opening body : List Char}
    (rule : kind.lexeme? = Rule.lineComment opening) (isTrivia : kind.isTrivia = true)
    (isBig : big = true) (opens : opening ≠ []) (oneLine : '\n' ∉ body) (gap : Gap big g)
    (others : ∀ k : TokenKind, k.isTrivia = true → k ≠ kind → ∀ text,
      (View.at (opening ++ text)).Lacks k) :
    Offered big (opening ++ (body ++ '\n' :: g)) rest kind (opening ++ body) ('\n' :: g) where
  isTrivia := isTrivia
  isBig _ := isBig
  offers := by
    have stops : Rule.Stops (· ≠ '\n') ('\n' :: (g ++ rest)) := .cons rfl _
    refine ⟨by simp, by simp [opens], ?_⟩
    rw [rule]
    simpa using Rule.lineComment_append oneLine stops
  others k hk other := by
    rw [List.append_assoc]
    exact others k hk other _
  gap := .newline isBig gap
  shorter := by
    have opened := List.length_pos_iff.mpr opens
    simp only [List.length_append, List.length_cons]
    omega

theorem exists_offered (h : Gap big g) (ne_nil : g ≠ []) (solid : Solid big rest) :
    ∃ kind lexeme g', Offered big g rest kind lexeme g' := by
  cases h with
  | nil => exact absurd rfl ne_nil
  | blank blank gap => exact ⟨_, offered_blank blank gap solid⟩
  | newline isBig gap => exact ⟨_, offered_newline isBig gap solid⟩
  | comment noEnd gap => exact ⟨_, _, _, offered_comment noEnd gap⟩
  | lineComment isBig opens oneLine gap =>
    rcases opens with rfl | rfl
    · refine ⟨.slashComment, _, _, offered_lineComment rfl rfl isBig (by simp) oneLine.1 gap ?_⟩
      intro k hk other text
      by_cases block : k = .blockComment
      · subst block
        exact Rule.andThen_eq_none_of_first (by simp [Rule.literal])
      · exact lacks_at_slash hk block other _
    · refine ⟨.hashComment, _, _, offered_lineComment rfl rfl isBig (by simp) oneLine.1 gap ?_⟩
      intro k hk other text
      exact View.lacks_cons ((by decide : ∀ k ∈ _, k ≠ .hashComment → k.mayBegin '#' = false) k
        (TokenKind.mem_of_isTrivia hk) other) text

end Gap

/-- In front of a solid text no gap goes on. -/
theorem Solid.lacks {big : Bool} {text : List Char} (h : Solid big text) {k : TokenKind}
    (isTrivia : k.isTrivia = true) (isBig : k = .newline → big = true) :
    (View.at text).Lacks k := by
  cases text with
  | nil =>
    rintro rfl
    cases isTrivia
  | cons c text =>
    obtain ⟨space, tab, slash, hash, newline⟩ := h c rfl
    refine View.lacks_cons ?_ text
    have mem := TokenKind.mem_of_isTrivia isTrivia
    simp only [List.mem_cons, List.not_mem_nil, or_false] at mem
    rcases mem with rfl | rfl | rfl | rfl | rfl
    · simp [TokenKind.mayBegin, slash]
    · simp [TokenKind.mayBegin, hash]
    · simp [TokenKind.mayBegin, slash]
    · simp [TokenKind.mayBegin, newline (isBig rfl)]
    · simp [TokenKind.mayBegin, space, tab]

namespace Lexer

/-- Skipping passes a gap. -/
theorem shows_skip_of_gap {kinds : List TokenKind} {noEnd : .endOfInput ∉ kinds} {big : Bool}
    (all : ∀ k : TokenKind, k ∈ kinds ↔ k.isTrivia = true ∧ (k = .newline → big = true))
    {g rest : List Char} (gap : Gap big g) (solid : Solid big rest) {lx : Lexer}
    (h : lx.Shows (.at (g ++ rest))) : (skip kinds noEnd lx).Shows (.at rest) := by
  induction hn : g.length using Nat.strongRecOn generalizing g lx with
  | ind n ih =>
    by_cases ne_nil : g = []
    · subst ne_nil
      exact skip_of_lacks h fun k hk => solid.lacks ((all k).mp hk).1 ((all k).mp hk).2
    · obtain ⟨kind, lexeme, g', offered⟩ := gap.exists_offered ne_nil solid
      obtain ⟨next, shows, same⟩ : ∃ next : Lexer, next.Shows (.at (g' ++ rest)) ∧
          skip kinds noEnd lx = skip kinds noEnd next :=
        skip_of_offers h ((all kind).mpr ⟨offered.isTrivia, offered.isBig⟩) offered.offers
          fun k hk => offered.others k ((all k).mp hk).1
      rw [same]
      exact ih _ (hn ▸ offered.shorter) offered.gap shows rfl

end Lexer

namespace Parser

theorem reads_skipSmallGap {g rest : List Char} (gap : Gap false g) (solid : Solid false rest) :
    skipSmallGap.Reads (.at (g ++ rest)) (fun _ => True) (.at rest) := by
  intro s hs
  refine ⟨(), _, rfl, trivial, Lexer.shows_skip_of_gap (fun k => ?_) gap solid hs⟩
  cases k <;> simp [TokenKind.isTrivia]

theorem reads_skipBigGap {g rest : List Char} (gap : Gap true g) (solid : Solid true rest) :
    skipBigGap.Reads (.at (g ++ rest)) (fun _ => True) (.at rest) := by
  intro s hs
  refine ⟨(), _, rfl, trivial, Lexer.shows_skip_of_gap (fun k => ?_) gap solid hs⟩
  cases k <;> simp [TokenKind.isTrivia]

end Parser

end FusionTree
