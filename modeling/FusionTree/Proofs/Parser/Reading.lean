import FusionTree.Parser.Statement

/-!
# What parsers read

Where a reading stands is a `View`: a text is left, or a token has been looked at already and a text
is left behind it. `Parser.Reads` says that a parser succeeds from one view, with what value, and at
which view it arrives; there is one rule for each way to put parsers together. Positions and what
has been noted on the way play no part in it.
-/

namespace FusionTree

/-- Where a reading stands. -/
inductive View
  /-- The text is left to read. -/
  | at (text : List Char)
  /-- A token has been looked at, and the text is left behind it. -/
  | seen (kind : TokenKind) (lexeme rest : List Char)

namespace View

/-- Asking for the kind gives the lexeme and leaves the rest. -/
def Offers (kind : TokenKind) (lexeme rest : List Char) : View → Prop
  | .at text => text = lexeme ++ rest ∧ lexeme ≠ [] ∧ kind.lexeme? text = some lexeme
  | seen kind' lexeme' rest' => kind' = kind ∧ lexeme' = lexeme ∧ rest' = rest

def Lacks (kind : TokenKind) : View → Prop
  | .at [] => kind ≠ .endOfInput
  | .at (c :: rest) => kind.lexeme? (c :: rest) = none
  | seen kind' _ _ => kind' ≠ kind

theorem offers_seen (kind : TokenKind) (lexeme rest : List Char) :
    (seen kind lexeme rest).Offers kind lexeme rest :=
  ⟨rfl, rfl, rfl⟩

end View

namespace Lexer

/-- The lexer stands at the view. At the end of the input it may have noticed that already. -/
def Shows (lx : Lexer) : View → Prop
  | .at text => lx.rest = text ∧
      (lx.lookahead = none ∨
        text = [] ∧ ∃ token, lx.lookahead = some token ∧ token.kind = .endOfInput)
  | .seen kind lexeme rest => lx.rest = rest ∧
      ∃ token, lx.lookahead = some token ∧ token.kind = kind ∧ token.lexeme = lexeme

variable {lx : Lexer} {v : View} {kind : TokenKind} {lexeme rest : List Char}

theorem tryMatch_of_offers (h : lx.Shows v) (offers : v.Offers kind lexeme rest) :
    (lx.tryMatch kind).Shows (.seen kind lexeme rest) := by
  cases v with
  | «at» text =>
    obtain ⟨rfl, ne_nil, matched⟩ := offers
    obtain ⟨hrest, noLookahead | ⟨nothing, _⟩⟩ := h
    · obtain ⟨c, tail, rfl⟩ := List.exists_cons_of_ne_nil ne_nil
      rw [List.cons_append] at matched hrest
      simp [tryMatch, noLookahead, generate, hrest, matched, takeLexeme, Shows]
    · exact absurd (List.append_eq_nil_iff.mp nothing).1 ne_nil
  | seen =>
    obtain ⟨rfl, rfl, rfl⟩ := offers
    obtain ⟨hrest, token, held, same⟩ := h
    simpa [tryMatch, held] using ⟨hrest, token, held, same⟩

theorem tryMatch_of_lacks (h : lx.Shows v) (lacks : v.Lacks kind) :
    (lx.tryMatch kind).Shows v ∧ (lx.tryMatch kind).holds kind = false := by
  cases v with
  | «at» text =>
    obtain ⟨hrest, noLookahead | ⟨rfl, token, held, same⟩⟩ := h
    · cases text with
      | nil =>
        have other : ¬TokenKind.endOfInput = kind := fun h => lacks h.symm
        simp [tryMatch, noLookahead, generate, hrest, Shows, holds, other]
      | cons c rest =>
        have nothing : kind.lexeme? (c :: rest) = none := lacks
        simp [tryMatch, noLookahead, generate, hrest, nothing, takeLexeme, Shows, holds]
    · have other : ¬TokenKind.endOfInput = kind := fun h => lacks h.symm
      simp [tryMatch, held, Shows, holds, hrest, same, other]
  | seen =>
    obtain ⟨hrest, token, held, rfl, rfl⟩ := h
    have other : ¬token.kind = kind := lacks
    simp [tryMatch, held, Shows, holds, hrest, other]

theorem holds_of_seen (h : lx.Shows (.seen kind lexeme rest)) : lx.holds kind = true := by
  obtain ⟨_, token, held, same, _⟩ := h
  simp [holds, held, same]

theorem take_of_offers (h : lx.Shows v) (offers : v.Offers kind lexeme rest) :
    ∃ token, (lx.take kind).1 = some token ∧ token.lexeme = lexeme ∧
      (lx.take kind).2.Shows (.at rest) := by
  have matched := tryMatch_of_offers h offers
  have holds := holds_of_seen matched
  obtain ⟨hrest, token, held, _, same⟩ := matched
  exact ⟨token, by simp [take, holds, held], same, by simp [take, holds, consume, Shows, hrest]⟩

theorem take_of_lacks (h : lx.Shows v) (lacks : v.Lacks kind) :
    (lx.take kind).1 = none ∧ (lx.take kind).2.Shows v := by
  obtain ⟨shows, not_held⟩ := tryMatch_of_lacks h lacks
  simpa [take, not_held] using shows

/-! ### Requests for any of some kinds -/

variable {kinds : List TokenKind} {noEnd : TokenKind.endOfInput ∉ kinds}

theorem takeAny_of_some {token : Token} (h : (lx.take kind).1 = some token)
    (kinds : List TokenKind) : lx.takeAny (kind :: kinds) = (true, (lx.take kind).2) := by
  rw [takeAny, show lx.take kind = (some token, (lx.take kind).2) from Prod.ext h rfl]

theorem takeAny_of_none (h : (lx.take kind).1 = none) (kinds : List TokenKind) :
    lx.takeAny (kind :: kinds) = (lx.take kind).2.takeAny kinds := by
  rw [takeAny, show lx.take kind = (none, (lx.take kind).2) from Prod.ext h rfl]

theorem skip_of_true (h : (lx.takeAny kinds).1 = true) :
    skip kinds noEnd lx = skip kinds noEnd (lx.takeAny kinds).2 := by
  rw [skip]
  split
  · rename_i taken
    exact congrArg (skip kinds noEnd) (congrArg Prod.snd taken).symm
  · rename_i taken
    rw [taken] at h
    cases h

theorem skip_of_false (h : (lx.takeAny kinds).1 = false) :
    skip kinds noEnd lx = (lx.takeAny kinds).2 := by
  rw [skip]
  split
  · rename_i taken
    rw [taken] at h
    cases h
  · rename_i taken
    rw [taken]

/-- What each request keeps is kept when a gap is skipped. -/
theorem skip_induction {P : Lexer → Prop}
    (step : ∀ lx : Lexer, P lx → P (lx.takeAny kinds).2) (h : P lx) : P (skip kinds noEnd lx) := by
  fun_induction skip kinds noEnd lx with
  | case1 lx next eq _ ih => exact ih (by simpa only [eq] using step lx h)
  | case2 lx next eq => simpa only [eq] using step lx h

end Lexer

namespace Parser

variable {α β : Type}

/-! ### Equations of the repetitions -/

theorem eq_of_run {p q : Parser α} (h : ∀ s, p.run s = q.run s) : p = q := by
  obtain ⟨run, _⟩ := p
  obtain ⟨run', _⟩ := q
  obtain rfl : run = run' := funext h
  rfl

/-- What is left to read gets less with each token that is taken. -/
theorem unread_lt_of_take {kind : TokenKind} {t : Token} {s s' : Reading} (ne : kind ≠ .endOfInput)
    (taken : (take kind).run s = .ok (some t) s') : s'.unread < s.unread := by
  obtain ⟨found, rfl⟩ := EStateM.Result.ok.inj taken
  have found : (s.lexer.take kind).1 = some t := found
  exact Lexer.unread_take_lt s.lexer ne (by simp [found])

theorem eachAfter_eq (kind : TokenKind) (ne : kind ≠ .endOfInput) (p : Parser α) :
    eachAfter kind ne p =
      onToken kind (fun _ => do return (← p) :: (← eachAfter kind ne p)) (pure []) := by
  refine eq_of_run fun s => ?_
  change eachAfterFrom kind ne p s = _
  rw [eachAfterFrom]
  simp only [onToken, run_bind, take]
  split
  · rename_i taken
    rw [taken]
    rfl
  · rename_i taken
    simp only [taken, run_bind]
    split
    · rename_i read
      simp only [read]
    · rename_i a s' read
      simp only [read]
      have more : (eachAfter kind ne p).run s' = eachAfterFrom kind ne p s' := rfl
      rw [more]
      cases eachAfterFrom kind ne p s' <;> rfl

theorem repeatUntil_eq (done : Parser Bool) (p : Parser α) (progress : p.Progresses) :
    repeatUntil done p progress = (do
      if ← done then return []
      return (← p) :: (← repeatUntil done p progress)) := by
  refine eq_of_run fun s => ?_
  change repeatUntilFrom done p progress s = _
  rw [repeatUntilFrom]
  simp only [run_bind]
  split
  · rename_i asked
    simp only [asked]
  · rename_i asked
    simp only [asked]
    rfl
  · rename_i asked
    simp only [asked, run_bind, Bool.false_eq_true, if_false]
    split
    · rename_i read
      simp only [read]
    · rename_i a s' read
      simp only [read]
      have more : (repeatUntil done p progress).run s' = repeatUntilFrom done p progress s' := rfl
      rw [more]
      cases repeatUntilFrom done p progress s' <;> rfl

def contentsIn : (room : Nat) → Option (Parser (List Statement))
  | 0 => none
  | room + 1 => some (statements room true)

theorem statements_eq (room : Nat) (inBlock : Bool) :
    statements room inBlock = repeatUntil (endOfStatements inBlock)
      (statement inBlock (contentsIn room)) (progresses_statement _ _) := by
  cases room <;> rfl

/-! ### What a parser comes to -/

def Ends (p : Parser α) (v : View) (C : Outcome α → Prop) : Prop :=
  ∀ s, s.lexer.Shows v → C (p.run s)

/-- From the first view the parser reads a value with the property and arrives at the second. -/
def Reads (p : Parser α) (v : View) (Q : α → Prop) (w : View) : Prop :=
  p.Ends v fun outcome => ∃ a s', outcome = .ok a s' ∧ Q a ∧ s'.lexer.Shows w

def Fails (p : Parser α) (v : View) (cause : Cause) : Prop :=
  p.Ends v fun outcome => ∃ e s', outcome = .error e s' ∧ e.cause = cause

section Reads

variable {p : Parser α} {f : α → Parser β} {v w u : View} {Q Q' : α → Prop} {R : β → Prop}
  {kind : TokenKind} {lexeme rest : List Char}

theorem Reads.mono (h : p.Reads v Q w) (le : ∀ a, Q a → Q' a) : p.Reads v Q' w := by
  intro s hs
  obtain ⟨a, s', run, ha, hs'⟩ := h s hs
  exact ⟨a, s', run, le a ha, hs'⟩

theorem reads_pure {a : α} (h : Q a) (v : View) : (pure a : Parser α).Reads v Q v :=
  fun s hs => ⟨a, s, rfl, h, hs⟩

/-- What has been read decides where the rest ends. -/
theorem Reads.bind_ends {C : Outcome β → Prop} (hp : p.Reads v Q w)
    (hf : ∀ a, Q a → (f a).Ends w C) : (p >>= f).Ends v C := by
  intro s hs
  obtain ⟨a, s', run, ha, hs'⟩ := hp s hs
  rw [run_bind, run]
  exact hf a ha s' hs'

theorem Reads.bind (hp : p.Reads v Q w) (hf : ∀ a, Q a → (f a).Reads w R u) :
    (p >>= f).Reads v R u :=
  hp.bind_ends hf

theorem Fails.bind {cause : Cause} (hp : p.Fails v cause) (f : α → Parser β) :
    (p >>= f).Fails v cause := by
  intro s hs
  obtain ⟨e, s', run, same⟩ := hp s hs
  exact ⟨e, s', by rw [run_bind, run], same⟩

theorem fails_failHere (error : SyntaxError) (v : View) :
    (failHere error : Parser α).Fails v (.syntactic error) :=
  fun _ _ => ⟨_, _, rfl, rfl⟩

theorem reads_getLexer (v : View) : getLexer.Reads v (fun _ => True) v :=
  fun s hs => ⟨s.lexer, s, rfl, trivial, hs⟩

theorem reads_noteInclude (pattern : String) (v : View) :
    (noteInclude pattern).Reads v (fun _ => True) v :=
  fun _ hs => ⟨(), _, rfl, trivial, hs⟩

theorem reads_accept (h : v.Offers kind lexeme rest) :
    (accept kind).Reads v (· = true) (.seen kind lexeme rest) := by
  intro s hs
  have matched := Lexer.tryMatch_of_offers hs h
  exact ⟨_, _, rfl, Lexer.holds_of_seen matched, matched⟩

theorem reads_accept_false (h : v.Lacks kind) : (accept kind).Reads v (· = false) v := by
  intro s hs
  obtain ⟨shows, not_held⟩ := Lexer.tryMatch_of_lacks hs h
  exact ⟨_, _, rfl, not_held, shows⟩

theorem reads_accept_endOfInput : (accept .endOfInput).Reads (.at []) (· = true) (.at []) := by
  rintro _ ⟨hrest, noLookahead | ⟨_, token, held, same⟩⟩
  · exact ⟨_, _, rfl, by simp [Lexer.tryMatch, noLookahead, Lexer.generate, hrest, Lexer.holds],
      by simp [Lexer.tryMatch, noLookahead, Lexer.generate, hrest, Lexer.Shows]⟩
  · exact ⟨_, _, rfl, by simp [Lexer.tryMatch, held, Lexer.holds, same],
      by simp [Lexer.tryMatch, held, Lexer.Shows, hrest, same]⟩

theorem reads_take (h : v.Offers kind lexeme rest) :
    (take kind).Reads v (fun t => ∃ token, t = some token ∧ token.lexeme = lexeme) (.at rest) := by
  intro s hs
  obtain ⟨token, taken, same, shows⟩ := Lexer.take_of_offers hs h
  exact ⟨_, _, rfl, ⟨token, taken, same⟩, shows⟩

theorem reads_take_none (h : v.Lacks kind) : (take kind).Reads v (· = none) v := by
  intro s hs
  obtain ⟨nothing, shows⟩ := Lexer.take_of_lacks hs h
  exact ⟨_, _, rfl, nothing, shows⟩

theorem reads_onToken {found : Token → Parser α} {otherwise : Parser α}
    (h : v.Offers kind lexeme rest)
    (then_ : ∀ token, token.lexeme = lexeme → (found token).Reads (.at rest) Q w) :
    (onToken kind found otherwise).Reads v Q w := by
  refine (reads_take h).bind ?_
  rintro _ ⟨token, rfl, same⟩
  exact then_ token same

theorem reads_onToken_otherwise {found : Token → Parser α} {otherwise : Parser α}
    (h : v.Lacks kind) (else_ : otherwise.Reads v Q w) :
    (onToken kind found otherwise).Reads v Q w := by
  refine (reads_take_none h).bind ?_
  rintro _ rfl
  exact else_

theorem reads_expect (h : v.Offers kind lexeme rest) :
    (expect kind).Reads v (fun token => token.lexeme = lexeme) (.at rest) := by
  refine reads_onToken h fun token same => ?_
  exact fun s hs => ⟨token, s, rfl, same, hs⟩

/-! ### Repetitions -/

theorem reads_eachAfter_nil {ne : kind ≠ .endOfInput} (h : v.Lacks kind) :
    (eachAfter kind ne p).Reads v (· = []) v := by
  rw [eachAfter_eq]
  exact reads_onToken_otherwise h (reads_pure (Q := (· = [])) rfl v)

theorem reads_eachAfter_cons {ne : kind ≠ .endOfInput} {S : List α → Prop}
    (h : v.Offers kind lexeme rest) (first : p.Reads (.at rest) Q w)
    (more : (eachAfter kind ne p).Reads w S u) :
    (eachAfter kind ne p).Reads v (fun as => ∃ a tail, as = a :: tail ∧ Q a ∧ S tail) u := by
  rw [eachAfter_eq]
  exact reads_onToken h fun _ _ => first.bind fun a ha => more.bind fun as has =>
    reads_pure ⟨a, as, rfl, ha, has⟩ u

theorem reads_repeatUntil_nil {done : Parser Bool} {progress : p.Progresses}
    (h : done.Reads v (· = true) w) : (repeatUntil done p progress).Reads v (· = []) w := by
  rw [repeatUntil_eq]
  refine h.bind ?_
  rintro _ rfl
  exact reads_pure (Q := (· = [])) rfl w

theorem reads_repeatUntil_cons {done : Parser Bool} {progress : p.Progresses} {v' : View}
    {S : List α → Prop} (h : done.Reads v (· = false) v') (first : p.Reads v' Q w)
    (more : (repeatUntil done p progress).Reads w S u) :
    (repeatUntil done p progress).Reads v
      (fun as => ∃ a tail, as = a :: tail ∧ Q a ∧ S tail) u := by
  rw [repeatUntil_eq]
  refine h.bind ?_
  rintro _ rfl
  exact first.bind fun a ha => more.bind fun as has => reads_pure ⟨a, as, rfl, ha, has⟩ u

end Reads

end Parser

end FusionTree
