import FusionTree.Proofs.Source.Pieces
import FusionTree.Proofs.Token.Lexemes
import FusionTree.Token.Lexer

/-!
# How a lexer tiles its source

A lexer may be asked for tokens and made to give up its lookahead in any order. Whatever the order,
the tokens that it has made lie one behind the other and cover the text before the cursor. A
lookahead answers every request until it is given up; without one, the first request whose rule
matches makes a token, and the requests before it change nothing.
-/

namespace FusionTree

open Text

namespace Lexer

/-! ### What a request does -/

def atEnd (lx : Lexer) : Lexer :=
  { lx with lookahead := some ⟨.endOfInput, [], lx.ahead lx.cursor⟩ }

/-- The lexer with a token as its lookahead whose lexeme stands at the cursor, in front of the
rest. -/
def past (lx : Lexer) (kind : TokenKind) (lexeme rest : List Char) : Lexer :=
  { lx with
    cursor := lx.cursor + byteLength lexeme
    rest
    lookahead := some ⟨kind, lexeme, lx.ahead (lx.cursor + byteLength lexeme)⟩ }

variable {lx : Lexer} {kind : TokenKind} {lexeme rest : List Char}

theorem tryMatch_of_lookahead {token : Token} (h : lx.lookahead = some token) (kind : TokenKind) :
    lx.tryMatch kind = lx := by
  simp [tryMatch, h]

theorem tryMatch_at_end (noLookahead : lx.lookahead = none) (h : lx.rest = []) (kind : TokenKind) :
    lx.tryMatch kind = lx.atEnd := by
  simp [tryMatch, noLookahead, generate, h, atEnd]

theorem tryMatch_of_match (noLookahead : lx.lookahead = none) (h : lx.rest = lexeme ++ rest)
    (rule : kind.lexeme? lx.rest = some lexeme) :
    lx.tryMatch kind = lx.past kind lexeme rest := by
  obtain ⟨c, tail, rfl⟩ := List.exists_cons_of_ne_nil (TokenKind.ne_nil_of_lexeme? rule)
  rw [h, List.cons_append] at rule
  simp [tryMatch, noLookahead, generate, h, rule, takeLexeme, past]

theorem tryMatch_of_no_match (noLookahead : lx.lookahead = none) (h : lx.rest ≠ [])
    (rule : kind.lexeme? lx.rest = none) : lx.tryMatch kind = lx := by
  obtain ⟨c, tail, eq⟩ := List.exists_cons_of_ne_nil h
  rw [eq] at rule
  simp [tryMatch, noLookahead, generate, eq, rule, takeLexeme]

/-- What a request does: a lookahead stays; at the end of the input, the end becomes the lookahead;
otherwise the lexeme that the rule of the kind finds at the cursor does, if it finds one. -/
theorem tryMatch_cases (lx : Lexer) (kind : TokenKind) :
    (lx.lookahead ≠ none ∧ lx.tryMatch kind = lx) ∨
    (lx.lookahead = none ∧ lx.rest = [] ∧ lx.tryMatch kind = lx.atEnd) ∨
    (∃ lexeme rest, lx.lookahead = none ∧ lx.rest = lexeme ++ rest ∧
      kind.lexeme? lx.rest = some lexeme ∧ lx.tryMatch kind = lx.past kind lexeme rest) ∨
    (lx.lookahead = none ∧ lx.rest ≠ [] ∧ kind.lexeme? lx.rest = none ∧
      lx.tryMatch kind = lx) := by
  cases looked : lx.lookahead with
  | some token => exact .inl ⟨nofun, tryMatch_of_lookahead looked kind⟩
  | none =>
    by_cases nothing : lx.rest = []
    · exact .inr (.inl ⟨rfl, nothing, tryMatch_at_end looked nothing kind⟩)
    · cases rule : kind.lexeme? lx.rest with
      | some lexeme =>
        obtain ⟨rest, eq⟩ := TokenKind.matchesHead_lexeme? kind _ _ rule
        exact .inr (.inr (.inl ⟨lexeme, rest, rfl, eq.symm, rfl,
          tryMatch_of_match looked eq.symm rule⟩))
      | none =>
        exact .inr (.inr (.inr ⟨rfl, nothing, rfl, tryMatch_of_no_match looked nothing rule⟩))

/-! ### Requests one after another -/

/-- Requests change nothing as long as a lookahead answers them. -/
theorem tryAll_of_lookahead {token : Token} (h : lx.lookahead = some token)
    (kinds : List TokenKind) : kinds.foldl tryMatch lx = lx := by
  induction kinds with
  | nil => rfl
  | cons kind kinds ih => rw [List.foldl_cons, tryMatch_of_lookahead h, ih]

/-- The first of some kinds whose rule matches, with the lexeme that it finds. -/
def firstMatch (kinds : List TokenKind) (text : List Char) : Option (TokenKind × List Char) :=
  kinds.findSome? fun kind => (kind.lexeme? text).map (kind, ·)

/-- Before the end of the input, the first request whose rule matches makes the token. -/
theorem tryAll_of_no_lookahead (noLookahead : lx.lookahead = none) (h : lx.rest ≠ [])
    (kinds : List TokenKind) :
    kinds.foldl tryMatch lx =
      match firstMatch kinds lx.rest with
      | none => lx
      | some (kind, lexeme) => lx.past kind lexeme (lx.rest.drop lexeme.length) := by
  induction kinds with
  | nil => rfl
  | cons kind kinds ih =>
    rw [List.foldl_cons, firstMatch, List.findSome?_cons]
    cases rule : kind.lexeme? lx.rest with
    | some lexeme =>
      obtain ⟨rest, eq⟩ := TokenKind.matchesHead_lexeme? kind _ _ rule
      rw [tryMatch_of_match noLookahead eq.symm rule, tryAll_of_lookahead rfl kinds, ← eq]
      simp
    | none =>
      rw [tryMatch_of_no_match noLookahead h rule]
      exact ih

end Lexer

/-! ### Calls of a lexer -/

namespace Lexer

/-- What one can do with a lexer. -/
inductive Call
  | ask (kind : TokenKind)
  | consume

/-- A lexer, and the tokens that it has made so far, the earliest first, each with the kind that was
asked for. -/
structure History where
  lexer : Lexer
  made : List (TokenKind × Token) := []

namespace History

/-- The lexer after one more call. A token has been made if there is a lookahead that was not there
before. -/
def call (h : History) : Call → History
  | .ask kind =>
    let lexer := h.lexer.tryMatch kind
    { lexer
      made := h.made ++
        if h.lexer.lookahead.isSome then [] else lexer.lookahead.toList.map (kind, ·) }
  | .consume => { h with lexer := h.lexer.consume }

def calls (h : History) (cs : List Call) : History :=
  cs.foldl call h

def text (h : History) : List Char :=
  h.made.flatMap (·.2.lexeme)

end History

/-- The token lies in the source where its lexeme is, and is one that asking for the kind may make:
the end of the input, or a lexeme that the rule of the kind has found. -/
structure Made (src : Source) (kind : TokenKind) (token : Token) : Prop where
  span : ∃ before after, src.text = before ++ (token.lexeme ++ after) ∧
    token.span = src.piece before token.lexeme
  rule : (token.kind = .endOfInput ∧ token.lexeme = []) ∨
    (token.kind = kind ∧ ∃ text, kind.lexeme? text = some token.lexeme)

/-- The tokens that have been made cover the text before the cursor, one behind the other; a
lookahead is the latest of them. -/
structure History.Tiles (h : History) (src : Source) : Prop where
  source : h.lexer.source = src
  text : src.text = h.text ++ h.lexer.rest
  cursor : h.lexer.cursor = byteLength h.text
  made : ∀ m ∈ h.made, Made src m.1 m.2
  latest : ∀ token, h.lexer.lookahead = some token → h.made.getLast?.map Prod.snd = some token

namespace History

variable {h : History} {src : Source}

theorem tiles_start (src : Source) : Tiles { lexer := ofSource src } src where
  source := rfl
  text := rfl
  cursor := rfl
  made m hm := by cases hm
  latest token ht := by cases ht

theorem Tiles.ask (tiles : h.Tiles src) (kind : TokenKind) : (h.call (.ask kind)).Tiles src := by
  obtain ⟨source, text, cursor, made, latest⟩ := tiles
  rcases h.lexer.tryMatch_cases kind with ⟨looked, same⟩ | ⟨noLookahead, nothing, ended⟩ |
    ⟨lexeme, rest, noLookahead, eq, rule, found⟩ | ⟨noLookahead, _, _, same⟩
  · -- a lookahead answers
    have unchanged : h.call (.ask kind) = h := by
      simp [call, same, Option.isSome_iff_ne_none.mpr looked]
    rw [unchanged]
    exact ⟨source, text, cursor, made, latest⟩
  · have after : h.call (.ask kind) = ⟨h.lexer.atEnd,
        h.made ++ [(kind, ⟨.endOfInput, [], h.lexer.ahead h.lexer.cursor⟩)]⟩ := by
      simp [call, ended, noLookahead, atEnd]
    rw [after]
    refine ⟨source, by simpa [History.text, atEnd] using text,
      by simpa [History.text, atEnd] using cursor, ?_, by simp [atEnd]⟩
    intro m hm
    rcases List.mem_append.mp hm with hm | hm
    · exact made m hm
    · obtain rfl := List.mem_singleton.mp hm
      refine ⟨⟨h.text, h.lexer.rest, by simpa using text, ?_⟩, .inl ⟨rfl, rfl⟩⟩
      simp [ahead, Source.piece, source, cursor]
  · have after : h.call (.ask kind) = ⟨h.lexer.past kind lexeme rest, h.made ++
        [(kind, ⟨kind, lexeme, h.lexer.ahead (h.lexer.cursor + byteLength lexeme)⟩)]⟩ := by
      simp [call, found, noLookahead, past]
    rw [after]
    refine ⟨source, by simpa [History.text, past, eq] using text,
      by simp [History.text, past, cursor], ?_, by simp [past]⟩
    intro m hm
    rcases List.mem_append.mp hm with hm | hm
    · exact made m hm
    · obtain rfl := List.mem_singleton.mp hm
      refine ⟨⟨h.text, rest, by rw [text, eq], ?_⟩, .inr ⟨rfl, _, rule⟩⟩
      simp [ahead, Source.piece, source, cursor]
  · have unchanged : h.call (.ask kind) = h := by simp [call, same, noLookahead]
    rw [unchanged]
    exact ⟨source, text, cursor, made, latest⟩

theorem Tiles.call (tiles : h.Tiles src) (c : Call) : (h.call c).Tiles src := by
  cases c with
  | ask kind => exact tiles.ask kind
  | consume => exact ⟨tiles.source, tiles.text, tiles.cursor, tiles.made, nofun⟩

theorem Tiles.calls (tiles : h.Tiles src) (cs : List Call) : (h.calls cs).Tiles src := by
  induction cs generalizing h with
  | nil => exact tiles
  | cons c cs ih => exact ih (tiles.call c)

end History

/-- The text under a token that has been made is its lexeme. -/
theorem Made.text {src : Source} {kind : TokenKind} {token : Token} (h : Made src kind token) :
    token.span.LiesIn src ∧ token.span.text = token.lexeme := by
  obtain ⟨before, after, eq, span⟩ := h.span
  rw [span]
  exact ⟨Source.liesIn_piece eq, Source.text_piece eq⟩

/-- Whatever one does with a lexer, its cursor stands between two characters, and the texts of the
tokens that it has made are the text before the cursor. Each token is a piece of the source; unless
it is the end of the input, it is not empty and has the kind that was asked for. A lookahead answers
every request as it is. Without a lookahead and before the end of the input, the first request whose
rule matches at the cursor leaves its token, and if there is none, the lexer stays as it is. -/
theorem tiles_source (src : Source) (cs : List Call) :
    let h := History.calls { lexer := ofSource src } cs
    let lx := h.lexer
    IsBoundary src.text lx.cursor ∧ lx.cursor ≤ src.size ∧
      src.slice? 0 lx.cursor = some (h.made.flatMap (·.2.span.text)) ∧
      (∀ m ∈ h.made, m.2.span.LiesIn src ∧ m.2.span.text = m.2.lexeme ∧
        (m.2.kind ≠ .endOfInput → m.2.span.text ≠ [] ∧ m.2.kind = m.1)) ∧
      (∀ token, lx.lookahead = some token → ∀ kinds : List TokenKind,
        kinds.foldl tryMatch lx = lx) ∧
      (lx.lookahead = none → lx.cursor < src.size → ∃ rest,
        src.slice? lx.cursor src.size = some rest ∧ ∀ kinds : List TokenKind,
          match firstMatch kinds rest with
          | none => kinds.foldl tryMatch lx = lx
          | some (kind, lexeme) =>
            let stop := lx.cursor + byteLength lexeme
            (kinds.foldl tryMatch lx).lookahead = some ⟨kind, lexeme, ⟨src, lx.cursor, stop⟩⟩ ∧
              (kinds.foldl tryMatch lx).cursor = stop) := by
  intro h lx
  have tiles : h.Tiles src := (History.tiles_start src).calls cs
  have texts : h.made.flatMap (·.2.span.text) = h.text := by
    rw [History.text, List.flatMap_def, List.flatMap_def,
      List.map_congr_left fun m hm => (tiles.made m hm).text.2]
  have size : src.size = lx.cursor + byteLength lx.rest := by
    rw [Source.size, tiles.text, byteLength_append, tiles.cursor]
  refine ⟨⟨h.text, lx.rest, tiles.text, tiles.cursor.symm⟩, by omega, ?_, fun m hm => ?_,
    fun token looked => tryAll_of_lookahead looked, fun noLookahead before => ?_⟩
  · have covered : src.text = [] ++ (h.text ++ lx.rest) := tiles.text
    rw [texts, tiles.cursor]
    simpa using Source.slice?_append covered
  · have made := tiles.made m hm
    refine ⟨made.text.1, made.text.2, fun other => ?_⟩
    obtain ⟨same, text, rule⟩ := made.rule.resolve_left fun ended => other ended.1
    rw [made.text.2]
    exact ⟨TokenKind.ne_nil_of_lexeme? rule, same⟩
  · have behind : src.text = h.text ++ (lx.rest ++ []) := by simpa using tiles.text
    refine ⟨lx.rest, by rw [size, tiles.cursor]; exact Source.slice?_append behind, fun kinds => ?_⟩
    have ne_nil : lx.rest ≠ [] := by
      intro nothing
      rw [nothing] at size
      exact absurd size (Nat.ne_of_gt before)
    rw [tryAll_of_no_lookahead noLookahead ne_nil]
    split
    · rfl
    · exact ⟨by simp [past, ahead, lx, tiles.source], rfl⟩

/-- Behind a key in quotes, the second request matches. -/
theorem tiles_source_behind_key :
    let src : Source := { text := "'ä' = 1".toList, path := none }
    let h := History.calls { lexer := ofSource src } [.ask .singleQuoted, .consume]
    h.lexer.lookahead = none ∧ h.lexer.cursor < src.size ∧
      ([.dot, .space, .newline].foldl tryMatch h.lexer).lookahead =
        some ⟨.space, [' '], ⟨src, 4, 5⟩⟩ := by
  intro src h
  refine ⟨rfl, by decide, ?_⟩
  obtain ⟨rest, text, requests⟩ :=
    (tiles_source src [.ask .singleQuoted, .consume]).2.2.2.2.2 rfl (by decide)
  obtain rfl : " = 1".toList = rest := by
    have behind : src.slice? 4 src.size = some " = 1".toList := by decide
    exact Option.some.inj (behind.symm.trans text)
  exact (requests [.dot, .space, .newline]).1

end Lexer

end FusionTree
