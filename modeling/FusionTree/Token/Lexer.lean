import FusionTree.Source.Span
import FusionTree.Token.Rule

/-!
# Lexer

A lexer hands out tokens on demand: it is asked for one kind, tries only the rule of that kind at
its cursor, and keeps a match as the lookahead until it is consumed. While a lookahead is kept, it
answers every request, whatever kind is asked for.

`Lexer.unread` measures what is left to read. No operation makes it larger, and consuming a token
that is not the end of the input makes it smaller; every loop over tokens ends because of that.
-/

namespace FusionTree

/-- A piece of a source with its lexical class. -/
structure Token where
  kind : TokenKind
  lexeme : List Char
  span : Span

/-- A reader of tokens. The cursor is the byte offset of `rest`, the text that no token has taken
yet; a lookahead stands before the cursor. -/
structure Lexer where
  source : Source
  cursor : Nat
  rest : List Char
  lookahead : Option Token

namespace Lexer

def ofSource (source : Source) : Lexer :=
  { source, cursor := 0, rest := source.text, lookahead := none }

/-- What is left to read: two for every character and one for a lookahead that is not the end of
the input. -/
def unread (lx : Lexer) : Nat :=
  2 * lx.rest.length +
    match lx.lookahead with
    | some token => if token.kind = .endOfInput then 0 else 1
    | none => 0

/-- The range from `start` to `stop`, or an empty one at `start` if there is no such range. -/
def span (lx : Lexer) (start stop : Nat) : Span :=
  (Span.new? lx.source start stop).getD (Span.emptyAt lx.source start)

def peekChar (lx : Lexer) : Option Char :=
  lx.rest.head?

/-- The range of the character at `offset`, empty at the end of the source. -/
def charSpan (lx : Lexer) (offset : Nat) : Span :=
  match (Text.dropBytes offset lx.source.text).bind List.head? with
  | some c => lx.span offset (offset + c.utf8Size)
  | none => lx.span offset offset

/-- The range from the cursor to `stop`. It needs no check: the cursor lies between two characters,
and so does the end of what the rest of the text starts with. -/
def ahead (lx : Lexer) (stop : Nat) : Span :=
  { source := lx.source, start := lx.cursor, stop }

/-- Takes the lexeme at the cursor as a token. An empty lexeme is none. -/
def takeLexeme (lx : Lexer) (kind : TokenKind) : List Char → Lexer
  | [] => lx
  | c :: tail =>
    let lexeme := c :: tail
    let stop := lx.cursor + Text.byteLength lexeme
    { lx with
      cursor := stop
      rest := lx.rest.drop lexeme.length
      lookahead := some { kind, lexeme, span := lx.ahead stop } }

/-- Makes a lookahead of the kind, if the rule of the kind matches at the cursor. At the end of
the input the lookahead is the end of the input, whatever kind is asked for. -/
def generate (lx : Lexer) (kind : TokenKind) : Lexer :=
  match lx.rest with
  | [] =>
    { lx with lookahead := some ⟨.endOfInput, [], lx.ahead lx.cursor⟩ }
  | _ :: _ => lx.takeLexeme kind ((kind.lexeme? lx.rest).getD [])

/-- Asks for a token of a kind: a lookahead stays as it is, otherwise one is made if possible. -/
def tryMatch (lx : Lexer) (kind : TokenKind) : Lexer :=
  if lx.lookahead.isSome then lx else lx.generate kind

def consume (lx : Lexer) : Lexer :=
  { lx with lookahead := none }

def holds (lx : Lexer) (kind : TokenKind) : Bool :=
  lx.lookahead.any (·.kind = kind)

def take (lx : Lexer) (kind : TokenKind) : Option Token × Lexer :=
  let lx := lx.tryMatch kind
  if lx.holds kind then (lx.lookahead, lx.consume) else (none, lx)

theorem unread_takeLexeme_le (lx : Lexer) (kind : TokenKind) (lexeme : List Char)
    (noLookahead : lx.lookahead = none) (hasRest : lx.rest ≠ []) :
    (lx.takeLexeme kind lexeme).unread ≤ lx.unread := by
  cases lexeme with
  | nil => exact Nat.le_refl _
  | cons c tail =>
    have := List.length_pos_iff.mpr hasRest
    simp only [takeLexeme, unread, noLookahead, List.length_drop, List.length_cons]
    split <;> omega

theorem unread_tryMatch_le (lx : Lexer) (kind : TokenKind) :
    (lx.tryMatch kind).unread ≤ lx.unread := by
  unfold tryMatch
  split
  · exact Nat.le_refl _
  · rename_i noLookahead
    have noLookahead : lx.lookahead = none := by simpa using noLookahead
    unfold generate
    split
    · rename_i h
      simp [unread, h, noLookahead]
    · rename_i h
      exact unread_takeLexeme_le lx kind _ noLookahead (by simp [h])

theorem unread_consume_le (lx : Lexer) : lx.consume.unread ≤ lx.unread := by
  simp [consume, unread]

theorem unread_consume_lt (lx : Lexer) {kind : TokenKind} (holds : lx.holds kind)
    (ne : kind ≠ .endOfInput) : lx.consume.unread < lx.unread := by
  unfold Lexer.holds at holds
  cases h : lx.lookahead with
  | none => simp [h] at holds
  | some token =>
    simp only [h, Option.any_some, decide_eq_true_eq] at holds
    simp [consume, unread, h, holds, ne]

theorem unread_take_le (lx : Lexer) (kind : TokenKind) :
    (lx.take kind).2.unread ≤ lx.unread := by
  unfold take
  dsimp only
  split
  · exact Nat.le_trans (unread_consume_le _) (unread_tryMatch_le lx kind)
  · exact unread_tryMatch_le lx kind

/-- Consuming a token leaves less to read. -/
theorem unread_take_lt (lx : Lexer) {kind : TokenKind} (ne : kind ≠ .endOfInput)
    (taken : (lx.take kind).1.isSome) : (lx.take kind).2.unread < lx.unread := by
  unfold take at taken ⊢
  dsimp only at taken ⊢
  split at taken
  · rename_i holds
    rw [if_pos holds]
    exact Nat.lt_of_lt_of_le (unread_consume_lt _ holds ne) (unread_tryMatch_le lx kind)
  · simp at taken

/-- Consumes a token of the first of some kinds that gives one. Tells whether any did. -/
def takeAny (lx : Lexer) : List TokenKind → Bool × Lexer
  | [] => (false, lx)
  | kind :: kinds =>
    match lx.take kind with
    | (some _, lx) => (true, lx)
    | (none, lx) => lx.takeAny kinds

theorem unread_takeAny_le (lx : Lexer) (kinds : List TokenKind) :
    (lx.takeAny kinds).2.unread ≤ lx.unread := by
  induction kinds generalizing lx with
  | nil => exact Nat.le_refl _
  | cons kind kinds ih =>
    have step := unread_take_le lx kind
    unfold takeAny
    split
    · rename_i h
      rwa [h] at step
    · rename_i h
      rw [h] at step
      exact Nat.le_trans (ih _) step

theorem unread_takeAny_lt (lx : Lexer) {kinds : List TokenKind}
    (noEnd : TokenKind.endOfInput ∉ kinds) (taken : (lx.takeAny kinds).1) :
    (lx.takeAny kinds).2.unread < lx.unread := by
  induction kinds generalizing lx with
  | nil => simp [takeAny] at taken
  | cons kind kinds ih =>
    have ne : kind ≠ .endOfInput := fun h => noEnd (by simp [h])
    unfold takeAny at taken ⊢
    split at taken
    · rename_i h
      have step := unread_take_lt lx ne (by rw [h]; rfl)
      simp only [h] at step ⊢
      exact step
    · rename_i h
      have step := unread_take_le lx kind
      simp only [h] at step ⊢
      exact Nat.lt_of_lt_of_le (ih _ (fun h => noEnd (by simp [h])) taken) step

def skip (kinds : List TokenKind) (noEnd : TokenKind.endOfInput ∉ kinds) (lx : Lexer) : Lexer :=
  match h : lx.takeAny kinds with
  | (true, next) =>
    have : next.unread < lx.unread := by
      simpa only [h] using unread_takeAny_lt lx noEnd (by rw [h])
    skip kinds noEnd next
  | (false, next) => next
termination_by lx.unread

theorem unread_skip_le (kinds : List TokenKind) (noEnd : TokenKind.endOfInput ∉ kinds)
    (lx : Lexer) : (skip kinds noEnd lx).unread ≤ lx.unread := by
  fun_induction skip kinds noEnd lx with
  | case1 lx next _ lt ih => exact Nat.le_of_lt (Nat.lt_of_le_of_lt ih lt)
  | case2 lx next h => simpa only [h] using unread_takeAny_le lx kinds

/-- Skips spaces and comments but stops at a newline. -/
def skipSmallGap : Lexer → Lexer :=
  skip [.space, .slashComment, .hashComment, .blockComment] (by decide)

def skipBigGap : Lexer → Lexer :=
  skip [.space, .newline, .slashComment, .hashComment, .blockComment] (by decide)

theorem unread_skipSmallGap_le (lx : Lexer) : lx.skipSmallGap.unread ≤ lx.unread :=
  unread_skip_le _ _ lx

theorem unread_skipBigGap_le (lx : Lexer) : lx.skipBigGap.unread ≤ lx.unread :=
  unread_skip_le _ _ lx

end Lexer

end FusionTree
