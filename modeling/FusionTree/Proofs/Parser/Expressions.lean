import FusionTree.Proofs.Parser.Mirroring

/-!
# Embedded expressions

An embedded expression is code between a brace behind a dollar sign and the brace that closes it. In
balanced code braces come in pairs, apart from those in quotes. The rule that counts open braces
reads exactly the expressions whose code is balanced: going through balanced code it comes out at
the depth at which it went in, and whatever it has gone through is balanced code for every brace
that was open. -/

namespace FusionTree

open Text

namespace Rule

/-- Code in which braces come in pairs; what stands in quotes does not count. -/
inductive Balanced : List Char → Prop
  | nil : Balanced []
  | plain {c : Char} {rest : List Char} (hc : c ∉ ['\x7b', '\x7d', '"', '\''])
      (hr : Balanced rest) : Balanced (c :: rest)
  | group {inner rest : List Char} (hi : Balanced inner) (hr : Balanced rest) :
      Balanced ('\x7b' :: (inner ++ '\x7d' :: rest))
  | string {quote : Char} {inner rest : List Char} (hq : quote ∈ ['"', '\''])
      (hi : Units quote (fun _ => True) inner) (hr : Balanced rest) :
      Balanced (quote :: (inner ++ quote :: rest))

/-- Balanced code with a dollar sign and a brace before it and a brace behind it. -/
def IsExpression (lexeme : List Char) : Prop :=
  ∃ code, Balanced code ∧ lexeme = '$' :: '\x7b' :: (code ++ ['\x7d'])

variable {depth : Nat} {quote : Char} {open? : Option Char}
  {text lexeme code inner rest : List Char}

/-! ### Through balanced code -/

theorem ne_backslash_of_mem (h : quote ∈ ['"', '\'']) : quote ≠ '\\' := by
  rintro rfl
  simp at h

theorem throughClosingBrace_units (different : quote ≠ '\\')
    (h : Units quote (fun _ => True) inner) (depth : Nat) (rest : List Char) :
    throughClosingBrace depth (some quote) (inner ++ quote :: rest) =
      (throughClosingBrace depth none rest).map (inner ++ quote :: ·) := by
  induction h with
  | nil =>
    rw [List.nil_append, throughClosingBrace.eq_def]
    simp [different]
  | plain noQuote noBackslash _ ih =>
    rw [List.cons_append, throughClosingBrace.eq_def]
    simp [noQuote, noBackslash, ih, Function.comp_def]
  | pair _ _ ih => simp [throughClosingBrace, ih, Function.comp_def]

/-- Balanced code is gone through at any depth. -/
theorem Balanced.throughClosingBrace (h : Balanced code) (depth : Nat) (rest : List Char) :
    throughClosingBrace depth none (code ++ rest) =
      (throughClosingBrace depth none rest).map (code ++ ·) := by
  induction h generalizing depth rest with
  | nil => simp
  | plain hc _ ih =>
    simp only [List.mem_cons, List.not_mem_nil, not_or, or_false] at hc
    simp [Rule.throughClosingBrace, hc, ih, Function.comp_def]
  | group _ _ ihInner ihRest =>
    simp [Rule.throughClosingBrace, ihInner, ihRest, Function.comp_def]
  | @string quote inner _ hq hi _ ih =>
    have different := ne_backslash_of_mem hq
    have noBrace : quote ≠ '\x7b' ∧ quote ≠ '\x7d' := by
      constructor <;> (rintro rfl; simp at hq)
    have opens : quote = '"' ∨ quote = '\'' := by simpa using hq
    simp [Rule.throughClosingBrace, noBrace, opens, throughClosingBrace_units different hi, ih,
      Function.comp_def]

/-! ### What has been gone through -/

/-- Balanced code up to a closing brace, once more than there were open braces. -/
inductive Closes : Nat → List Char → Prop
  | last {code : List Char} (hc : Balanced code) : Closes 0 (code ++ ['\x7d'])
  | more {depth : Nat} {code rest : List Char} (hc : Balanced code) (hr : Closes depth rest) :
      Closes (depth + 1) (code ++ '\x7d' :: rest)

namespace Closes

/-- Balanced code before it becomes part of its first piece. -/
theorem prepend (h : Closes depth rest)
    (head : ∀ code, Balanced code → Balanced (lexeme ++ code)) : Closes depth (lexeme ++ rest) := by
  cases h with
  | last hc =>
    rw [← List.append_assoc]
    exact .last (head _ hc)
  | more hc hr =>
    rw [← List.append_assoc]
    exact .more (head _ hc) hr

theorem plain {c : Char} (hc : c ∉ ['\x7b', '\x7d', '"', '\'']) (h : Closes depth rest) :
    Closes depth (c :: rest) := by
  show Closes depth ([c] ++ rest)
  exact h.prepend fun _ => .plain hc

theorem string (hq : quote ∈ ['"', '\''])
    (hi : Units quote (fun _ => True) inner) (h : Closes depth rest) :
    Closes depth (quote :: (inner ++ quote :: rest)) := by
  have whole : quote :: (inner ++ quote :: rest) = (quote :: (inner ++ [quote])) ++ rest := by simp
  rw [whole]
  refine h.prepend fun code hc => ?_
  simpa using Balanced.string hq hi hc

/-- An opening brace pairs with the first brace that is left open. -/
theorem group (h : Closes (depth + 1) rest) : Closes depth ('\x7b' :: rest) := by
  obtain _ | ⟨hi, hr⟩ := h
  rename_i inner behind
  have whole : '\x7b' :: (inner ++ '\x7d' :: behind) =
      ('\x7b' :: (inner ++ ['\x7d'])) ++ behind := by simp
  rw [whole]
  refine hr.prepend fun code hc => ?_
  simpa using Balanced.group hi hc

end Closes

/-- What is gone through from inside a string or from outside of strings. -/
def ClosesFrom (depth : Nat) : (open? : Option Char) → List Char → Prop
  | none, lexeme => Closes depth lexeme
  | some quote, lexeme => ∃ inner rest, Units quote (fun _ => True) inner ∧
      lexeme = inner ++ quote :: rest ∧ Closes depth rest

theorem closesFrom_of_throughClosingBrace
    (h : throughClosingBrace depth open? text = some lexeme) : ClosesFrom depth open? lexeme := by
  fun_induction throughClosingBrace depth open? text generalizing lexeme with
  | case1 => cases h
  | case2 => cases h
  | case3 depth quote escaped text ih =>
    obtain ⟨more, hm, rfl⟩ := Option.map_eq_some_iff.mp h
    obtain ⟨inner, rest, units, rfl, closes⟩ := ih hm
    exact ⟨'\\' :: escaped :: inner, rest, .pair trivial units, rfl, closes⟩
  | case4 depth quote c text other ih =>
    obtain ⟨more, hm, rfl⟩ := Option.map_eq_some_iff.mp h
    by_cases ends : c = quote
    · rw [if_pos ends] at ih hm
      exact ⟨[], more, .nil, by rw [ends]; rfl, ih hm⟩
    · rw [if_neg ends] at ih hm
      obtain ⟨inner, rest, units, rfl, closes⟩ := ih hm
      exact ⟨c :: inner, rest, .plain ends other units, rfl, closes⟩
  | case5 depth text ih =>
    obtain ⟨more, hm, rfl⟩ := Option.map_eq_some_iff.mp h
    exact Closes.group (ih hm)
  | case6 =>
    cases h
    exact Closes.last .nil
  | case7 text _ depth ih =>
    obtain ⟨more, hm, rfl⟩ := Option.map_eq_some_iff.mp h
    exact Closes.more .nil (ih hm)
  | case8 depth c text _ _ opens ih =>
    obtain ⟨more, hm, rfl⟩ := Option.map_eq_some_iff.mp h
    obtain ⟨inner, rest, units, rfl, closes⟩ := ih hm
    exact Closes.string (by simpa using opens) units closes
  | case9 depth c text noOpening noClosing noQuote ih =>
    obtain ⟨more, hm, rfl⟩ := Option.map_eq_some_iff.mp h
    refine Closes.plain ?_ (ih hm)
    simp only [List.mem_cons, List.not_mem_nil, or_false, not_or] at noQuote ⊢
    exact ⟨noOpening, noClosing, noQuote⟩

/-! ### Expressions -/

/-- The rule reads exactly the expressions. -/
theorem eel_eq_some_iff : eel text = some lexeme ↔ IsExpression lexeme ∧ lexeme <+: text := by
  constructor
  · intro h
    refine ⟨?_, TokenKind.matchesHead_lexeme? .eel _ _ h⟩
    obtain ⟨_, closed, hl, hr, rfl⟩ := andThen_eq_some_iff.mp h
    obtain rfl := eq_of_literal hl
    obtain ⟨balanced⟩ : Closes 0 closed := closesFrom_of_throughClosingBrace hr
    exact ⟨_, balanced, rfl⟩
  · rintro ⟨⟨code, balanced, rfl⟩, rest, rfl⟩
    have whole : '$' :: '\x7b' :: (code ++ ['\x7d']) ++ rest =
        ['$', '\x7b'] ++ (code ++ '\x7d' :: rest) := by simp
    rw [whole]
    refine andThen_append (literal_append _ _) ?_
    rw [balanced.throughClosingBrace]
    rfl

end Rule

open Rule in
/-- In every text, a token is an expression if and only if it is one by the grammar, and no other
piece at the head of the text is one. The scanner, which goes through the text byte by byte, gives
a length if and only if the text begins with an expression, and gives the number of its bytes. -/
theorem eel_reads_balanced_expressions (text : List Char) :
    (∀ lexeme, TokenKind.eel.lexeme? text = some lexeme ↔
      IsExpression lexeme ∧ lexeme <+: text) ∧
    (∀ length, eelLength? text = some length ↔
      ∃ lexeme, IsExpression lexeme ∧ lexeme <+: text ∧ byteLength lexeme = length) ∧
    ∀ lexeme other, IsExpression lexeme → lexeme <+: text → IsExpression other → other <+: text →
      lexeme = other := by
  refine ⟨fun lexeme => eel_eq_some_iff, fun length => ?_,
    fun lexeme other h begins h' begins' => ?_⟩
  · rw [eelLength?_eq, Option.map_eq_some_iff]
    constructor
    · rintro ⟨lexeme, read, size⟩
      obtain ⟨expression, begins⟩ := eel_eq_some_iff.mp read
      exact ⟨lexeme, expression, begins, size⟩
    · rintro ⟨lexeme, expression, begins, size⟩
      exact ⟨lexeme, eel_eq_some_iff.mpr ⟨expression, begins⟩, size⟩
  · have read := eel_eq_some_iff.mpr ⟨h, begins⟩
    exact Option.some.inj (read.symm.trans (eel_eq_some_iff.mpr ⟨h', begins'⟩))

open Rule in
/-- A brace in a string does not count, and a character may have more than one byte. -/
theorem eel_reads_balanced_expressions_with_string :
    let lexeme := "$\x7b\x7b'\x7d'\x7dä\x7d".toList
    let text := "$\x7b\x7b'\x7d'\x7dä\x7d\x7d".toList
    (IsExpression lexeme ∧ lexeme <+: text) ∧ eelLength? text = some 10 ∧
      ∀ other, IsExpression other → other <+: text → lexeme = other := by
  intro lexeme text
  have code : Balanced "\x7b'\x7d'\x7dä".toList :=
    .group (.string (by decide) (.plain (by decide) (by decide) .nil) .nil)
      (.plain (by decide) .nil)
  have expression : IsExpression lexeme := ⟨_, code, rfl⟩
  have begins : lexeme <+: text := ⟨['\x7d'], rfl⟩
  obtain ⟨_, length, unique⟩ := eel_reads_balanced_expressions text
  exact ⟨⟨expression, begins⟩, (length 10).mpr ⟨lexeme, expression, begins, by decide⟩,
    fun other => unique lexeme other expression begins⟩

end FusionTree
