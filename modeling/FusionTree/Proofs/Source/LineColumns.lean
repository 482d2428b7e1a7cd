import FusionTree.Proofs.Source.Lines
import Mathlib.Data.List.Induction

/-!
# Lines and columns

The line of a position counts the newlines before it, its column the characters behind the last of
them. Positions compare by their lines first and by their columns within a line; every character
moves the position on, so offsets between characters and their positions are in the same order.
-/

namespace FusionTree

open Text

namespace LineCol

/-- Line first, then column. -/
instance : LT LineCol where
  lt p q := p.line < q.line ∨ p.line = q.line ∧ p.col < q.col

instance : LE LineCol where
  le p q := p.line < q.line ∨ p.line = q.line ∧ p.col ≤ q.col

variable {p q r : LineCol}

theorem lt_def : p < q ↔ p.line < q.line ∨ p.line = q.line ∧ p.col < q.col := Iff.rfl

theorem le_def : p ≤ q ↔ p.line < q.line ∨ p.line = q.line ∧ p.col ≤ q.col := Iff.rfl

protected theorem le_refl (p : LineCol) : p ≤ p := .inr ⟨rfl, Nat.le_refl _⟩

protected theorem le_of_lt (h : p < q) : p ≤ q := by
  rw [lt_def] at h
  rw [le_def]
  omega

protected theorem ne_of_lt (h : p < q) : p ≠ q := by
  rintro rfl
  rw [lt_def] at h
  omega

protected theorem lt_trans (h : p < q) (h' : q < r) : p < r := by
  rw [lt_def] at h h' ⊢
  omega

/-! ### Counting -/

theorem lt_advance (p : LineCol) (c : Char) : p < p.advance c := by
  unfold advance
  split
  · exact .inl (Nat.lt_succ_self _)
  · exact .inr ⟨rfl, Nat.lt_succ_self _⟩

theorem lt_foldl_advance (p : LineCol) {text : List Char} (ne : text ≠ []) :
    p < text.foldl advance p := by
  induction text generalizing p with
  | nil => exact absurd rfl ne
  | cons c rest ih =>
    rw [List.foldl_cons]
    by_cases nothing : rest = []
    · rw [nothing]
      exact lt_advance p c
    · exact LineCol.lt_trans (lt_advance p c) (ih _ nothing)

/-- Within a line the column counts the characters. -/
theorem col_foldl_advance {line : List Char} (h : '\n' ∉ line) (p : LineCol) :
    (line.foldl advance p).col = p.col + line.length := by
  induction line generalizing p with
  | nil => rfl
  | cons c rest ih =>
    obtain ⟨other, within⟩ := not_or.mp (mt List.mem_cons.mpr h)
    rw [List.foldl_cons, ih within, advance, if_neg (Ne.symm other), List.length_cons]
    simp only
    omega

end LineCol

/-- The line that has begun behind the last newline of a text, or with the text if it has none. -/
structure Text.LastLine (text line : List Char) : Prop where
  noNewline : '\n' ∉ line
  begins : text = line ∨ ∃ front, text = front ++ '\n' :: line

theorem Text.exists_lastLine (text : List Char) : ∃ line, LastLine text line := by
  induction text using List.reverseRecOn with
  | nil => exact ⟨[], List.not_mem_nil, .inl rfl⟩
  | append_singleton text c ih =>
    by_cases newline : c = '\n'
    · exact ⟨[], List.not_mem_nil, .inr ⟨text, by rw [newline]⟩⟩
    · obtain ⟨line, noNewline, begins⟩ := ih
      refine ⟨line ++ [c], ?_, ?_⟩
      · simp [noNewline, Ne.symm newline]
      · rcases begins with rfl | ⟨front, rfl⟩
        · exact .inl rfl
        · exact .inr ⟨front, by simp⟩

namespace LineCol

/-- Behind a text the line is one more than its newlines, the column one more than its last line. -/
theorem foldl_advance_first {text line : List Char} (h : LastLine text line) :
    text.foldl advance first = ⟨text.count '\n' + 1, line.length + 1⟩ := by
  have atLine : (text.foldl advance first).line = text.count '\n' + 1 := by
    rw [line_foldl_advance, Nat.add_comm]
    rfl
  have atCol : (text.foldl advance first).col = line.length + 1 := by
    rcases h.begins with rfl | ⟨front, rfl⟩
    · rw [col_foldl_advance h.noNewline, Nat.add_comm]
      rfl
    · rw [List.foldl_append, List.foldl_cons, col_foldl_advance h.noNewline, advance, if_pos rfl,
        Nat.add_comm]
  rw [← atLine, ← atCol]

/-- Of two offsets between characters the later one has the later position. -/
theorem ofOffset_lt_ofOffset {text : List Char} {a b : Nat} (ha : IsBoundary text a)
    (hb : IsBoundary text b) (lt : a < b) : ofOffset text a < ofOffset text b := by
  obtain ⟨before, after, split, rfl⟩ := ha
  obtain ⟨before', after', split', rfl⟩ := hb
  obtain ⟨between, rfl⟩ : before <+: before' :=
    prefix_of_byteLength_le ⟨after, split.symm⟩ ⟨after', split'.symm⟩ (Nat.le_of_lt lt)
  have ne : between ≠ [] := by
    rintro rfl
    rw [List.append_nil] at lt
    exact Nat.lt_irrefl _ lt
  have first : ofOffset text (byteLength before) = before.foldl advance first := by
    rw [split, ofOffset_append]
  rw [first, split', ofOffset_append, List.foldl_append]
  exact lt_foldl_advance _ ne

end LineCol

/-! ### Spans -/

namespace Span

/-- The ranges that can be made: checked ones, empty ones, the one that is nowhere, and two of one
source joined. -/
inductive Formed : Span → Prop
  | new {source : Source} {start stop : Nat} {s : Span} (h : new? source start stop = some s) :
    Formed s
  | emptyAt (source : Source) (offset : Nat) : Formed (emptyAt source offset)
  | dummy : Formed dummy
  | join {s t : Span} (hs : Formed s) (ht : Formed t) (same : s.source = t.source) :
    Formed (s.join t)

theorem Formed.liesIn {s : Span} (h : s.Formed) : s.LiesIn s.source := by
  induction h with
  | new h =>
    have inSource := liesIn_of_new? h
    rwa [← inSource.source_eq] at inSource
  | emptyAt source offset => exact liesIn_emptyAt source offset
  | dummy => exact liesIn_emptyAt Source.nowhere 0
  | join hs ht same ihs iht => exact ihs.join (same ▸ iht)

end Span

namespace LineCol

/-- Line and column identify a position. At every offset between characters the line is one more
than the newlines before the offset, and the column one more than the characters behind the last of
them, or behind the start; a later offset has a later position. So a range never ends before it
starts, and its ends have one position only if they are one offset. -/
theorem identifies_position (src : Source) :
    (∀ a, IsBoundary src.text a → ∃ before after line, src.text = before ++ after ∧
      byteLength before = a ∧ LastLine before line ∧
      ofOffset src.text a = ⟨before.count '\n' + 1, line.length + 1⟩) ∧
    (∀ a b, IsBoundary src.text a → IsBoundary src.text b → a < b →
      ofOffset src.text a < ofOffset src.text b) ∧
    ∀ s : Span, s.Formed → s.source = src → s.startLineCol ≤ s.endLineCol ∧
      (s.startLineCol = s.endLineCol ↔ s.start = s.stop) := by
  refine ⟨?counts, fun a b => ofOffset_lt_ofOffset, ?spans⟩
  case counts =>
    rintro _ ⟨before, after, split, rfl⟩
    obtain ⟨line, last⟩ := exists_lastLine before
    exact ⟨before, after, line, split, rfl, last,
      by rw [split, ofOffset_append, foldl_advance_first last]⟩
  case spans =>
    rintro s formed rfl
    obtain ⟨_, le, start, stop⟩ := Span.liesIn_iff.mp formed.liesIn
    rcases Nat.lt_or_eq_of_le le with lt | eq
    · have later : s.startLineCol < s.endLineCol := ofOffset_lt_ofOffset start stop lt
      exact ⟨LineCol.le_of_lt later, fun same => absurd same (LineCol.ne_of_lt later),
        fun same => absurd same (Nat.ne_of_lt lt)⟩
    · have same : s.startLineCol = s.endLineCol := by
        rw [Span.startLineCol, Span.endLineCol, eq]
      exact ⟨same ▸ LineCol.le_refl _, fun _ => eq, fun _ => same⟩

/-- Right before and right behind a newline that follows a character of two bytes. -/
theorem identifies_position_around_newline :
    let src : Source := { text := "ä\nb".toList, path := none }
    let s : Span := ⟨src, 2, 3⟩
    (IsBoundary src.text 2 ∧ IsBoundary src.text 3 ∧ s.Formed) ∧
      ofOffset src.text 2 < ofOffset src.text 3 ∧ s.startLineCol ≤ s.endLineCol ∧
      s.startLineCol ≠ s.endLineCol := by
  intro src s
  have made : Span.new? src 2 3 = some s := by decide
  have formed : s.Formed := .new made
  obtain ⟨_, _, before, behind⟩ := Span.liesIn_iff.mp formed.liesIn
  obtain ⟨_, orders, spans⟩ := identifies_position src
  obtain ⟨le, same⟩ := spans s formed rfl
  exact ⟨⟨before, behind, formed⟩, orders 2 3 before behind (by decide), le,
    fun eq => absurd (same.mp eq) (by decide)⟩

end LineCol

end FusionTree
