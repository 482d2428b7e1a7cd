import FusionTree.Proofs.Source.Positions

/-!
# Pieces of a source

Where the text of a source is known to begin with one text and to go on with another, the other one
is a piece of it. A piece knows its range, the range knows its text, and two pieces join to the
piece that begins with the first and ends with the second.
-/

namespace FusionTree

open Text

theorem Source.slice?_append {src : Source} {before text after : List Char}
    (h : src.text = before ++ (text ++ after)) :
    src.slice? (byteLength before) (byteLength before + byteLength text) = some text := by
  rw [slice?, if_pos (Nat.le_add_right _ _), h, dropBytes_byteLength_append, Option.bind_some,
    Nat.add_sub_cancel_left, takeBytes_byteLength_append]

/-- The range that a text takes up behind another one. -/
def Source.piece (src : Source) (before text : List Char) : Span :=
  { source := src, start := byteLength before, stop := byteLength before + byteLength text }

namespace Source

variable {src : Source} {before text after : List Char}

theorem liesIn_piece (h : src.text = before ++ (text ++ after)) :
    (src.piece before text).LiesIn src := by
  rw [Span.LiesIn, Span.new?, piece, slice?_append h]
  rfl

theorem text_piece (h : src.text = before ++ (text ++ after)) :
    (src.piece before text).text = text := by
  rw [Span.text, piece, slice?_append h, Option.getD_some]

@[simp] theorem start_piece (src : Source) (before text : List Char) :
    (src.piece before text).start = byteLength before := rfl

@[simp] theorem stop_piece (src : Source) (before text : List Char) :
    (src.piece before text).stop = byteLength before + byteLength text := rfl

/-- The whole text is one piece. -/
theorem new?_whole (src : Source) : Span.new? src 0 src.size = some (src.piece [] src.text) := by
  have whole : src.text = [] ++ (src.text ++ []) := by simp
  simpa [Span.LiesIn, Source.size] using liesIn_piece whole

/-- A piece and one further on span the piece from the first to the second. -/
theorem join_piece (src : Source) (before first between last : List Char) :
    (src.piece before first).join (src.piece (before ++ (first ++ between)) last) =
      src.piece before (first ++ (between ++ last)) := by
  simp only [piece, Span.join, byteLength_append, Span.mk.injEq, true_and]
  omega

end Source

namespace Text

theorem byteLength_pos {text : List Char} (h : text ≠ []) : 0 < byteLength text := by
  cases text with
  | nil => exact absurd rfl h
  | cons c rest => exact Nat.lt_of_lt_of_le c.utf8Size_pos (Nat.le_add_right _ _)

theorem length_le_byteLength (text : List Char) : text.length ≤ byteLength text := by
  induction text with
  | nil => exact Nat.le_refl _
  | cons c rest ih =>
    have := c.utf8Size_pos
    rw [List.length_cons, byteLength_cons]
    omega

theorem byteLength_le_of_isPrefix {before after : List Char} (h : before <+: after) :
    byteLength before ≤ byteLength after := by
  obtain ⟨text, rfl⟩ := h
  rw [byteLength_append]
  exact Nat.le_add_right _ _

end Text

end FusionTree
