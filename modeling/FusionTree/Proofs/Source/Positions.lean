import FusionTree.Source.Span

/-!
# Positions in a source

A byte offset is a boundary if it lies between two characters of a text. A span lies in a source if
its two ends are boundaries there, in their order; joining spans and moving a position back to a
boundary never leads out of the source.
-/

namespace FusionTree

namespace Text

/-- The byte offset lies between two characters of the text. -/
def IsBoundary (text : List Char) (n : Nat) : Prop :=
  ∃ before after, text = before ++ after ∧ byteLength before = n

theorem isBoundary_zero (text : List Char) : IsBoundary text 0 := ⟨[], text, rfl, rfl⟩

theorem isBoundary_of_dropBytes {n : Nat} {text rest : List Char}
    (h : dropBytes n text = some rest) :
    ∃ before, text = before ++ rest ∧ byteLength before = n := by
  fun_induction dropBytes n text with
  | case1 text => exact ⟨[], by simpa using h, rfl⟩
  | case2 => cases h
  | case3 n c text le ih =>
    obtain ⟨before, rfl, length⟩ := ih h
    exact ⟨c :: before, rfl, by rw [byteLength_cons, length]; omega⟩
  | case4 => cases h

theorem isBoundary_of_takeBytes {n : Nat} {text taken : List Char}
    (h : takeBytes n text = some taken) :
    ∃ after, text = taken ++ after ∧ byteLength taken = n := by
  fun_induction takeBytes n text generalizing taken with
  | case1 text =>
    cases h
    exact ⟨text, rfl, rfl⟩
  | case2 => cases h
  | case3 n c text le ih =>
    obtain ⟨more, hm, rfl⟩ := Option.map_eq_some_iff.mp h
    obtain ⟨after, rfl, length⟩ := ih hm
    exact ⟨after, rfl, by rw [byteLength_cons, length]; omega⟩
  | case4 => cases h

theorem isBoundary_boundaryBelow (n : Nat) (text : List Char) :
    IsBoundary text (boundaryBelow n text) := by
  fun_induction boundaryBelow n text with
  | case1 => exact isBoundary_zero []
  | case2 n c text le ih =>
    obtain ⟨before, after, split, length⟩ := ih
    exact ⟨c :: before, after, by rw [split, List.cons_append], by rw [byteLength_cons, length]⟩
  | case3 n c text => exact isBoundary_zero _

/-- Of two texts that a text starts with, the one with fewer bytes is the start of the other. -/
theorem prefix_of_byteLength_le {s t text : List Char} (hs : s <+: text) (ht : t <+: text)
    (le : byteLength s ≤ byteLength t) : s <+: t := by
  rcases List.prefix_or_prefix_of_prefix hs ht with h | ⟨rest, rfl⟩
  · exact h
  · cases rest with
    | nil => simp
    | cons c rest =>
      have := c.utf8Size_pos
      rw [byteLength_append, byteLength_cons] at le
      omega

end Text

/-- The range is one of the source, and its two ends cut no character. -/
def Span.LiesIn (span : Span) (src : Source) : Prop :=
  Span.new? src span.start span.stop = some span

namespace Span

open Text

variable {src : Source} {s t : Span}

theorem liesIn_iff : s.LiesIn src ↔
    s.source = src ∧ s.start ≤ s.stop ∧ IsBoundary src.text s.start ∧
      IsBoundary src.text s.stop := by
  obtain ⟨source, start, stop⟩ := s
  simp only [LiesIn, new?, Source.slice?, Option.map_eq_some_iff]
  constructor
  · rintro ⟨taken, cut, same⟩
    split at cut
    · rename_i le
      obtain ⟨rest, dropped, cut⟩ := Option.bind_eq_some_iff.mp cut
      obtain ⟨before, split, length⟩ := isBoundary_of_dropBytes dropped
      obtain ⟨after, rfl, length'⟩ := isBoundary_of_takeBytes cut
      refine ⟨(congrArg Span.source same).symm, le, ⟨before, _, split, length⟩,
        before ++ taken, after, by rw [split, List.append_assoc], ?_⟩
      rw [byteLength_append]
      omega
    · cases cut
  · rintro ⟨rfl, le, ⟨before, rest, split, rfl⟩, before', rest', split', rfl⟩
    have head : before <+: source.text := ⟨rest, split.symm⟩
    have head' : before' <+: source.text := ⟨rest', split'.symm⟩
    obtain ⟨taken, rfl⟩ := prefix_of_byteLength_le head head' le
    have hr : rest = taken ++ rest' := by
      rw [split, List.append_assoc] at split'
      exact List.append_cancel_left split'
    refine ⟨taken, ?_, rfl⟩
    rw [if_pos le, split, dropBytes_byteLength_append, Option.bind_some, hr, byteLength_append,
      Nat.add_sub_cancel_left, takeBytes_byteLength_append]

theorem LiesIn.source_eq (h : s.LiesIn src) : s.source = src := (liesIn_iff.mp h).1

theorem LiesIn.join (hs : s.LiesIn src) (ht : t.LiesIn src) : (s.join t).LiesIn src := by
  obtain ⟨source, le, start, stop⟩ := liesIn_iff.mp hs
  obtain ⟨_, le', start', stop'⟩ := liesIn_iff.mp ht
  refine liesIn_iff.mpr ⟨source, ?_, ?_, ?_⟩
  · simp only [Span.join]
    omega
  · rcases Nat.le_total s.start t.start with h | h
    · rwa [Span.join, Nat.min_eq_left h]
    · rwa [Span.join, Nat.min_eq_right h]
  · rcases Nat.le_total s.stop t.stop with h | h
    · rwa [Span.join, Nat.max_eq_right h]
    · rwa [Span.join, Nat.max_eq_left h]

theorem liesIn_emptyAt (src : Source) (offset : Nat) : (emptyAt src offset).LiesIn src :=
  liesIn_iff.mpr ⟨rfl, Nat.le_refl _, isBoundary_boundaryBelow _ _, isBoundary_boundaryBelow _ _⟩

theorem liesIn_of_new? {start stop : Nat} (h : new? src start stop = some s) : s.LiesIn src := by
  obtain ⟨_, _, rfl⟩ := Option.map_eq_some_iff.mp h
  exact h

end Span

end FusionTree
