import FusionTree.Proofs.Parser.ValueRoundTrip
import FusionTree.Source.Basic

/-!
# Line endings of written forms

A source turns every line ending into a newline before anything is read. What is written without a
carriage return stays as it is, and a gap becomes a gap, so a written form stays a written form of
the same statements.
-/

namespace FusionTree

/-- Before any text that follows it, the first text becomes the second. -/
def Normalizes (text text' : List Char) : Prop :=
  ∀ rest, normalizeNewlines (text ++ rest) = text' ++ normalizeNewlines rest

variable {a a' b b' : List Char}

theorem normalizeNewlines_cons {c : Char} (h : c ≠ '\r') (rest : List Char) :
    normalizeNewlines (c :: rest) = c :: normalizeNewlines rest := by
  rw [normalizeNewlines.eq_3 _ _ (by rintro rest rfl; exact absurd rfl h), if_neg h]

namespace Normalizes

theorem append (ha : Normalizes a a') (hb : Normalizes b b') :
    Normalizes (a ++ b) (a' ++ b') := by
  intro rest
  rw [List.append_assoc, ha, hb, List.append_assoc]

theorem cons {c : Char} (h : c ≠ '\r') (ha : Normalizes a a') :
    Normalizes (c :: a) (c :: a') := by
  intro rest
  rw [List.cons_append, normalizeNewlines_cons h, ha, List.cons_append]

theorem of_not_mem (h : '\r' ∉ a) : Normalizes a a := by
  induction a with
  | nil => exact fun _ => rfl
  | cons c a ih => exact (ih fun mem => h (List.mem_cons_of_mem _ mem)).cons (by grind)

theorem of_forall_mem {p : Char → Bool} (h : ∀ c ∈ a, p c = true) (hp : p '\r' = false) :
    Normalizes a a :=
  of_not_mem fun mem => by simp [h _ mem] at hp

theorem eq (h : Normalizes a a') : normalizeNewlines a = a' := by
  simpa [normalizeNewlines] using h []

end Normalizes

/-! ### Gaps -/

/-- A line ending that reaches over the end of the first text ends with a newline. -/
theorem normalizeNewlines_append_cons {c : Char} (h : c ≠ '\n') (rest : List Char) :
    normalizeNewlines (a ++ c :: rest) = normalizeNewlines a ++ normalizeNewlines (c :: rest) := by
  induction a using normalizeNewlines.induct with
  | case1 => rfl
  | case2 a ih => simp only [List.cons_append, normalizeNewlines, ih]
  | case3 d a other ih =>
    have other' : ∀ r, d = '\r' → a ++ c :: rest = '\n' :: r → False := by
      intro r hd eq
      cases a with
      | nil => exact h (List.cons.inj eq).1
      | cons e a => exact other a hd (by rw [(List.cons.inj eq).1])
    rw [List.cons_append, normalizeNewlines.eq_3 _ _ other', normalizeNewlines.eq_3 _ _ other, ih,
      List.cons_append]

/-- Only newlines are made. -/
theorem prefix_of_normalizeNewlines {c : Char} (h : c ≠ '\n')
    (starts : [c] <+: normalizeNewlines a) : [c] <+: a := by
  cases a using normalizeNewlines.fun_cases with
  | case1 => exact starts
  | case2 a => simp [normalizeNewlines, h] at starts
  | case3 d a other =>
    rw [normalizeNewlines.eq_3 _ _ other] at starts
    split at starts
    · simp [h] at starts
    · simpa using starts

/-- No end of a comment comes out of other line endings. -/
theorem commentEnd_of_normalizeNewlines (h : ['*', '/'] <:+: normalizeNewlines a) :
    ['*', '/'] <:+: a := by
  induction a using normalizeNewlines.induct with
  | case1 => exact h
  | case2 a ih =>
    rw [normalizeNewlines, List.infix_cons_iff] at h
    have inside := ih (h.resolve_left fun starts => by simp at starts)
    exact inside.trans (List.suffix_append ['\r', '\n'] a).isInfix
  | case3 c a other ih =>
    rw [normalizeNewlines.eq_3 _ _ other, List.infix_cons_iff] at h
    rw [List.infix_cons_iff]
    refine h.imp (fun starts => ?_) ih
    rw [List.cons_prefix_cons] at starts ⊢
    refine ⟨?_, prefix_of_normalizeNewlines (by decide) starts.2⟩
    have star := starts.1
    split at star
    · exact absurd star (by decide)
    · exact star

theorem Gap.exists_normalizes {big : Bool} {g : List Char} (h : Gap big g) :
    ∃ g', Gap big g' ∧ Normalizes g g' := by
  induction h with
  | nil => exact ⟨[], .nil, fun _ => rfl⟩
  | @blank c g h rest ih =>
    obtain ⟨g', gap, same⟩ := ih
    exact ⟨c :: g', .blank h gap, same.cons (by rcases h with rfl | rfl <;> decide)⟩
  | @comment body g noEnd rest ih =>
    obtain ⟨g', gap, same⟩ := ih
    refine ⟨_, .comment (fun ends => noEnd (commentEnd_of_normalizeNewlines ends)) gap, ?_⟩
    refine .cons (by decide) (.cons (by decide) fun rest => ?_)
    have ending : Normalizes ('*' :: '/' :: g) ('*' :: '/' :: g') :=
      .cons (by decide) (.cons (by decide) same)
    rw [List.append_assoc, List.append_assoc, ← ending]
    exact normalizeNewlines_append_cons (by decide) _
  | newline isBig rest ih =>
    obtain ⟨g', gap, same⟩ := ih
    exact ⟨_, .newline isBig gap, same.cons (by decide)⟩
  | lineComment isBig opens oneLine rest ih =>
    obtain ⟨g', gap, same⟩ := ih
    refine ⟨_, .lineComment isBig opens oneLine gap, ?_⟩
    exact .append (.of_not_mem (by rcases opens with rfl | rfl <;> decide))
      (.append (.of_not_mem oneLine.2) (same.cons (by decide)))

/-! ### Printed parts -/

theorem normalizes_objectName {name : List Char} (h : TokenKind.objectName.IsLexeme name) :
    Normalizes name name := by
  obtain ⟨left, right, ⟨_, hl⟩, ⟨_, hr⟩, rfl⟩ := Rule.exists_of_objectName h
  exact .append (.of_forall_mem hl (by decide))
    (.cons (by decide) (.of_forall_mem hr (by decide)))

theorem PathSegment.Printable.normalizes {s : PathSegment} (h : s.Printable) :
    Normalizes s.print s.print := by
  cases s with
  | plain key span => exact .of_forall_mem (Rule.forall_mem_of_run h).2 (by decide)
  | quoted key span =>
    have escaped : '\r' ∉ Text.escapeWith Text.singleCode key.toList :=
      Text.not_mem_escapeWith (by decide) (fun c => by simp [Text.singleCode]; grind) (.inl h)
    exact .cons (by decide) (.append (.of_not_mem escaped) (.of_not_mem (by decide)))
  | metaProperty name span =>
    exact .cons (by decide) (.of_forall_mem (Rule.forall_mem_of_run h).2 (by decide))
  | prototype name span =>
    exact .append (.of_not_mem (by decide))
      (.append (normalizes_objectName h) (.of_not_mem (by decide)))

theorem normalizes_printMore {more : List PathSegment} (h : ∀ s ∈ more, s.Printable) :
    Normalizes (ObjectPath.printMore more) (ObjectPath.printMore more) := by
  induction more with
  | nil => exact fun _ => rfl
  | cons s more ih =>
    obtain ⟨head, tail⟩ := List.forall_mem_cons.mp h
    exact .append (.cons (by decide) head.normalizes) (ih tail)

theorem ObjectPath.Printable.normalizes {p : ObjectPath} (h : p.Printable) :
    Normalizes p.print p.print := by
  obtain ⟨segments⟩ := p
  obtain ⟨first, more, rfl⟩ := List.exists_cons_of_ne_nil h.1
  obtain ⟨head, tail⟩ := List.forall_mem_cons.mp h.2
  exact .append head.normalizes (normalizes_printMore tail)

theorem Value.Printable.normalizes {x : Value} (h : x.Printable) :
    Normalizes x.print x.print := by
  cases x with
  | string text span =>
    have escaped : '\r' ∉ Text.escapeWith Text.doubleCode text.toList :=
      Text.not_mem_escapeWith (by decide) (fun c => by simp [Text.doubleCode]; grind)
        (.inr (by decide))
    exact .cons (by decide) (.append (.of_not_mem escaped) (.of_not_mem (by decide)))
  | int n span =>
    obtain ⟨minus, digits, eq, sign, _, all, _⟩ := exists_digits n
    rw [Value.print, eq]
    exact .append (.of_not_mem (by rcases sign with rfl | rfl <;> decide))
      (.of_forall_mem all (by decide))
  | float => cases h
  | bool b span => exact .of_not_mem (by cases b <;> simp [Value.print])
  | null span => exact .of_not_mem (by decide : '\r' ∉ "null".toList)
  | objectName name span => exact normalizes_objectName h
  | eel code span =>
    exact .cons (by decide) <| .cons (by decide) <|
      .append (.of_not_mem h.2) (.of_not_mem (by decide))
  | dsl identifier code span =>
    exact .append (.of_forall_mem (Rule.forall_mem_of_dslStart h.1).2 (by decide))
      (.cons (by decide) (.append (.of_not_mem h.2.2) (.of_not_mem (by decide))))

theorem normalizes_copySource {source : CopySource} (h : source.path.Printable) :
    Normalizes source.print source.print := by
  unfold CopySource.print
  split
  · exact .cons (by decide) h.normalizes
  · exact h.normalizes

/-! ### Written forms -/

theorem Operation.WrittenAs.exists_normalizes {op : Operation} {text : List Char}
    (written : op.WrittenAs text) (h : op.Printable) :
    ∃ text', op.WrittenAs text' ∧ Normalizes text text' := by
  cases written with
  | assign hg =>
    obtain ⟨gap, hg, same⟩ := hg.exists_normalizes
    exact ⟨_, .assign hg, .cons (by decide) (same.append (Value.Printable.normalizes h))⟩
  | unset => exact ⟨_, .unset, .of_not_mem (by decide)⟩
  | copy hg =>
    obtain ⟨gap, hg, same⟩ := hg.exists_normalizes
    exact ⟨_, .copy hg, .cons (by decide) (same.append (normalizes_copySource h))⟩

theorem Operation.AnyWrittenAs.exists_normalizes {op : Option Operation} {text : List Char}
    (written : AnyWrittenAs op text) (h : ∀ o ∈ op, o.Printable) :
    ∃ text', AnyWrittenAs op text' ∧ Normalizes text text' := by
  cases op with
  | none => exact ⟨text, written, .of_not_mem (by simp [show text = [] from written])⟩
  | some op => exact WrittenAs.exists_normalizes written (h op rfl)

/-- With newlines for its line endings, a written form is one of the same statements. -/
theorem Statement.AllWrittenAs.exists_normalizes {ss : List Statement} {text : List Char}
    (written : AllWrittenAs ss text) (h : AllPrintable ss) :
    ∃ text', AllWrittenAs ss text' ∧ Normalizes text text' := by
  induction written with
  | nil hg =>
    obtain ⟨gap, hg, same⟩ := hg.exists_normalizes
    exact ⟨gap, .nil hg, same⟩
  | inclusion hb blank ha written ih =>
    obtain ⟨text, written, same⟩ := ih h.2
    obtain ⟨before, hb, sameBefore⟩ := hb.exists_normalizes
    obtain ⟨after, ha, sameAfter⟩ := ha.exists_normalizes
    refine ⟨_, .inclusion hb blank ha written, sameBefore.append <| .append ?keyword <|
      .append ?blanks <| .cons (by decide) <| .append ?pattern <| .cons (by decide) <|
      sameAfter.append (same.cons (by decide))⟩
    case keyword => exact .of_not_mem (by decide)
    case blanks => exact .of_not_mem fun mem => by simpa using blank _ mem
    case pattern => exact .of_not_mem fun mem => (h.1 '\r' mem).2.2 rfl
  | object hb hg operation ha written ih =>
    obtain ⟨leads, _, printable⟩ := h.1
    obtain ⟨text, written, same⟩ := ih h.2
    obtain ⟨before, hb, sameBefore⟩ := hb.exists_normalizes
    obtain ⟨gap, hg, sameGap⟩ := hg.exists_normalizes
    obtain ⟨opText, operation, sameOp⟩ := operation.exists_normalizes (printable _ rfl)
    obtain ⟨after, ha, sameAfter⟩ := ha.exists_normalizes
    exact ⟨_, .object hb hg operation ha written, sameBefore.append <|
      leads.1.normalizes.append <| sameGap.append <| sameOp.append <|
      sameAfter.append (same.cons (by decide))⟩
  | block hb hg operation ha inside written ihInner ih =>
    obtain ⟨leads, printable, printableInner⟩ := h.1
    obtain ⟨innerText, inside, sameInner⟩ := ihInner printableInner
    obtain ⟨text, written, same⟩ := ih h.2
    obtain ⟨before, hb, sameBefore⟩ := hb.exists_normalizes
    obtain ⟨gap, hg, sameGap⟩ := hg.exists_normalizes
    obtain ⟨opText, operation, sameOp⟩ := operation.exists_normalizes printable
    obtain ⟨after, ha, sameAfter⟩ := ha.exists_normalizes
    exact ⟨_, .block hb hg operation ha inside written, sameBefore.append <|
      leads.1.normalizes.append <| sameGap.append <| sameOp.append <| sameAfter.append <|
        .cons (by decide) (sameInner.append (same.cons (by decide)))⟩

theorem Statement.AllWrittenAs.normalized {ss : List Statement} {text : List Char}
    (written : AllWrittenAs ss text) (h : AllPrintable ss) :
    AllWrittenAs ss (normalizeNewlines text) := by
  obtain ⟨text', written', same⟩ := written.exists_normalizes h
  rwa [same.eq]

end FusionTree
