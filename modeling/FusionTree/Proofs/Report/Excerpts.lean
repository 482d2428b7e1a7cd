import FusionTree.Proofs.Source.Lines
import FusionTree.Proofs.Source.Pieces

/-!
# What excerpts show

The excerpt around a span that lies in a source is there: no slice fails. It consists of whole
lines, from two before the span to two after it, and its range selects the text under the span, or
one character beside the span if there is no text under it. -/

namespace FusionTree.Excerpt

open Text

variable {text line rest : List Char} {before shown after more : List (List Char)}
  {first last : Nat} {window : Window} {offset number : Nat}

/-! ### Finding the lines -/

namespace Window

theorem narrow_append (h : '\n' ∉ line) (rest : List Char) :
    narrow first last window offset number (line ++ rest) =
      narrow first last window (offset + byteLength line) number rest := by
  induction line generalizing offset with
  | nil => rfl
  | cons c line ih =>
    have other : c ≠ '\n' := fun newline => h (newline ▸ List.mem_cons_self)
    rw [List.cons_append, narrow, if_neg other, ih fun mem => h (List.mem_cons_of_mem _ mem),
      byteLength_cons, Nat.add_assoc]

theorem byteLength_newline_cons (text : List Char) :
    byteLength ('\n' :: text) = byteLength text + 1 :=
  Nat.add_comm 1 _

/-- The lines before the first one move the start of the window behind them. -/
theorem narrow_leading (h : ∀ line ∈ before, '\n' ∉ line) (reach : number + before.length = first)
    (le : first ≤ last) (start : before = [] → window.start = offset) (rest : List Char) :
    narrow first last window offset number (leading '\n' before ++ rest) =
      narrow first last ⟨offset + byteLength (leading '\n' before), window.stop⟩
        (offset + byteLength (leading '\n' before)) first rest := by
  induction before generalizing window offset number with
  | nil =>
    obtain ⟨windowStart, stop⟩ := window
    cases start rfl
    cases reach
    rfl
  | cons line before ih =>
    rw [List.length_cons] at reach
    have within : ¬last < number + 1 := by omega
    rw [leading_cons, List.append_assoc, List.cons_append,
      narrow_append (h line List.mem_cons_self), narrow, if_pos rfl]
    simp only [within, if_false]
    rw [ih (fun other mem => h other (List.mem_cons_of_mem _ mem)) (by omega)]
    · have bytes : offset + byteLength line + 1 + byteLength (leading '\n' before) =
          offset + byteLength (line ++ '\n' :: leading '\n' before) := by
        rw [byteLength_append, byteLength_newline_cons]
        omega
      rw [bytes]
      split <;> rfl
    · intro nothing
      rw [nothing, List.length_nil, Nat.zero_add] at reach
      rw [if_pos reach]

/-- From the first line on, the start of the window stays. Its stop is moved in front of the line
behind the last one, and stays if there is no such line. -/
theorem narrow_trailing (h : '\n' ∉ line) (noNewline : ∀ other ∈ more ++ after, '\n' ∉ other)
    (le : first ≤ number) (within : number + more.length ≤ last)
    (stop : if after = [] then window.stop = offset + byteLength (line ++ trailing '\n' more)
      else number + more.length = last) :
    narrow first last window offset number (line ++ trailing '\n' (more ++ after)) =
      ⟨window.start, offset + byteLength (line ++ trailing '\n' more)⟩ := by
  have later : number + 1 ≠ first := by omega
  rw [narrow_append h]
  induction more generalizing line offset number with
  | nil =>
    cases after with
    | nil =>
      obtain ⟨start, windowStop⟩ := window
      cases stop
      rfl
    | cons other after =>
      have last : last < number + 1 := by
        rw [if_neg (List.cons_ne_nil _ _)] at stop
        exact Nat.lt_succ_of_le (Nat.le_of_eq stop.symm)
      rw [List.nil_append, trailing_cons, narrow, if_pos rfl]
      simp only [later, last, if_false, if_true, trailing_nil, List.append_nil]
  | cons other more ih =>
    rw [List.length_cons] at within stop
    have before : ¬last < number + 1 := by omega
    have bytes : offset + byteLength line + 1 + byteLength (other ++ trailing '\n' more) =
        offset + byteLength (line ++ trailing '\n' (other :: more)) := by
      rw [trailing_cons, byteLength_append line, byteLength_newline_cons]
      omega
    rw [List.cons_append, trailing_cons, narrow, if_pos rfl]
    simp only [later, before, if_false]
    rw [narrow_append (noNewline other List.mem_cons_self), ih, bytes]
    · exact noNewline other List.mem_cons_self
    · exact fun other mem => noNewline other (List.mem_cons_of_mem _ mem)
    · omega
    · omega
    · rw [bytes]
      by_cases none : after = []
      · rw [if_pos none] at stop ⊢
        exact stop
      · rw [if_neg none] at stop ⊢
        omega
    · omega

end Window

/-- The lines of a text, cut in front of line `first` and behind line `last` or the last line there
is. -/
structure Cut (text : List Char) (first last : Nat) (before shown after : List (List Char)) :
    Prop where
  lines : Text.lines text = before ++ (shown ++ after)
  notEmpty : shown ≠ []
  begins : before.length + 1 = first
  within : before.length + shown.length ≤ last
  full : after = [] ∨ before.length + shown.length = last

/-- Lines from one that there is on can be cut out. -/
theorem cut_take_drop {first last : Nat} (pos : 1 ≤ first) (le : first ≤ last)
    (there : first ≤ (Text.lines text).length) :
    Cut text first last ((Text.lines text).take (first - 1))
      (((Text.lines text).take last).drop (first - 1)) ((Text.lines text).drop last) where
  lines := by
    have front : ((Text.lines text).take last).take (first - 1) =
        (Text.lines text).take (first - 1) := by
      rw [List.take_take, Nat.min_eq_left (by omega)]
    rw [← front, ← List.append_assoc, List.take_append_drop, List.take_append_drop]
  notEmpty := by
    refine List.ne_nil_of_length_pos ?_
    rw [List.length_drop, List.length_take]
    omega
  begins := by
    rw [List.length_take]
    omega
  within := by
    rw [List.length_drop, List.length_take, List.length_take]
    omega
  full := by
    rw [List.drop_eq_nil_iff, List.length_drop, List.length_take, List.length_take]
    omega

namespace Cut

variable (cut : Cut text first last before shown after)

include cut

theorem noNewline : ∀ line ∈ before ++ (shown ++ after), '\n' ∉ line :=
  fun _ mem => not_mem_of_mem_lines (cut.lines ▸ mem)

theorem noNewline_before : ∀ line ∈ before, '\n' ∉ line :=
  fun _ mem => cut.noNewline _ (List.mem_append_left _ mem)

theorem noNewline_shown : ∀ line ∈ shown, '\n' ∉ line :=
  fun _ mem => cut.noNewline _ (List.mem_append_right _ (List.mem_append_left _ mem))

theorem text_eq : text = leading '\n' before ++
    (['\n'].intercalate shown ++ trailing '\n' after) := by
  have notEmpty : shown ++ after ≠ [] := List.append_ne_nil_of_left_ne_nil cut.notEmpty _
  rw [← intercalate_append_right cut.notEmpty, ← intercalate_append_left _ notEmpty, ← cut.lines,
    intercalate_lines]

/-- The window is found at the cuts. -/
theorem narrow_eq : Window.narrow first last ⟨0, byteLength text⟩ 0 1 text =
    ⟨byteLength (leading '\n' before),
      byteLength (leading '\n' before ++ ['\n'].intercalate shown)⟩ := by
  obtain ⟨line, more, rfl⟩ := List.exists_cons_of_ne_nil cut.notEmpty
  have within := cut.within
  rw [List.length_cons] at within
  have begins := cut.begins
  have size : byteLength text = byteLength (leading '\n' before) +
      byteLength (['\n'].intercalate (line :: more)) + byteLength (trailing '\n' after) := by
    rw [cut.text_eq, byteLength_append, byteLength_append, Nat.add_assoc]
  rw [intercalate_cons] at size
  obtain ⟨window, whole⟩ : ∃ window : Window, window = ⟨0, byteLength text⟩ := ⟨_, rfl⟩
  have later : ∀ other ∈ more ++ after, '\n' ∉ other := fun other mem =>
    cut.noNewline other (List.mem_append_right _ (List.mem_cons_of_mem _ mem))
  have stop : if after = []
      then window.stop = byteLength (leading '\n' before) + byteLength (line ++ trailing '\n' more)
      else first + more.length = last := by
    by_cases none : after = []
    · rw [if_pos none, whole, size, none]
      rfl
    · rw [if_neg none]
      have full := cut.full.resolve_left none
      rw [List.length_cons] at full
      omega
  rw [← whole, cut.text_eq, Window.narrow_leading cut.noNewline_before (by omega) (by omega)
    (fun _ => by rw [whole]), Nat.zero_add, intercalate_cons, List.append_assoc, ← trailing_append,
    byteLength_append (leading '\n' before)]
  exact Window.narrow_trailing (cut.noNewline_shown line List.mem_cons_self) later (Nat.le_refl _)
    (by omega) stop

/-- What reaches behind the lines before the first one begins with them. -/
theorem leading_isPrefix {start : List Char} (h : start <+: text)
    (enough : before = [] ∨ before.length < start.count '\n') : leading '\n' before <+: start := by
  rcases enough with rfl | more
  · exact List.nil_prefix
  have head : leading '\n' before <+: text := ⟨_, cut.text_eq.symm⟩
  rcases List.prefix_or_prefix_of_prefix head h with all | less
  · exact all
  · have := less.count_le '\n'
    rw [count_leading cut.noNewline_before] at this
    omega

/-- What does not reach the last line lies before its end. -/
theorem isPrefix_shown {start : List Char} (h : start <+: text)
    (few : start.count '\n' + 1 < last) :
    start <+: leading '\n' before ++ ['\n'].intercalate shown := by
  have whole := cut.text_eq
  rw [← List.append_assoc] at whole
  rcases cut.full with none | full
  · rw [none, trailing_nil, List.append_nil] at whole
    rwa [← whole]
  have head : leading '\n' before ++ ['\n'].intercalate shown <+: text := ⟨_, whole.symm⟩
  rcases List.prefix_or_prefix_of_prefix h head with part | beyond
  · exact part
  · have := beyond.count_le '\n'
    have shownCount := count_intercalate cut.noNewline_shown cut.notEmpty
    rw [List.count_append, count_leading cut.noNewline_before] at this
    omega

/-- Behind the lines before the first one, that one starts. -/
theorem ofOffset_leading :
    LineCol.ofOffset text (byteLength (leading '\n' before)) = ⟨first, 1⟩ := by
  rw [cut.text_eq, LineCol.ofOffset_append, LineCol.first,
    LineCol.foldl_advance_leading cut.noNewline_before, Nat.add_comm, cut.begins]

/-- Of a text that is not empty, something is shown: there is more than one line to be shown, or
else the only line is all there is. -/
theorem shown_ne_nil (given : text ≠ []) (less : first < last)
    (more : first = 1 ∨ first < (Text.lines text).length) : ['\n'].intercalate shown ≠ [] := by
  intro nothing
  have one := count_intercalate cut.noNewline_shown cut.notEmpty
  rw [nothing, List.count_nil] at one
  have begins := cut.begins
  have none : after = [] := cut.full.resolve_right (by omega)
  have length := congrArg List.length cut.lines
  rw [none, List.append_nil, List.length_append] at length
  have first : before = [] := List.eq_nil_of_length_eq_zero (by omega)
  exact given (by rw [cut.text_eq, nothing, none, first]; rfl)

end Cut

/-! ### The excerpt -/

/-- How a source is made up around a span: what stands before the excerpt, what stands in it before
the span, under the span and behind it, and what stands behind the excerpt. -/
structure Parts (s : Span) (src : Source) (front head marked tail back : List Char) : Prop where
  source : s.source = src
  text : src.text = front ++ ((head ++ (marked ++ tail)) ++ back)
  window : Window.narrow (max 1 (s.startLineCol.line - around)) (s.endLineCol.line + around)
    ⟨0, src.size⟩ 0 1 src.text =
      ⟨byteLength front, byteLength (front ++ (head ++ (marked ++ tail)))⟩
  number : LineCol.ofOffset src.text (byteLength front) =
    ⟨max 1 (s.startLineCol.line - around), 1⟩
  lines : head ++ (marked ++ tail) = ['\n'].intercalate (((Text.lines src.text).take
    (s.endLineCol.line + around)).drop (max 1 (s.startLineCol.line - around) - 1))
  notEmpty : head ++ (marked ++ tail) ≠ []
  start : s.start = byteLength (front ++ head)
  stop : s.stop = byteLength (front ++ (head ++ marked))

/-- Around a span in a source that is not empty, there are such parts. -/
theorem exists_parts {s : Span} {src : Source} (given : src.text ≠ []) (h : s.LiesIn src) :
    ∃ front head marked tail back, Parts s src front head marked tail back := by
  obtain ⟨source, le, ⟨upTo, _, startSplit, startBytes⟩, through, _, stopSplit, stopBytes⟩ :=
    Span.liesIn_iff.mp h
  have startPrefix : upTo <+: src.text := ⟨_, startSplit.symm⟩
  have stopPrefix : through <+: src.text := ⟨_, stopSplit.symm⟩
  have ordered : upTo <+: through :=
    prefix_of_byteLength_le startPrefix stopPrefix (by rw [startBytes, stopBytes]; exact le)
  have startLine : s.startLineCol.line = upTo.count '\n' + 1 := by
    rw [Span.startLineCol, source, ← startBytes, startSplit, LineCol.line_ofOffset]
  have stopLine : s.endLineCol.line = through.count '\n' + 1 := by
    rw [Span.endLineCol, source, ← stopBytes, stopSplit, LineCol.line_ofOffset]
  have rising := ordered.count_le '\n'
  have inside := stopPrefix.count_le '\n'
  have total := count_newline src.text
  have two : around = 2 := rfl
  have cut : Cut src.text (max 1 (s.startLineCol.line - around))
      (s.endLineCol.line + around) _ _ _ :=
    cut_take_drop (by omega) (by omega) (by omega)
  have begins := cut.begins
  -- Both ends of the span are told to lie between the cuts by the newlines before them.
  obtain ⟨head, rfl⟩ := cut.leading_isPrefix startPrefix <| by
    rw [← List.length_eq_zero_iff]
    omega
  obtain ⟨marked, rfl⟩ := ordered
  obtain ⟨tail, shown⟩ := cut.isPrefix_shown stopPrefix (by omega)
  rw [List.append_assoc, List.append_assoc, List.append_cancel_left_eq] at shown
  have notEmpty := cut.shown_ne_nil given (by omega) (by omega)
  have text := cut.text_eq
  have window := cut.narrow_eq
  rw [← shown] at notEmpty text window
  refine ⟨_, head, marked, tail, _, source, text, window, cut.ofOffset_leading, shown, notEmpty,
    startBytes.symm, ?_⟩
  rw [← stopBytes, List.append_assoc]

namespace Parts

variable {s : Span} {src : Source} {front head marked tail back : List Char}
  (parts : Parts s src front head marked tail back)

include parts

theorem text_eq : s.text = marked := by
  have piece : src.text = (front ++ head) ++ (marked ++ (tail ++ back)) := by
    rw [parts.text]
    simp only [List.append_assoc]
  rw [Span.text, parts.source, parts.start, parts.stop, ← List.append_assoc,
    byteLength_append _ marked, Source.slice?_append piece, Option.getD_some]

theorem start_lt_stop (ne : marked ≠ []) : s.start < s.stop := by
  have := byteLength_pos ne
  rw [parts.start, parts.stop, ← List.append_assoc, byteLength_append _ marked]
  omega

theorem start_eq_stop (nothing : marked = []) : s.start = s.stop := by
  rw [parts.start, parts.stop, nothing, List.append_nil]

/-- No slice fails, and the ends of the span are not moved. -/
theorem ofSpan?_eq : ofSpan? s = some
    { text := head ++ (marked ++ tail)
      firstLine := max 1 (s.startLineCol.line - around)
      start := (widen (head ++ (marked ++ tail)).length head.length (head ++ marked).length).1
      stop :=
        (widen (head ++ (marked ++ tail)).length head.length (head ++ marked).length).2 } := by
  have shown := Source.slice?_append parts.text
  have toStart : src.slice? (byteLength front) (byteLength front + byteLength head) = some head :=
    Source.slice?_append (by rw [parts.text, List.append_assoc])
  have toStop : src.slice? (byteLength front) (byteLength front + byteLength (head ++ marked)) =
      some (head ++ marked) :=
    Source.slice?_append (by
      rw [parts.text, List.append_assoc, List.append_assoc, List.append_assoc])
  have clamp {n : Nat} (le : n ≤ byteLength (head ++ (marked ++ tail))) :
      Window.clamp ⟨byteLength front, byteLength (front ++ (head ++ (marked ++ tail)))⟩
        (byteLength front + n) = byteLength front + n := by
    rw [Window.clamp, byteLength_append]
    simp only
    omega
  rw [ofSpan?, parts.source, parts.start, parts.stop]
  simp only [cut?, parts.window]
  rw [byteLength_append front head, byteLength_append front (head ++ marked), clamp, clamp,
    byteLength_append front (head ++ _), shown, toStart, toStop]
  · rfl
  · simp only [byteLength_append]
    omega
  · simp only [byteLength_append]
    omega

end Parts

/-- The excerpt around a span consists of the lines from two before the span to two after it, as far
as there are any. Its range selects the text under the span; for an empty span it is one character
that the span stands in front of or behind. -/
theorem excerpt_shows_span {s : Span} {src : Source} (given : src.text ≠ []) (h : s.LiesIn src) :
    ∃ e before after, ofSpan? s = some e ∧
      e.firstLine = max 1 (s.startLineCol.line - 2) ∧
      src.text = before ++ (e.text ++ after) ∧
      LineCol.ofOffset src.text (byteLength before) = ⟨e.firstLine, 1⟩ ∧
      e.text = ['\n'].intercalate
        (((Text.lines src.text).take (s.endLineCol.line + 2)).drop (e.firstLine - 1)) ∧
      e.start < e.stop ∧ e.stop ≤ e.text.length ∧
      (s.start < s.stop →
        s.start = byteLength (before ++ e.text.take e.start) ∧
        s.stop = byteLength (before ++ e.text.take e.stop) ∧
        (e.text.take e.stop).drop e.start = s.text) ∧
      (s.start = s.stop → e.stop = e.start + 1 ∧
        (s.start = byteLength (before ++ e.text.take e.start) ∨
          s.start = byteLength (before ++ e.text.take e.stop))) := by
  obtain ⟨front, head, marked, tail, back, parts⟩ := exists_parts given h
  have toStart : (head ++ (marked ++ tail)).take head.length = head := List.take_left
  have toStop : (head ++ (marked ++ tail)).take (head ++ marked).length = head ++ marked := by
    rw [← List.append_assoc, List.take_left]
  refine ⟨_, front, back, parts.ofSpan?_eq, rfl, parts.text, parts.number, parts.lines, ?_⟩
  simp only
  by_cases nothing : marked = []
  · have same := parts.start_eq_stop nothing
    have size := List.length_pos_iff.mpr parts.notEmpty
    rw [nothing, List.nil_append] at toStart size ⊢
    rw [List.append_nil, widen, if_pos rfl]
    split
    · refine ⟨Nat.lt_succ_self _, ‹_›, fun less => absurd same (Nat.ne_of_lt less), fun _ =>
        ⟨rfl, .inl ?_⟩⟩
      rw [toStart, parts.start]
    · have short : head.length ≤ (head ++ tail).length := (List.prefix_append _ _).length_le
      refine ⟨by omega, short, fun less => absurd same (Nat.ne_of_lt less), fun _ =>
        ⟨by omega, .inr ?_⟩⟩
      rw [toStart, parts.start]
  · have later : head.length < (head ++ marked).length := by
      rw [List.length_append]
      exact Nat.lt_add_of_pos_right (List.length_pos_iff.mpr nothing)
    have short : (head ++ marked).length ≤ (head ++ (marked ++ tail)).length := by
      rw [← List.append_assoc]
      exact (List.prefix_append _ _).length_le
    rw [widen, if_neg (Nat.ne_of_lt later)]
    refine ⟨later, short, fun _ => ⟨?_, ?_, ?_⟩, fun same =>
      absurd same (Nat.ne_of_lt (parts.start_lt_stop nothing))⟩
    · rw [toStart, parts.start]
    · rw [toStop, parts.stop]
    · rw [toStop, List.drop_left, parts.text_eq]

/-- At the end of the input, the character before the span is selected. -/
theorem excerpt_shows_end_of_input :
    "ä = 1\n".toList ≠ [] ∧
      Span.LiesIn ⟨⟨"ä = 1\n".toList, none⟩, 7, 7⟩ ⟨"ä = 1\n".toList, none⟩ ∧
      ∃ e, ofSpan? ⟨⟨"ä = 1\n".toList, none⟩, 7, 7⟩ = some e ∧ e.firstLine = 1 ∧
        e.text = "ä = 1\n".toList ∧ e.stop = e.start + 1 ∧ e.stop ≤ e.text.length := by
  have given : "ä = 1\n".toList ≠ [] := by decide
  have lies : Span.LiesIn ⟨⟨"ä = 1\n".toList, none⟩, 7, 7⟩ ⟨"ä = 1\n".toList, none⟩ := by
    rw [Span.LiesIn]
    decide
  obtain ⟨e, before, after, found, number, -, -, text, -, inside, -, beside⟩ :=
    excerpt_shows_span given lies
  have one : e.firstLine = 1 := number.trans (by decide)
  rw [one] at text
  exact ⟨given, lies, e, found, one, text.trans (by decide), (beside rfl).1, inside⟩

end FusionTree.Excerpt
