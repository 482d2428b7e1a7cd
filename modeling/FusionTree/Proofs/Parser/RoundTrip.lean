import FusionTree.Proofs.Parser.Reporting
import FusionTree.Proofs.Source.Newlines

/-!
# Reading statements back

A statement list that is written out is read back as the same list, whatever gaps it was written
with. The proof goes along the written form; what a statement leaves behind its end is again a
written form, even though the newline that ends it takes all that follow it.
-/

namespace FusionTree

open FusionTree.Parser

variable {rest text gap : List Char} {v : View}

/-! ### Where texts begin -/

theorem Solid.of_head {big : Bool} {c : Char} (h : c ∉ [' ', '\t', '/', '#', '\n'])
    (rest : List Char) : Solid big (c :: rest) := by
  rintro _ ⟨⟩
  simp only [List.mem_cons, List.not_mem_nil, or_false, not_or] at h
  exact ⟨h.1, h.2.1, h.2.2.1, h.2.2.2.1, fun _ => h.2.2.2.2⟩

def beginsSegment (c : Char) : Bool :=
  Rule.isPathPart c || c == '\'' || c == '@'

theorem ne_of_beginsSegment {c d : Char} (h : beginsSegment c = true)
    (hd : beginsSegment d = false) : c ≠ d := by
  rintro rfl
  rw [h] at hd
  cases hd

theorem PathSegment.Printable.exists_head {s : PathSegment} (h : s.Printable) :
    ∃ c text, s.print = c :: text ∧ beginsSegment c = true := by
  cases s with
  | plain key span =>
    obtain ⟨ne_nil, all⟩ := Rule.forall_mem_of_run h
    obtain ⟨c, text, eq⟩ := List.exists_cons_of_ne_nil ne_nil
    have part : Rule.isPathPart c = true := all c (by simp [eq])
    exact ⟨c, text, eq, by simp [beginsSegment, part]⟩
  | quoted key span => exact ⟨'\'', _, rfl, by decide⟩
  | metaProperty name span => exact ⟨'@', _, rfl, by decide⟩
  | prototype name span => exact ⟨'p', _, rfl, by decide⟩

theorem ObjectPath.Printable.exists_head {p : ObjectPath} (h : p.Printable) :
    ∃ c text, p.print = c :: text ∧ beginsSegment c = true := by
  obtain ⟨segments⟩ := p
  obtain ⟨first, more, rfl⟩ := List.exists_cons_of_ne_nil h.1
  obtain ⟨c, text, eq, hc⟩ := (h.2 first (by simp)).exists_head
  exact ⟨c, text ++ ObjectPath.printMore more, by simp [ObjectPath.print, eq], hc⟩

theorem solid_of_beginsSegment {big : Bool} {c : Char} (h : beginsSegment c = true)
    (rest : List Char) : Solid big (c :: rest) := by
  refine Solid.of_head (fun mem => ?_) rest
  have none : [' ', '\t', '/', '#', '\n'].any beginsSegment = false := by decide
  exact List.any_eq_false.mp none c mem h

theorem ObjectPath.Printable.solid {big : Bool} {p : ObjectPath} (h : p.Printable)
    (rest : List Char) : Solid big (p.print ++ rest) := by
  obtain ⟨c, text, eq, hc⟩ := h.exists_head
  rw [eq]
  exact solid_of_beginsSegment hc _

theorem Value.Printable.solid {big : Bool} {x : Value} (h : x.Printable) (rest : List Char) :
    Solid big (x.print ++ rest) := by
  have word {word : List Char} (ne_nil : word ≠ []) (all : ∀ c ∈ word, Rule.isNamePart c = true)
      (rest : List Char) : Solid big (word ++ rest) := by
    obtain ⟨c, word, rfl⟩ := List.exists_cons_of_ne_nil ne_nil
    refine Solid.of_head (fun mem => ?_) _
    have none : [' ', '\t', '/', '#', '\n'].any Rule.isNamePart = false := by decide
    exact List.any_eq_false.mp none c mem (all c (by simp))
  cases x with
  | string text span => exact Solid.of_head (by decide) _
  | int n span =>
    obtain ⟨minus, digits, eq, sign, ne_nil, all, _⟩ := exists_digits n
    rw [Value.print, eq]
    rcases sign with rfl | rfl
    · refine word ne_nil (fun c hc => ?_) rest
      simp [Rule.isNamePart, Rule.isAlphanumeric, all c hc]
    · exact Solid.of_head (by decide) _
  | float => cases h
  | bool b span => cases b <;> exact Solid.of_head (by decide) _
  | null span => exact Solid.of_head (c := 'n') (by decide) _
  | objectName name span =>
    obtain ⟨left, right, ⟨ne_nil, all⟩, _, eq⟩ := Rule.exists_of_objectName h
    rw [Value.print, eq, List.append_assoc]
    exact word ne_nil all _
  | eel code span => exact Solid.of_head (by decide) _
  | dsl identifier code span =>
    obtain ⟨ne_nil, all⟩ := Rule.forall_mem_of_dslStart h.1
    rw [Value.print, List.append_assoc]
    exact word ne_nil all _

namespace Parser

/-! ### Operations -/

theorem reads_copySource {source : CopySource} (h : source.path.Printable)
    (after : HeadIn afterValue rest) :
    (do
      let dot ← take .dot
      let path ← objectPath
      return some (Operation.copy ⟨path, dot.isSome⟩) : Parser (Option Operation)).Reads
      (.at (source.print ++ rest))
      (fun out => out.map Operation.bare = some (Operation.copy source).bare) (.at rest) := by
  obtain ⟨⟨segments⟩, relative⟩ := source
  obtain ⟨first, more, rfl⟩ := List.exists_cons_of_ne_nil h.1
  have behind : HeadIn afterPath rest := after.mono (by decide)
  have opens : (View.at (ObjectPath.print ⟨first :: more⟩ ++ rest)).Opens first
      (ObjectPath.printMore more ++ rest) := by
    rw [ObjectPath.print, List.append_assoc]
    exact View.opens_at (h.2 first (by simp)) (headIn_printMore more behind)
  cases relative with
  | true =>
    have dot : (View.at (CopySource.print ⟨⟨first :: more⟩, true⟩ ++ rest)).Offers .dot ['.']
        (ObjectPath.print ⟨first :: more⟩ ++ rest) :=
      ⟨rfl, List.cons_ne_nil _ _, Rule.literal_append ['.'] _⟩
    refine (reads_take dot).bind ?_
    rintro _ ⟨token, rfl, _⟩
    refine (reads_objectPath opens h.2 behind).bind fun path hp => reads_pure ?_ _
    simp [Operation.bare, CopySource.bare, hp]
  | false =>
    obtain ⟨c, text, eq, hc⟩ := h.exists_head
    have noDot : (View.at (CopySource.print ⟨⟨first :: more⟩, false⟩ ++ rest)).Lacks .dot := by
      have print : CopySource.print ⟨⟨first :: more⟩, false⟩ = c :: text := eq
      rw [print]
      exact View.lacks_cons (beq_eq_false_iff_ne.mpr (ne_of_beginsSegment hc (by decide))) _
    refine (reads_take_none noDot).bind ?_
    rintro _ rfl
    refine (reads_objectPath opens h.2 behind).bind fun path hp => reads_pure ?_ _
    simp [Operation.bare, CopySource.bare, hp]

theorem reads_operation {op : Operation} (written : op.WrittenAs text) (h : op.Printable)
    (after : HeadIn afterValue rest) :
    operation?.Reads (.at (text ++ rest)) (fun out => out.map Operation.bare = some op.bare)
      (.at rest) := by
  cases written with
  | @assign x gap hg =>
    have sign : (View.at ('=' :: (gap ++ x.print) ++ rest)).Offers .assign ['=']
        (gap ++ (x.print ++ rest)) :=
      ⟨by simp, List.cons_ne_nil _ _, Rule.literal_append ['='] _⟩
    refine reads_onToken sign fun token _ =>
      (reads_skipSmallGap hg (Value.Printable.solid h rest)).bind fun _ _ =>
        (reads_value h after).bind fun y hy => reads_pure ?_ _
    simp [Operation.bare, hy]
  | unset =>
    have sign : (View.at (['>'] ++ rest)).Offers .unset ['>'] rest :=
      ⟨rfl, List.cons_ne_nil _ _, Rule.literal_append ['>'] _⟩
    exact reads_onToken_otherwise (View.lacks_cons rfl _) <|
      reads_onToken sign fun token _ => reads_pure (by rfl) _
  | @copy source gap hg =>
    have sign : (View.at ('<' :: (gap ++ source.print) ++ rest)).Offers .copy ['<']
        (gap ++ (source.print ++ rest)) :=
      ⟨by simp, List.cons_ne_nil _ _, Rule.literal_append ['<'] _⟩
    have solid : Solid false (source.print ++ rest) := by
      unfold CopySource.print
      split
      · exact Solid.of_head (by decide) _
      · exact ObjectPath.Printable.solid h rest
    exact reads_onToken_otherwise (View.lacks_cons rfl _) <|
      reads_onToken_otherwise (View.lacks_cons rfl _) <|
      reads_onToken sign fun token _ =>
        (reads_skipSmallGap hg solid).bind fun _ _ => reads_copySource h after

/-- Where a block opens there is no operation. -/
theorem reads_operation_none (rest : List Char) :
    operation?.Reads (.at ('\x7b' :: rest)) (· = none) (.at ('\x7b' :: rest)) :=
  reads_onToken_otherwise (View.lacks_cons rfl _) <|
    reads_onToken_otherwise (View.lacks_cons rfl _) <|
    reads_onToken_otherwise (View.lacks_cons rfl _) <| reads_pure (by rfl) _

/-! ### The end of a statement -/

/-- A newline ends a statement, and takes those that follow it with it. -/
theorem reads_endOfStatement (inBlock : Bool) (hg : Gap false gap) (rest : List Char) :
    (endOfStatement inBlock).Reads (.at (gap ++ '\n' :: rest)) (fun _ => True)
      (.at (rest.dropWhile (· == '\n'))) := by
  have solid : Solid false ('\n' :: rest) := by
    rintro _ ⟨⟩
    simp
  have newline : (View.at ('\n' :: rest)).Offers .newline
      (('\n' :: rest).takeWhile (· == '\n')) (rest.dropWhile (· == '\n')) := by
    have whole : ('\n' :: rest).takeWhile (· == '\n') ++ ('\n' :: rest).dropWhile (· == '\n') =
        '\n' :: rest := List.takeWhile_append_dropWhile
    have ne_nil : ('\n' :: rest).takeWhile (· == '\n') ≠ [] := List.cons_ne_nil _ _
    exact ⟨whole.symm, ne_nil, Rule.run_eq_some_iff.mpr ⟨rfl, ne_nil⟩⟩
  refine (reads_skipSmallGap hg solid).bind fun _ _ => ?_
  have more : (View.at ('\n' :: rest)).Lacks .endOfInput := rfl
  refine (reads_accept_false more).bind ?_
  rintro _ rfl
  refine (reads_take newline).bind ?_
  rintro _ ⟨token, rfl, _⟩
  exact reads_pure trivial _

/-! ### Include statements -/

theorem reads_filePattern {pattern : String}
    (h : ∀ c ∈ pattern.toList, c ≠ '"' ∧ c ≠ '\\' ∧ c ≠ '\r') (rest : List Char) :
    filePattern.Reads (.at ('"' :: (pattern.toList ++ '"' :: rest))) (fun out => out.1 = pattern)
      (.at rest) := by
  have different : '"' ≠ '\\' := by decide
  have quoted := Rule.quoted_plain different
    (fun c hc => ⟨(h c hc).2.1, (h c hc).1⟩ : ∀ c ∈ pattern.toList, c ≠ '\\' ∧ c ≠ '"') rest
  have offers : (View.at ('"' :: (pattern.toList ++ '"' :: rest))).Offers .doubleQuoted
      ('"' :: (pattern.toList ++ ['"'])) rest :=
    ⟨by simp, List.cons_ne_nil _ _, quoted⟩
  refine reads_onToken offers fun token same => reads_pure ?_ _
  simp [Token.inner_of_lexeme same]

theorem reads_takeSpace {blanks : List Char} (blank : ∀ c ∈ blanks, c = ' ' ∨ c = '\t')
    (rest : List Char) :
    (take .space).Reads (.at (blanks ++ '"' :: rest)) (fun _ => True) (.at ('"' :: rest)) := by
  by_cases ne_nil : blanks = []
  · subst ne_nil
    exact (reads_take_none (View.lacks_cons rfl _)).mono fun _ _ => trivial
  · have all : ∀ c ∈ blanks, (c == ' ' || c == '\t') = true := fun c hc => by
      simpa using blank c hc
    have stops : Rule.Stops (fun c => c == ' ' || c == '\t') ('"' :: rest) := .cons rfl rest
    have offers : (View.at (blanks ++ '"' :: rest)).Offers .space blanks ('"' :: rest) :=
      ⟨rfl, ne_nil, Rule.run_append ne_nil all stops⟩
    exact (reads_take offers).mono fun _ _ => trivial

theorem offers_inclusion (rest : List Char) :
    (View.at (includeKeyword ++ rest)).Offers .inclusion includeKeyword rest := by
  have keyword : includeKeyword = "include".toList ++ [':'] := rfl
  have noBlanks : some (([] ++ ':' :: rest).takeWhile Text.isBlank) = some [] := rfl
  have colon : Rule.andThen (fun text => some (text.takeWhile Text.isBlank)) (Rule.literal [':'])
      ([] ++ ':' :: rest) = some ([] ++ [':']) :=
    Rule.andThen_append noBlanks (Rule.literal_append [':'] rest)
  refine ⟨rfl, by decide, ?_⟩
  rw [keyword, List.append_assoc]
  exact Rule.andThen_append (Rule.literal_append _ _) colon

theorem reads_inclusion (inBlock : Bool) {pattern : String} (span : Span)
    {blanks after : List Char} (h : ∀ c ∈ pattern.toList, c ≠ '"' ∧ c ≠ '\\' ∧ c ≠ '\r')
    (blank : ∀ c ∈ blanks, c = ' ' ∨ c = '\t') (ha : Gap false after) (rest : List Char) :
    (inclusion inBlock).Reads
      (.seen .inclusion includeKeyword
        (blanks ++ ('"' :: (pattern.toList ++ '"' :: (after ++ '\n' :: rest)))))
      (fun s => s.bare = (Statement.inclusion pattern span).bare)
      (.at (rest.dropWhile (· == '\n'))) := by
  refine (reads_expect (View.offers_seen _ _ _)).bind fun keyword _ =>
    (reads_takeSpace blank _).bind fun _ _ => (reads_filePattern h _).bind ?_
  rintro ⟨_, place⟩ rfl
  exact (reads_endOfStatement inBlock ha rest).bind fun _ _ =>
    (reads_noteInclude _ _).bind fun _ _ => reads_pure (by simp [Statement.bare]) _

/-! ### Object statements -/

theorem head_mem_of_writtenAs {op : Operation} (h : op.WrittenAs text) :
    ∃ c tail, text = c :: tail ∧ c ∈ ['=', '<', '>'] := by
  cases h with
  | assign => exact ⟨_, _, rfl, by simp⟩
  | unset => exact ⟨_, _, rfl, by simp⟩
  | copy => exact ⟨_, _, rfl, by simp⟩

/-- Behind the path of a statement and a gap stands a sign or a brace. -/
theorem exists_sign {op : Option Operation} {opText after : List Char}
    (written : Operation.AnyWrittenAs op opText) (hg : Gap false gap) (ha : Gap false after)
    {c : Char} (noneBlock : op = none → c = '\x7b') (rest : List Char) :
    ∃ gap' d tail, gap ++ (opText ++ (after ++ c :: rest)) = gap' ++ d :: tail ∧
      Gap false gap' ∧ d ∈ ['=', '<', '>', '\x7b'] := by
  cases op with
  | none =>
    obtain rfl : opText = [] := written
    obtain rfl := noneBlock rfl
    exact ⟨gap ++ after, '\x7b', rest, by simp, hg.append ha, by simp⟩
  | some op =>
    obtain ⟨d, tail, rfl, hd⟩ := head_mem_of_writtenAs written
    exact ⟨gap, d, _, rfl, hg, (by decide : ['=', '<', '>'] ⊆ ['=', '<', '>', '\x7b']) hd⟩

theorem headIn_afterPath (hg : Gap false gap) {d : Char} (hd : d ∈ ['=', '<', '>', '\x7b'])
    (rest : List Char) : HeadIn afterPath (gap ++ d :: rest) :=
  (hg.headIn (headIn_cons hd rest)).mono (by decide)

/-- What comes after the path of a statement up to its block or its end. -/
theorem reads_afterPath {op : Option Operation} {opText after : List Char}
    (written : Operation.AnyWrittenAs op opText) (h : ∀ o ∈ op, o.Printable)
    (hg : Gap false gap) (ha : Gap false after) {c : Char} (hc : c = '\x7b' ∨ c = '\n')
    (noneBlock : op = none → c = '\x7b') {rest : List Char}
    {more : Lexer → Option Operation → Parser Statement} {Q : Statement → Prop} {w : View}
    (hmore : ∀ lexer out, out.map Operation.bare = op.map Operation.bare →
      (more lexer out).Reads (.at (c :: rest)) Q w) :
    (do
      skipSmallGap
      let lexer ← getLexer
      let operation ← operation?
      skipSmallGap
      more lexer operation).Reads (.at (gap ++ (opText ++ (after ++ c :: rest)))) Q w := by
  have solid : Solid false (c :: rest) := by
    rintro _ ⟨⟩
    rcases hc with rfl | rfl <;> simp
  cases op with
  | none =>
    obtain rfl : opText = [] := written
    obtain rfl := noneBlock rfl
    rw [List.nil_append, ← List.append_assoc]
    refine (reads_skipSmallGap (hg.append ha) solid).bind fun _ _ => (reads_getLexer _).bind
      fun lexer _ => (reads_operation_none rest).bind ?_
    rintro _ rfl
    exact (reads_skipSmallGap .nil solid).bind fun _ _ => hmore lexer none rfl
  | some op =>
    obtain ⟨d, tail, rfl, hd⟩ := head_mem_of_writtenAs written
    have solidOp : Solid false (d :: tail ++ (after ++ c :: rest)) :=
      Solid.of_head (not_mem_of_apart (by decide) hd) _
    have behind : HeadIn afterValue (after ++ c :: rest) :=
      (ha.headIn (headIn_cons (List.mem_singleton_self c) rest)).mono (by
        rcases hc with rfl | rfl <;> decide)
    exact (reads_skipSmallGap hg solidOp).bind fun _ _ => (reads_getLexer _).bind
      fun lexer _ => (reads_operation written (h op rfl) behind).bind fun out hout =>
        (reads_skipSmallGap ha solid).bind fun _ _ => hmore lexer out hout

theorem reads_block {contents : Parser (List Statement)} {inner : List Char}
    {Q : List Statement → Prop}
    (h : contents.Reads (.at inner) Q (.seen .closeBrace ['\x7d'] rest)) :
    (block (some contents)).Reads (.seen .openBrace ['\x7b'] inner) (fun b => Q b.statements)
      (.at rest) :=
  (reads_expect (View.offers_seen _ _ _)).bind fun openBrace _ => h.bind fun statements hs =>
    reads_onToken (View.offers_seen _ _ _) fun closeBrace _ => reads_pure (by exact hs) _

theorem reads_object_plain (inBlock : Bool) (contents : Option (Parser (List Statement)))
    {first : PathSegment} {more : List PathSegment} {op : Operation} {opText after : List Char}
    (h : ∀ s ∈ first :: more, s.Printable) (printable : op.Printable)
    (written : op.WrittenAs opText) (hg : Gap false gap) (ha : Gap false after)
    (opens : v.Opens first (ObjectPath.printMore more ++
      (gap ++ (opText ++ (after ++ '\n' :: rest))))) :
    (object inBlock contents).Reads v
      (fun s => s.bare = (Statement.object ⟨first :: more⟩ (some op) none).bare)
      (.at (rest.dropWhile (· == '\n'))) := by
  obtain ⟨gap', d, tail, eq, hg', hd⟩ := exists_sign written.any hg ha
    (c := '\n') (by rintro ⟨⟩) rest
  refine (reads_objectPath opens h (eq ▸ headIn_afterPath hg' hd tail)).bind fun path hpath => ?_
  refine reads_afterPath written.any (by rintro _ ⟨⟩; exact printable) hg ha (.inr rfl)
    (by rintro ⟨⟩) fun lexer out hout => ?_
  refine (reads_accept_false (v := .at ('\n' :: rest)) (View.lacks_cons rfl _)).bind ?_
  rintro _ rfl
  obtain ⟨o, rfl, ho⟩ := Option.map_eq_some_iff.mp hout
  exact (reads_endOfStatement inBlock .nil rest).bind fun _ _ => reads_pure
    (by simp [Statement.bare, hpath, ho]) _

theorem reads_object_block (inBlock : Bool) {contents : Parser (List Statement)}
    {first : PathSegment} {more : List PathSegment} {op : Option Operation}
    {openBrace closeBrace : Span} {inner : List Statement} {opText after innerText : List Char}
    (h : ∀ s ∈ first :: more, s.Printable) (printable : ∀ o ∈ op, o.Printable)
    (written : Operation.AnyWrittenAs op opText) (hg : Gap false gap) (ha : Gap false after)
    (inside : contents.Reads (.at innerText) (fun out => Statement.bareAll out =
      Statement.bareAll inner) (.seen .closeBrace ['\x7d'] rest))
    (opens : v.Opens first (ObjectPath.printMore more ++
      (gap ++ (opText ++ (after ++ '\x7b' :: innerText))))) :
    (object inBlock (some contents)).Reads v
      (fun s => s.bare =
        (Statement.object ⟨first :: more⟩ op (some ⟨openBrace, inner, closeBrace⟩)).bare)
      (.at rest) := by
  obtain ⟨gap', d, tail, eq, hg', hd⟩ := exists_sign written hg ha (fun _ => rfl) innerText
  have brace : (View.at ('\x7b' :: innerText)).Offers .openBrace ['\x7b'] innerText :=
    ⟨rfl, List.cons_ne_nil _ _, Rule.literal_append ['\x7b'] innerText⟩
  refine (reads_objectPath opens h (eq ▸ headIn_afterPath hg' hd tail)).bind fun path hpath => ?_
  refine reads_afterPath written printable hg ha (.inl rfl) (fun _ => rfl) fun lexer out hout => ?_
  refine (reads_accept brace).bind ?_
  rintro _ rfl
  exact (reads_block inside).bind fun b hb => reads_pure
    (by simp [Statement.bare, hpath, hout, hb]) _

/-! ### Statements -/

theorem noColon_of_gap (hg : Gap false gap) {d : Char} (hd : d ∈ ['=', '<', '>', '\x7b'])
    (rest : List Char) : ((gap ++ d :: rest).dropWhile Text.isBlank).head? ≠ some ':' := by
  induction hg with
  | nil =>
    have ink : ['=', '<', '>', '\x7b'].any Text.isBlank = false := by decide
    rw [List.nil_append, List.dropWhile_cons_of_neg (List.any_eq_false.mp ink d hd)]
    rintro ⟨⟩
    exact absurd hd (by decide)
  | blank h rest ih => rcases h with rfl | rfl <;> exact ih
  | comment => rintro ⟨⟩
  | newline isBig => cases isBig
  | lineComment isBig => cases isBig

theorem lacks_inclusion_of_key {key : List Char} (h : TokenKind.pathPart.IsLexeme key)
    (noKeyword : ¬includeKeyword <+: key) (after : HeadIn ('.' :: afterPath) rest)
    (noColon : (rest.dropWhile Text.isBlank).head? ≠ some ':') :
    (View.at (key ++ rest)).Lacks .inclusion := by
  obtain ⟨ne_nil, all⟩ := Rule.forall_mem_of_run h
  have other : ∀ c ∈ rest.head?, c ∉ "include".toList := fun c hc =>
    not_mem_of_apart (by decide) (after c hc)
  exact View.lacks_of_lexeme? (by simp [ne_nil])
    (Rule.inclusion_eq_none all noKeyword other noColon)

/-- Where the path of a statement stands there is no include statement. -/
theorem lacks_inclusion {first : PathSegment} (h : first.Printable)
    (noKeyword : ¬first.LooksLikeInclude) (after : HeadIn ('.' :: afterPath) rest)
    (noColon : (rest.dropWhile Text.isBlank).head? ≠ some ':') :
    (View.at (first.print ++ rest)).Lacks .inclusion := by
  cases first with
  | plain key span => exact lacks_inclusion_of_key h noKeyword after noColon
  | quoted key span => exact View.lacks_cons rfl _
  | metaProperty name span => exact View.lacks_cons rfl _
  | prototype name span =>
    obtain ⟨text, eq⟩ : ∃ text, (PathSegment.prototype name span).print = 'p' :: text := ⟨_, rfl⟩
    rw [eq]
    exact View.lacks_cons rfl _

theorem noColon_printMore (more : List PathSegment)
    (h : (rest.dropWhile Text.isBlank).head? ≠ some ':') :
    ((ObjectPath.printMore more ++ rest).dropWhile Text.isBlank).head? ≠ some ':' := by
  cases more with
  | nil => exact h
  | cons s more => rintro ⟨⟩

/-- What the parser of statements makes of a path that a statement leads with. -/
theorem ends_statement_of_object {inBlock : Bool} {contents : Option (Parser (List Statement))}
    {first : PathSegment} {more : List PathSegment} (leads : ObjectPath.Leads ⟨first :: more⟩)
    (behind : HeadIn afterPath rest) (noColon : (rest.dropWhile Text.isBlank).head? ≠ some ':')
    {C : Outcome Statement → Prop}
    (h : ∀ v : View, v.Opens first (ObjectPath.printMore more ++ rest) →
      (object inBlock contents).Ends v C) :
    (statement inBlock contents).Ends (.at (ObjectPath.print ⟨first :: more⟩ ++ rest)) C := by
  have printable := leads.1.2 first (by simp)
  have after := headIn_printMore more behind
  have opens := View.opens_at printable after
  rw [ObjectPath.print, List.append_assoc]
  refine (reads_accept_false (lacks_inclusion printable (leads.2 first rfl) after
    (noColon_printMore more noColon))).bind_ends ?_
  rintro _ rfl
  refine (reads_acceptAny_pathStarts opens).bind_ends ?_
  rintro _ rfl
  exact h _ (View.opens_seen first _)

/-! ### Lists of statements -/

/-- What ends the statements: the end of the input, or the brace that closes their block. -/
inductive Closes : Bool → List Char → View → Prop
  | input : Closes false [] (.at [])
  | block (rest : List Char) : Closes true ('\x7d' :: rest) (.seen .closeBrace ['\x7d'] rest)

theorem reads_endOfStatements {inBlock : Bool} {tail : List Char} {w : View}
    (closes : Closes inBlock tail w) (hg : Gap true gap) :
    (endOfStatements inBlock).Reads (.at (gap ++ tail)) (· = true) w := by
  cases closes with
  | input =>
    have solid : Solid true [] := by rintro _ ⟨⟩
    refine (reads_skipBigGap hg solid).bind fun _ _ => reads_accept_endOfInput.bind ?_
    rintro _ rfl
    exact reads_pure (by rfl) _
  | block rest =>
    have solid : Solid true ('\x7d' :: rest) := Solid.of_head (by decide) rest
    have brace : (View.at ('\x7d' :: rest)).Offers .closeBrace ['\x7d'] rest :=
      ⟨rfl, List.cons_ne_nil _ _, Rule.literal_append ['\x7d'] rest⟩
    refine (reads_skipBigGap hg solid).bind fun _ _ =>
      (reads_accept_false (View.lacks_cons rfl _)).bind ?_
    rintro _ rfl
    exact reads_accept brace

/-- Where a statement begins the list goes on. -/
theorem reads_endOfStatements_false (inBlock : Bool) (hg : Gap true gap) {c : Char}
    (hc : beginsSegment c = true) (rest : List Char) :
    (endOfStatements inBlock).Reads (.at (gap ++ c :: rest)) (· = false) (.at (c :: rest)) := by
  refine (reads_skipBigGap hg (solid_of_beginsSegment hc rest)).bind fun _ _ =>
    (reads_accept_false (View.lacks_cons rfl _)).bind ?_
  rintro _ rfl
  cases inBlock with
  | false => exact reads_pure (by rfl) _
  | true =>
    exact reads_accept_false
      (View.lacks_cons (beq_eq_false_iff_ne.mpr (ne_of_beginsSegment hc (by decide))) _)

/-- The first of some statements, and then the others. -/
theorem reads_statements_cons {room : Nat} {inBlock : Bool} {s : Statement} {ss : List Statement}
    {start behind : List Char} {w : View} (hg : Gap true gap)
    (begins : ∃ c tail, start = c :: tail ∧ beginsSegment c = true)
    (first : (statement inBlock (contentsIn room)).Reads (.at (start ++ text))
      (fun out => out.bare = s.bare) (.at behind))
    (others : (statements room inBlock).Reads (.at behind)
      (fun out => Statement.bareAll out = Statement.bareAll ss) w) :
    (statements room inBlock).Reads (.at (gap ++ (start ++ text)))
      (fun out => Statement.bareAll out = Statement.bareAll (s :: ss)) w := by
  obtain ⟨c, tail, rfl, hc⟩ := begins
  rw [statements_eq] at others ⊢
  refine (reads_repeatUntil_cons (reads_endOfStatements_false inBlock hg hc _) first
    others).mono ?_
  rintro _ ⟨out, outs, rfl, hout, houts⟩
  rw [Statement.bareAll, Statement.bareAll, hout, houts]

theorem exists_head_includeKeyword :
    ∃ c tail, includeKeyword = c :: tail ∧ beginsSegment c = true :=
  ⟨'i', _, rfl, by decide⟩

/-- What the parser of statements makes of the keyword of an include statement. -/
theorem reads_statement_of_inclusion {inBlock : Bool} {contents : Option (Parser (List Statement))}
    {Q : Statement → Prop} {w : View}
    (h : (inclusion inBlock).Reads (.seen .inclusion includeKeyword rest) Q w) :
    (statement inBlock contents).Reads (.at (includeKeyword ++ rest)) Q w := by
  refine (reads_accept (offers_inclusion rest)).bind ?_
  rintro _ rfl
  exact h

end Parser

theorem stops_of_beginsSegment {c : Char} (h : beginsSegment c = true) (rest : List Char) :
    Rule.Stops (· == '\n') (c :: rest) := by
  have other : c ≠ '\n' := ne_of_beginsSegment h (by decide)
  exact .cons (by simpa using other) rest

theorem ObjectPath.Printable.stops {p : ObjectPath} (h : p.Printable) (rest : List Char) :
    Rule.Stops (· == '\n') (p.print ++ rest) := by
  obtain ⟨c, text, eq, hc⟩ := h.exists_head
  rw [eq]
  exact stops_of_beginsSegment hc _

theorem Statement.Printable.leads {path : ObjectPath} {op : Option Operation}
    {block : Option (Block Statement)} (h : (Statement.object path op block).Printable) :
    path.Leads := by
  cases block <;> exact h.1

/-- The newline that ends a statement takes those that the next one was written behind. -/
theorem Statement.AllWrittenAs.dropNewlines {ss : List Statement} (h : AllWrittenAs ss text)
    (printable : AllPrintable ss) : AllWrittenAs ss (text.dropWhile (· == '\n')) := by
  cases h with
  | nil hg => exact .nil hg.dropWhile_newline
  | inclusion hb blank ha written =>
    have stops (rest : List Char) : Rule.Stops (· == '\n') (includeKeyword ++ rest) :=
      stops_of_beginsSegment (c := 'i') (by decide) _
    rw [Rule.dropWhile_append_of_stops (stops _)]
    exact .inclusion hb.dropWhile_newline blank ha written
  | object hb hg operation ha written =>
    rw [Rule.dropWhile_append_of_stops (printable.1.leads.1.stops _)]
    exact .object hb.dropWhile_newline hg operation ha written
  | block hb hg operation ha inside written =>
    rw [Rule.dropWhile_append_of_stops (printable.1.leads.1.stops _)]
    exact .block hb.dropWhile_newline hg operation ha inside written

namespace Parser

theorem Closes.stops {inBlock : Bool} {tail : List Char} {w : View} (h : Closes inBlock tail w) :
    Rule.Stops (· == '\n') tail := by
  cases h with
  | input => rintro _ ⟨⟩
  | block rest => exact .cons rfl rest

/-- A written form of statements is read as these statements, up to where their list closes. The
induction is on the statements: what is left behind the first one need not be the rest of its own
written form, but is a written form of the others. -/
theorem reads_statements {ss : List Statement} (written : Statement.AllWrittenAs ss text)
    (printable : Statement.AllPrintable ss) {room : Nat} (shallow : Statement.depthAll ss ≤ room)
    {inBlock : Bool} {tail : List Char} {w : View} (closes : Closes inBlock tail w) :
    (statements room inBlock).Reads (.at (text ++ tail))
      (fun out => Statement.bareAll out = Statement.bareAll ss) w := by
  induction size : sizeOf ss using Nat.strongRecOn generalizing ss text room inBlock tail w with
  | ind n ih =>
  cases written with
  | nil hg =>
    rw [statements_eq]
    refine (reads_repeatUntil_nil (reads_endOfStatements closes hg)).mono ?_
    rintro _ rfl
    rfl
  | @inclusion pattern span others before blanks after text hb blank ha written =>
    have smaller : sizeOf others < n := by
      rw [← size, List.cons.sizeOf_spec]
      omega
    have behind := ih _ smaller (written.dropNewlines printable.2) printable.2
      (Nat.le_trans (Nat.le_max_right _ _) shallow) closes rfl
    rw [← Rule.dropWhile_append_of_stops closes.stops] at behind
    simp only [List.append_assoc, List.cons_append]
    exact reads_statements_cons hb exists_head_includeKeyword
      (reads_statement_of_inclusion (reads_inclusion inBlock span printable.1 blank ha _)) behind
  | @object path op others before gap opText after text hb hg operation ha written =>
    obtain ⟨segments⟩ := path
    obtain ⟨leads, _, printableOp⟩ := printable.1
    obtain ⟨first, more, rfl⟩ := List.exists_cons_of_ne_nil leads.1.1
    have smaller : sizeOf others < n := by
      rw [← size, List.cons.sizeOf_spec]
      omega
    have behind := ih _ smaller (written.dropNewlines printable.2) printable.2
      (Nat.le_trans (Nat.le_max_right _ _) shallow) closes rfl
    rw [← Rule.dropWhile_append_of_stops closes.stops] at behind
    obtain ⟨gap', d, rest, eq, hg', hd⟩ := exists_sign operation.any hg ha
      (c := '\n') (by rintro ⟨⟩) (text ++ tail)
    simp only [List.append_assoc, List.cons_append]
    refine reads_statements_cons hb leads.1.exists_head (ends_statement_of_object leads
      (eq ▸ headIn_afterPath hg' hd rest) (eq ▸ noColon_of_gap hg' hd rest) fun v opens =>
        reads_object_plain inBlock _ leads.1.2 (printableOp op rfl) operation hg ha opens) behind
  | @block path op openBrace closeBrace inner others before gap opText after innerText text hb hg
      operation ha inside written =>
    obtain ⟨segments⟩ := path
    obtain ⟨leads, printableOp, printableInner⟩ := printable.1
    obtain ⟨first, more, rfl⟩ := List.exists_cons_of_ne_nil leads.1.1
    have smaller : sizeOf others < n := by
      rw [← size, List.cons.sizeOf_spec]
      omega
    have smallerInner : sizeOf inner < n := by
      simp only [← size, List.cons.sizeOf_spec, Statement.object.sizeOf_spec,
        Option.some.sizeOf_spec, Block.mk.sizeOf_spec]
      omega
    have deep : Statement.depthAll inner + 1 ≤ room :=
      Nat.le_trans (Nat.le_max_left _ _) shallow
    obtain ⟨room, rfl⟩ := Nat.exists_eq_succ_of_ne_zero (by omega : room ≠ 0)
    have contents := ih _ smallerInner inside printableInner (Nat.le_of_succ_le_succ deep)
      (.block (text ++ tail)) rfl
    have behind := ih _ smaller written printable.2
      (Nat.le_trans (Nat.le_max_right _ _) shallow) closes rfl
    obtain ⟨gap', d, rest, eq, hg', hd⟩ := exists_sign operation hg ha (fun _ => rfl)
      (innerText ++ '\x7d' :: (text ++ tail))
    simp only [List.append_assoc, List.cons_append]
    refine reads_statements_cons hb leads.1.exists_head (ends_statement_of_object leads
      (eq ▸ headIn_afterPath hg' hd rest) (eq ▸ noColon_of_gap hg' hd rest) fun v opens =>
        reads_object_block inBlock leads.1.2 printableOp operation hg ha contents opens) behind

end Parser

namespace Source

variable {ss : List Statement} {source : Source}

/-- A source is read as the statements that its text is read as. -/
theorem exists_parse_of_reads (h : (statements maxNesting false).Reads (.at source.text)
      (fun out => Statement.bareAll out = Statement.bareAll ss) (.at [])) :
    ∃ document reading, source.parse = .ok document reading ∧ reading.problems = [] ∧
      Statement.bareAll document.statements = Statement.bareAll ss := by
  have start : (Lexer.ofSource source).Shows (.at source.text) := ⟨rfl, .inl rfl⟩
  have read : document.Reads (.at source.text)
      (fun d => Statement.bareAll d.statements = Statement.bareAll ss) (.at []) :=
    h.bind fun _ same => (reads_getLexer _).bind fun _ _ => reads_pure (by exact same) _
  obtain ⟨document, reading, run, same, _⟩ := read { lexer := Lexer.ofSource source } start
  have parsed : source.parse = .ok document reading := run
  have faithful := source.parse_faithful
  rw [parsed] at faithful
  exact ⟨document, reading, parsed, faithful.1, same⟩

/-- A source cannot be read for the cause for which its text cannot be. -/
theorem exists_parse_of_fails {cause : Cause}
    (h : (statements maxNesting false).Fails (.at source.text) cause) :
    ∃ problem reading, source.parse = .error problem reading ∧ problem.cause = cause :=
  h.bind _ { lexer := Lexer.ofSource source } ⟨rfl, .inl rfl⟩

theorem exists_parse_of_writtenAs (written : Statement.AllWrittenAs ss source.text)
    (printable : Statement.AllPrintable ss) (shallow : Statement.depthAll ss ≤ maxNesting) :
    ∃ document reading, source.parse = .ok document reading ∧ reading.problems = [] ∧
      Statement.bareAll document.statements = Statement.bareAll ss := by
  refine exists_parse_of_reads ?_
  simpa using reads_statements written printable shallow .input

/-- Print, then parse: whatever gaps statements are written out with, and whatever line endings the
text is stored with, reading it back gives these statements and reports nothing. -/
theorem parse_of_writtenAs {text : List Char} (written : Statement.AllWrittenAs ss text)
    (printable : Statement.AllPrintable ss) (shallow : Statement.depthAll ss ≤ maxNesting)
    {raw : String} (stored : normalizeNewlines raw.toList = normalizeNewlines text)
    (path : Option Path) :
    ∃ document reading, (ofString raw path).parse = .ok document reading ∧
      reading.problems = [] ∧
      Statement.bareAll document.statements = Statement.bareAll ss := by
  refine exists_parse_of_writtenAs ?_ printable shallow
  show Statement.AllWrittenAs ss (normalizeNewlines raw.toList)
  rw [stored]
  exact written.normalized printable

/-- Statements with a comment, an escaped quote and a block, in a text with two kinds of line
endings. -/
theorem parse_of_assignment_and_block :
    let raw := "# x\r\na.'it\\'s' =\t-7\r\nb \x7b c > /* */ \n\x7d\n"
    let ss : List Statement :=
      [.object ⟨[.plain "a" .dummy, .quoted "it's" .dummy]⟩
          (some (.assign (.int (-7) .dummy))) none,
        .object ⟨[.plain "b" .dummy]⟩ none
          (some ⟨.dummy, [.object ⟨[.plain "c" .dummy]⟩ (some (.unset .dummy)) none], .dummy⟩)]
    ∃ document reading, (ofString raw none).parse = .ok document reading ∧
      reading.problems = [] ∧
      Statement.bareAll document.statements = Statement.bareAll ss := by
  intro raw ss
  have space : Gap false [' '] := .blank (.inl rfl) .nil
  have assigned : Operation.WrittenAs (.assign (.int (-7) .dummy)) "=\t-7".toList :=
    .assign (.blank (.inr rfl) .nil)
  have comment : Gap false " /* */ ".toList :=
    .blank (.inl rfl) (.comment (by decide : ¬['*', '/'] <:+: [' ']) space)
  have inner : Statement.AllWrittenAs [.object ⟨[.plain "c" .dummy]⟩ (some (.unset .dummy)) none]
      " c > /* */ \n".toList :=
    .object (.blank (.inl rfl) .nil) space .unset comment (.nil .nil)
  have head : Gap true "# x\n".toList :=
    .lineComment rfl (.inr rfl) (by decide : '\n' ∉ [' ', 'x'] ∧ '\r' ∉ [' ', 'x']) .nil
  have nothing : Operation.AnyWrittenAs none [] := rfl
  have written : Statement.AllWrittenAs ss
      "# x\na.'it\\'s' =\t-7\nb \x7b c > /* */ \n\x7d\n".toList :=
    .object head space assigned .nil
      (.block .nil space nothing .nil inner (.nil (.newline rfl .nil)))
  exact parse_of_writtenAs written (by decide +kernel) (by decide) (by decide +kernel) none

end Source

end FusionTree
