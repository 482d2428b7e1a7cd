import FusionTree.Proofs.Parser.RoundTrip

/-!
# Assigning whole numbers

What is read of an assignment whose value is written in decimal digits. The first 19 digits are the
number, whatever it is; a further one keeps the statement from ending.
-/

namespace FusionTree

open FusionTree.Parser

def assignmentOf (path : ObjectPath) (minus digits : List Char) : List Char :=
  path.print ++ ' ' :: '=' :: ' ' :: (minus ++ digits)

namespace Parser

variable {minus digits rest : List Char} {room : Nat} {inBlock : Bool} {v : View}

/-! ### Ends of statements -/

theorem reads_endOfStatement_at_end (inBlock : Bool) :
    (endOfStatement inBlock).Reads (.at []) (fun _ => True) (.at []) := by
  have solid : Solid false [] := by rintro _ ⟨⟩
  refine (reads_skipSmallGap .nil solid).bind fun _ _ => reads_accept_endOfInput.bind ?_
  rintro _ rfl
  exact reads_pure trivial _

theorem solid_of_isDigit {c : Char} (digit : Rule.isDigit c = true) (rest : List Char) :
    Solid false (c :: rest) := by
  refine Solid.of_head (fun mem => ?_) rest
  have none : [' ', '\t', '/', '#', '\n'].any Rule.isDigit = false := by decide
  exact List.any_eq_false.mp none c mem digit

theorem lacks_of_isDigit {kind : TokenKind} {d c : Char} (digit : Rule.isDigit c = true)
    (noDigit : Rule.isDigit d = false) (begins : kind.mayBegin c = (c == d)) (rest : List Char) :
    (View.at (c :: rest)).Lacks kind := by
  refine View.lacks_cons ?_ rest
  rw [begins, beq_eq_false_iff_ne]
  rintro rfl
  rw [digit] at noDigit
  cases noDigit

/-- No statement ends where a digit stands. -/
theorem fails_endOfStatement {c : Char} (digit : Rule.isDigit c = true) (rest : List Char) :
    (endOfStatement false).Fails (.at (c :: rest)) (.syntactic .expectedEndOfStatement) := by
  refine (reads_skipSmallGap .nil (solid_of_isDigit digit rest)).bind_ends fun _ _ => ?_
  have more : (View.at (c :: rest)).Lacks .endOfInput := rfl
  refine (reads_accept_false more).bind_ends ?_
  rintro _ rfl
  refine (reads_take_none (lacks_of_isDigit digit (by decide) rfl rest)).bind_ends ?_
  rintro _ rfl
  exact fails_failHere .expectedEndOfStatement _

/-! ### Assignments -/

section Numeral

variable (sign : minus = [] ∨ minus = ['-']) (ne_nil : digits ≠ [])
  (all : ∀ c ∈ digits, Rule.isDigit c = true)

include sign ne_nil all

theorem solid_numeral : Solid false (minus ++ digits) := by
  rcases sign with rfl | rfl
  · obtain ⟨c, digits, rfl⟩ := List.exists_cons_of_ne_nil ne_nil
    exact solid_of_isDigit (all c (by simp)) digits
  · exact Solid.of_head (by decide) _

theorem reads_operation_numeral :
    operation?.Reads (.at ('=' :: ' ' :: (minus ++ digits)))
      (fun out => ∃ y, out = some (.assign y) ∧
        y.bare = (Value.int (integerValue (minus ++ digits.take 19)) .dummy).bare)
      (.at (digits.drop 19)) := by
  have sign? : (View.at ('=' :: ' ' :: (minus ++ digits))).Offers .assign ['=']
      ([' '] ++ (minus ++ digits)) :=
    ⟨rfl, List.cons_ne_nil _ _, Rule.literal_append ['='] _⟩
  have nothing : HeadIn afterValue [] := by rintro _ ⟨⟩
  have read := reads_numeral sign ne_nil all nothing .dummy
  rw [List.append_nil, List.append_nil] at read
  exact reads_onToken sign? fun _ _ =>
    (reads_skipSmallGap (.blank (.inl rfl) .nil) (solid_numeral sign ne_nil all)).bind fun _ _ =>
      read.bind fun y same => reads_pure ⟨y, rfl, same⟩ _

/-- The object statement ends as its end of statement does behind the first 19 digits. -/
theorem ends_object_numeral {contents : Option (Parser (List Statement))} {first : PathSegment}
    {more : List PathSegment} (printable : ∀ s ∈ first :: more, s.Printable)
    (opens : v.Opens first
      (ObjectPath.printMore more ++ ' ' :: '=' :: ' ' :: (minus ++ digits)))
    {C : Outcome Statement → Prop}
    (h : ∀ path y, path.bare = ObjectPath.bare ⟨first :: more⟩ →
      y.bare = (Value.int (integerValue (minus ++ digits.take 19)) .dummy).bare →
      (do
        endOfStatement inBlock
        return .object path (some (.assign y)) none : Parser Statement).Ends
          (.at (digits.drop 19)) C) :
    (object inBlock contents).Ends v C := by
  have space : Gap false [' '] := .blank (.inl rfl) .nil
  have behind : HeadIn afterPath (' ' :: '=' :: ' ' :: (minus ++ digits)) :=
    headIn_cons (by decide) _
  refine (reads_objectPath opens printable behind).bind_ends fun path hp => ?_
  refine (reads_skipSmallGap space (Solid.of_head (by decide) _)).bind_ends fun _ _ => ?_
  refine (reads_getLexer _).bind_ends fun lexer _ => ?_
  refine (reads_operation_numeral sign ne_nil all).bind_ends ?_
  rintro _ ⟨y, rfl, hy⟩
  have left : Solid false (digits.drop 19) ∧ (View.at (digits.drop 19)).Lacks .openBrace := by
    cases more : digits.drop 19 with
    | nil => exact ⟨by rintro _ ⟨⟩, TokenKind.noConfusion⟩
    | cons c tail =>
      have digit := all c (List.mem_of_mem_drop (more ▸ List.mem_cons_self))
      exact ⟨solid_of_isDigit digit tail, lacks_of_isDigit digit (by decide) rfl tail⟩
  refine (reads_skipSmallGap .nil left.1).bind_ends fun _ _ => ?_
  refine (reads_accept_false left.2).bind_ends ?_
  rintro _ rfl
  exact h path y hp hy

theorem ends_statement_numeral {contents : Option (Parser (List Statement))} {path : ObjectPath}
    (leads : path.Leads) {C : Outcome Statement → Prop}
    (h : ∀ path' y, path'.bare = path.bare →
      y.bare = (Value.int (integerValue (minus ++ digits.take 19)) .dummy).bare →
      (do
        endOfStatement inBlock
        return .object path' (some (.assign y)) none : Parser Statement).Ends
          (.at (digits.drop 19)) C) :
    (statement inBlock contents).Ends (.at (assignmentOf path minus digits)) C := by
  obtain ⟨segments⟩ := path
  obtain ⟨first, more, rfl⟩ := List.exists_cons_of_ne_nil leads.1.1
  have behind : HeadIn afterPath (' ' :: '=' :: ' ' :: (minus ++ digits)) :=
    headIn_cons (by decide) _
  have noColon : ((' ' :: '=' :: ' ' :: (minus ++ digits)).dropWhile Text.isBlank).head? ≠
      some ':' := noColon_of_gap (.blank (.inl rfl) .nil) (by decide) (' ' :: (minus ++ digits))
  exact ends_statement_of_object leads behind noColon fun v opens =>
    ends_object_numeral sign ne_nil all leads.1.2 opens h

end Numeral

theorem reads_statements_end (room : Nat) :
    (statements room false).Reads (.at [])
      (fun out => Statement.bareAll out = Statement.bareAll []) (.at []) := by
  rw [statements_eq]
  refine (reads_repeatUntil_nil (reads_endOfStatements .input (.nil : Gap true []))).mono ?_
  rintro _ rfl
  rfl

/-- The list of statements cannot be read for the cause for which its first one cannot be. -/
theorem fails_statements {start : List Char} {cause : Cause}
    (begins : ∃ c tail, start = c :: tail ∧ beginsSegment c = true)
    (h : (statement inBlock (contentsIn room)).Fails (.at start) cause) :
    (statements room inBlock).Fails (.at start) cause := by
  obtain ⟨c, tail, rfl, hc⟩ := begins
  rw [statements_eq, repeatUntil_eq]
  refine (reads_endOfStatements_false inBlock (.nil : Gap true []) hc tail).bind_ends ?_
  rintro _ rfl
  exact h.bind _

theorem exists_head_assignmentOf {path : ObjectPath} (leads : path.Leads)
    (minus digits : List Char) : ∃ c tail, assignmentOf path minus digits = c :: tail ∧
      beginsSegment c = true := by
  obtain ⟨c, text, eq, hc⟩ := leads.1.exists_head
  exact ⟨c, _, by rw [assignmentOf, eq, List.cons_append], hc⟩

variable {path : ObjectPath}

/-- An assignment of a number with at most 19 digits is read as such. -/
theorem reads_statements_numeral (sign : minus = [] ∨ minus = ['-']) (ne_nil : digits ≠ [])
    (all : ∀ c ∈ digits, Rule.isDigit c = true) (leads : path.Leads) (few : digits.length ≤ 19)
    (room : Nat) :
    (statements room false).Reads (.at (assignmentOf path minus digits))
      (fun out => Statement.bareAll out = Statement.bareAll
        [.object path (some (.assign (.int (integerValue (minus ++ digits)) .dummy))) none])
      (.at []) := by
  have first : (statement false (contentsIn room)).Reads
      (.at (assignmentOf path minus digits ++ []))
      (fun out => out.bare = (Statement.object path
        (some (.assign (.int (integerValue (minus ++ digits)) .dummy))) none).bare) (.at []) := by
    rw [List.append_nil]
    refine ends_statement_numeral sign ne_nil all leads fun path' y hp hy => ?_
    rw [List.drop_of_length_le few]
    rw [List.take_of_length_le few] at hy
    exact (reads_endOfStatement_at_end false).bind fun _ _ => reads_pure
      (by simp [Statement.bare, Operation.bare, hp, hy]) _
  simpa using reads_statements_cons (.nil : Gap true []) (exists_head_assignmentOf leads _ _) first
    (reads_statements_end room)

/-- An assignment of a number with more than 19 digits does not end where it should. -/
theorem fails_statements_numeral (sign : minus = [] ∨ minus = ['-'])
    (all : ∀ c ∈ digits, Rule.isDigit c = true) (leads : path.Leads) (many : 19 < digits.length)
    (room : Nat) :
    (statements room false).Fails (.at (assignmentOf path minus digits))
      (.syntactic .expectedEndOfStatement) := by
  have ne_nil : digits ≠ [] := List.ne_nil_of_length_pos (Nat.lt_trans (by decide) many)
  refine fails_statements (exists_head_assignmentOf leads _ _)
    (ends_statement_numeral sign ne_nil all leads fun path' y _ _ => ?_)
  obtain ⟨c, tail, left⟩ : ∃ c tail, digits.drop 19 = c :: tail :=
    List.exists_cons_of_ne_nil (by simpa using many)
  rw [left]
  have digit := all c (List.mem_of_mem_drop (left ▸ List.mem_cons_self))
  exact (fails_endOfStatement digit tail).bind _

end Parser

end FusionTree
