import FusionTree.Proofs.Merge.Failure
import FusionTree.Proofs.Merge.LastAssignment
import FusionTree.Proofs.Merge.Places
import FusionTree.Proofs.Parser.Numerals
import FusionTree.Proofs.Tree.Hierarchy
import Mathlib.Data.Nat.Digits.Defs

/-!
# What whole numbers become

A whole number in decimal digits becomes the 64-bit integer nearest to it. That holds for as many
digits as a token of a number may have; a number with more of them is refused, even if it is small.
-/

namespace FusionTree

/-! ### Decimal notation -/

/-- A whole number in decimal notation: a sign and at least one digit, the first of which may be
zeros. -/
structure Decimal where
  negative : Bool
  digits : List (Fin 10)
  ne_nil : digits ≠ []

namespace Decimal

def minus (d : Decimal) : List Char :=
  if d.negative then ['-'] else []

def places (d : Decimal) : List Char :=
  d.digits.map fun x => x.val.digitChar

def text (d : Decimal) : List Char :=
  d.minus ++ d.places

def size (d : Decimal) : Nat :=
  Nat.ofDigits 10 (d.digits.reverse.map Fin.val)

def value (d : Decimal) : Int :=
  if d.negative then -d.size else d.size

variable (d : Decimal)

theorem minus_eq : d.minus = [] ∨ d.minus = ['-'] := by
  unfold minus
  split
  · exact .inr rfl
  · exact .inl rfl

theorem places_ne_nil : d.places ≠ [] := by
  simpa [places] using d.ne_nil

theorem isDigit_of_mem_places : ∀ c ∈ d.places, Rule.isDigit c = true := by
  intro c hc
  obtain ⟨x, _, rfl⟩ := List.mem_map.mp hc
  exact (by decide : ∀ x : Fin 10, Rule.isDigit x.val.digitChar = true) x

@[simp] theorem length_places : d.places.length = d.digits.length := List.length_map _

theorem decimalValue_places : decimalValue d.places = d.size := by
  have digit : ∀ x : Fin 10, x.val.digitChar.toNat - '0'.toNat = x.val := by decide
  rw [decimalValue, places, List.foldl_map, List.foldl_eq_foldr_reverse, size,
    Nat.ofDigits_eq_foldr, List.foldr_map]
  simp only [digit, Nat.cast_id, Nat.add_comm]

theorem integerValue_eq : integerValue d.text = saturate d.value := by
  unfold text minus value
  split
  · rw [← d.decimalValue_places]
    rfl
  · rw [List.nil_append, integerValue_of_isDigit d.isDigit_of_mem_places, decimalValue_places]

end Decimal

theorem toInt_saturate (n : Int) : (saturate n).toInt = max (-2 ^ 63) (min n (2 ^ 63 - 1)) := by
  have low : Int64.minValue.toInt = -2 ^ 63 := rfl
  have high : Int64.maxValue.toInt = 2 ^ 63 - 1 := rfl
  rw [saturate, low, high]
  exact Int64.toInt_ofInt_of_le (by omega) (by omega)

/-! ### Runs -/

namespace RunOptions

variable {options : RunOptions} {src : Source}

theorem settled_of_outcome {tree : Entries} (h : (options.runSource src).outcome = .ok tree) :
    (options.runSource src).settled? = some (.ok tree) := by
  have reports := reportsOne_runSource options src
  rw [RunResult.ReportsOne, h] at reports
  exact reports.2

theorem settled_of_parse_error (deep : 0 < options.depth) {p : Problem} {reading : Reading}
    (h : src.parse = .error p reading) :
    (options.runSource src).settled? = some (.error p) := by
  obtain ⟨depth, hd⟩ := Nat.exists_eq_succ_of_ne_zero (Nat.ne_of_gt deep)
  have stops : Merge.Stops (Merge.source options.resolver options.dsl options.depth src [])
      (.problem p) := by
    rw [hd, Merge.source_succ]
    exact (Merge.stops_parse h).bind _
  obtain ⟨s, run⟩ := stops {}
  have outcome : (options.runSource src).outcome = .error (.problem p) := by
    simp only [runSource, run]
  have reports := reportsOne_runSource options src
  rw [RunResult.ReportsOne, outcome] at reports
  exact reports.2.1

def assigning (text : List Char) (path : Option Path) : Source :=
  Source.ofString ("a = " ++ String.ofList text) path

def propertyPath : ObjectPath := ⟨[.plain "a" .dummy]⟩

theorem leads_propertyPath : propertyPath.Leads := by decide

section Numeral

variable {minus digits : List Char} (sign : minus = [] ∨ minus = ['-'])
  (all : ∀ c ∈ digits, Rule.isDigit c = true) (path : Option Path)

include sign all

theorem text_assigning :
    (assigning (minus ++ digits) path).text = assignmentOf propertyPath minus digits := by
  have noReturn : '\r' ∉ "a = ".toList ++ (minus ++ digits) := by
    simp only [List.mem_append, not_or]
    refine ⟨by decide, ?_, fun mem => absurd (all _ mem) (by decide)⟩
    rcases sign with rfl | rfl <;> decide
  have normalized := (Normalizes.of_not_mem noReturn).eq
  have written : (String.ofList (minus ++ digits)).toList = minus ++ digits :=
    String.toList_ofList
  rw [assigning, Source.ofString, String.toList_append, written, normalized]
  rfl

variable (options)

/-- The number is what the run shows. -/
theorem settled_of_few (deep : 0 < options.depth) (ne_nil : digits ≠ [])
    (few : digits.length ≤ 19) :
    (options.runSource (assigning (minus ++ digits) path)).settled? =
      some (.ok [("a", .int (integerValue (minus ++ digits)))]) := by
  have text := text_assigning sign all path
  have read := Parser.reads_statements_numeral sign ne_nil all leads_propertyPath few maxNesting
  rw [← text] at read
  obtain ⟨document, reading, parsed, _, same⟩ := Source.exists_parse_of_reads read
  obtain ⟨depth, hd⟩ := Nat.exists_eq_succ_of_ne_zero (Nat.ne_of_gt deep)
  refine settled_of_outcome (outcome_of_performs
    (f := (·.set ["a"] (.int (integerValue (minus ++ digits))))) ?_ ?_)
  · rw [hd]
    refine Merge.performs_source_succ_iff.mpr
      ⟨document.statements, by rw [Source.statements?, parsed], ?_⟩
    have steady := Context.steady_ofSource options.resolver options.dsl depth
      (assigning (minus ++ digits) path) []
    rw [← Merge.performs_bareAll_iff steady, same, Merge.performs_bareAll_iff steady]
    have allowed (b : Bool) : propertyPath.Allowed b := by
      intro s hs
      obtain rfl := List.mem_singleton.mp hs
      exact (by decide : Key.Speakable "a")
    refine (Merge.performs_statements_object_iff steady).mpr
      ⟨allowed _, (·.set ["a"] (.int (integerValue (minus ++ digits)))), id, ?_,
        Merge.performs_statements_nil_iff.mpr rfl, rfl⟩
    exact ⟨_, Merge.performs_nodeOf rfl, rfl⟩
  · have noPrototypes : ∀ ps, ¬Entries.HasPrototypes [("a", .int (integerValue (minus ++ digits)))]
        ps := by
      intro ps found
      cases found
    exact (congrArg _ (Entries.linkPrototypes_eq_self noPrototypes)).trans (ite_self _)

theorem settled_of_many (deep : 0 < options.depth) (many : 19 < digits.length) :
    ∃ p, (options.runSource (assigning (minus ++ digits) path)).settled? = some (.error p) ∧
      p.cause = .syntactic .expectedEndOfStatement := by
  have fails := Parser.fails_statements_numeral sign all leads_propertyPath many maxNesting
  rw [← text_assigning sign all path] at fails
  obtain ⟨p, reading, parsed, cause⟩ := Source.exists_parse_of_fails fails
  exact ⟨p, settled_of_parse_error deep parsed, cause⟩

end Numeral

/-- An assigned number of at most 19 digits, leading zeros included, becomes the 64-bit integer
nearest to it. One of more digits is refused, because the statement does not end behind the 19th of
them. Every 64-bit integer is read back as it is written. -/
theorem settled_decimal (deep : 0 < options.depth) (path : Option Path) :
    (∀ d : Decimal, d.digits.length ≤ 19 → ∃ n : Int64,
      (options.runSource (assigning d.text path)).settled? = some (.ok [("a", .int n)]) ∧
        n.toInt = max (-2 ^ 63) (min d.value (2 ^ 63 - 1))) ∧
    (∀ d : Decimal, 19 < d.digits.length → ∃ p,
      (options.runSource (assigning d.text path)).settled? = some (.error p) ∧
        p.cause = .syntactic .expectedEndOfStatement) ∧
    ∀ n : Int64, (options.runSource (assigning (toString n.toInt).toList path)).settled? =
      some (.ok [("a", .int n)]) := by
  refine ⟨fun d few => ?_, fun d many => ?_, fun n => ?_⟩
  · have settled := settled_of_few options d.minus_eq d.isDigit_of_mem_places path deep
      d.places_ne_nil (d.length_places ▸ few)
    refine ⟨saturate d.value, ?_, toInt_saturate d.value⟩
    rw [← d.integerValue_eq]
    exact settled
  · exact settled_of_many options d.minus_eq d.isDigit_of_mem_places path deep
      (d.length_places ▸ many)
  · obtain ⟨minus, digits, eq, sign, ne_nil, all, few, spelled⟩ := exists_digits n
    rw [eq, ← spelled]
    exact settled_of_few options sign all path deep ne_nil few

/-- The least number of 19 digits lies below the range of 64-bit integers. -/
theorem settled_decimal_of_nines :
    let options : RunOptions := { resolver := noFiles }
    let d : Decimal := ⟨true, List.replicate 19 9, by decide⟩
    0 < options.depth ∧ d.digits.length ≤ 19 ∧
      (options.runSource (assigning d.text none)).settled? =
        some (.ok [("a", .int Int64.minValue)]) := by
  intro options d
  have deep : 0 < options.depth := by decide
  have few : d.digits.length ≤ 19 := by decide
  obtain ⟨n, settled, value⟩ := (settled_decimal deep none).1 d few
  obtain rfl : n = Int64.minValue := Int64.toInt_inj.mp (value.trans (by decide))
  exact ⟨deep, few, settled⟩

/-- The number after the greatest one of 19 digits is refused. -/
theorem twenty_digits_refused :
    let d : Decimal := ⟨false, 1 :: List.replicate 19 0, by decide⟩
    let result := ({ resolver := noFiles } : RunOptions).runSource (assigning d.text none)
    d.text = "10000000000000000000".toList ∧
      (∃ p, result.settled? = some (.error p) ∧ p.cause = .syntactic .expectedEndOfStatement) ∧
      ¬∃ n : Int64, result.settled? = some (.ok [("a", .int n)]) ∧
        n.toInt = max (-2 ^ 63) (min d.value (2 ^ 63 - 1)) := by
  intro d result
  obtain ⟨p, refused, cause⟩ := settled_of_many { resolver := noFiles } d.minus_eq
    d.isDigit_of_mem_places none (by decide) (by decide)
  refine ⟨by decide, ⟨p, refused, cause⟩, ?_⟩
  rintro ⟨n, accepted, _⟩
  cases refused.symm.trans accepted

end RunOptions

end FusionTree
