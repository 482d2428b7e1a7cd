import FusionTree.Proofs.Parser.Alike
import FusionTree.Proofs.Parser.RoundTrip

/-!
# One text behind different paths

The output of a language is read behind a path and an equals sign. Which path that is makes no
difference to what is read behind it: with another path that a statement may begin with, the same
statements are read, but for the path of the first one.
-/

namespace FusionTree

/-- The statement that assigns an output to a path, as a source of its own. -/
def Source.assigning (p : ObjectPath) (output : String) : Source :=
  ofString (String.ofList p.print ++ " = " ++ output) none

theorem Source.text_assigning {p : ObjectPath} (h : p.Printable) (output : String) :
    (assigning p output).text =
      p.print ++ ' ' :: '=' :: ' ' :: normalizeNewlines output.toList := by
  have sign : Normalizes " = ".toList " = ".toList := .of_not_mem (by decide)
  have text : (String.ofList p.print ++ " = " ++ output).toList =
      p.print ++ (" = ".toList ++ output.toList) := by
    simp
  simp only [assigning, ofString, text]
  rw [h.normalizes, sign]
  rfl

theorem Lexer.Shows.alike {lx other : Lexer} {text : List Char} (ne : text ≠ [])
    (h : lx.Shows (.at text)) (h' : other.Shows (.at text)) : lx.Alike other := by
  have fresh {lx : Lexer} (h : lx.Shows (.at text)) : lx.lookahead = none :=
    h.2.resolve_right fun ended => ne ended.1
  exact ⟨h.1.trans h'.1.symm, by rw [fresh h, fresh h']⟩

namespace Parser

variable {α β γ δ : Type} {E : α → β → Prop} {F : γ → δ → Prop} {v v' w w' : View}

def AlikeFrom (v v' : View) (E : α → β → Prop) (p : Parser α) (q : Parser β) : Prop :=
  ∀ s t : Reading, s.lexer.Shows v → t.lexer.Shows v' → Outcome.Alike E (p.run s) (q.run t)

theorem Alike.alikeFrom {p : Parser α} {q : Parser β} (h : Alike E p q) {text : List Char}
    (ne : text ≠ []) : AlikeFrom (.at text) (.at text) E p q :=
  fun s t hs ht => h s t (hs.alike ne ht)

/-- What is read first may differ, as long as the parsers that go on from there are alike. -/
theorem Reads.alikeFrom {p : Parser α} {q : Parser β} {P : α → Prop} {Q : β → Prop}
    {f : α → Parser γ} {g : β → Parser δ} (hp : p.Reads v P w) (hq : q.Reads v' Q w')
    (h : ∀ a b, P a → Q b → AlikeFrom w w' F (f a) (g b)) :
    AlikeFrom v v' F (p >>= f) (q >>= g) := by
  intro s t hs ht
  obtain ⟨a, s', run, ha, hs'⟩ := hp s hs
  obtain ⟨b, t', run', hb, ht'⟩ := hq t ht
  rw [run_bind, run_bind, run, run']
  exact h a b ha hb s' t' hs' ht'

theorem AlikeFrom.bind {p : Parser α} {q : Parser β} {f : α → Parser γ} {g : β → Parser δ}
    (h : AlikeFrom v v' E p q) (h' : ∀ a b, E a b → Alike F (f a) (g b)) :
    AlikeFrom v v' F (p >>= f) (q >>= g) :=
  fun s t hs ht => (h s t hs ht).bind fun a b s' t' _ same behind => h' a b same s' t' behind

/-- The first statement is about the first path, the second one says the same about the other. -/
def Renamed (p q : ObjectPath) (s s' : Statement) : Prop :=
  ∃ path op block, s = .object path op block ∧ path.bare = p.bare ∧
    s'.bare = (Statement.object q op block).bare

/-- The same for the first statements of two lists, which otherwise differ in places only. -/
def FirstRenamed (p q : ObjectPath) (ss ss' : List Statement) : Prop :=
  ∃ path op block rest, ss = .object path op block :: rest ∧ path.bare = p.bare ∧
    Statement.bareAll ss' = Statement.bareAll (.object q op block :: rest)

variable {p q : ObjectPath} {output : List Char}

/-- The object statements that begin with two paths, and go on with an equals sign after a space. -/
theorem alikeFrom_object {first first' : PathSegment} {more more' : List PathSegment}
    (hp : ObjectPath.Leads ⟨first :: more⟩) (hq : ObjectPath.Leads ⟨first' :: more'⟩)
    (inBlock : Bool) {contents : Option (Parser (List Statement))}
    (h : ∀ p, contents = some p → AlikeUpTo Statement.bareAll p p)
    (opens : v.Opens first (ObjectPath.printMore more ++ ' ' :: '=' :: output))
    (opens' : v'.Opens first' (ObjectPath.printMore more' ++ ' ' :: '=' :: output)) :
    AlikeFrom v v' (Renamed ⟨first :: more⟩ ⟨first' :: more'⟩) (object inBlock contents)
      (object inBlock contents) := by
  have behind : HeadIn afterPath (' ' :: '=' :: output) := headIn_cons (by decide) _
  refine (reads_objectPath opens hp.1.2 behind).alikeFrom (reads_objectPath opens' hq.1.2 behind)
    fun path path' same same' => ?_
  refine ((alike_behindPath inBlock h path path').mono ?_).alikeFrom (List.cons_ne_nil _ _)
  rintro _ s' ⟨op, block, rfl, eq⟩
  exact ⟨path, op, block, rfl, same, eq.trans (Statement.bare_object_congr same' op block)⟩

/-- The parser of statements does not see which path a statement leads with. -/
theorem alikeFrom_statement (hp : p.Leads) (hq : q.Leads) (inBlock : Bool)
    {contents : Option (Parser (List Statement))}
    (h : ∀ p, contents = some p → AlikeUpTo Statement.bareAll p p) :
    AlikeFrom (.at (p.print ++ ' ' :: '=' :: output)) (.at (q.print ++ ' ' :: '=' :: output))
      (Renamed p q) (statement inBlock contents) (statement inBlock contents) := by
  obtain ⟨segments⟩ := p
  obtain ⟨segments'⟩ := q
  obtain ⟨first, more, rfl⟩ := List.exists_cons_of_ne_nil hp.1.1
  obtain ⟨first', more', rfl⟩ := List.exists_cons_of_ne_nil hq.1.1
  have behind : HeadIn afterPath (' ' :: '=' :: output) := headIn_cons (by decide) _
  have noColon : ((' ' :: '=' :: output).dropWhile Text.isBlank).head? ≠ some ':' :=
    noColon_of_gap (.blank (.inl rfl) .nil) (by decide) output
  have noInclude {first : PathSegment} {more : List PathSegment}
      (hp : ObjectPath.Leads ⟨first :: more⟩) : (accept .inclusion).Reads
        (.at (first.print ++ (ObjectPath.printMore more ++ ' ' :: '=' :: output))) (· = false)
        (.at (first.print ++ (ObjectPath.printMore more ++ ' ' :: '=' :: output))) :=
    reads_accept_false (lacks_inclusion (hp.1.2 first (by simp)) (hp.2 first rfl)
      (headIn_printMore more behind) (noColon_printMore more noColon))
  have starts {first : PathSegment} {more : List PathSegment}
      (hp : ObjectPath.Leads ⟨first :: more⟩) :=
    reads_acceptAny_pathStarts (View.opens_at (hp.1.2 first (by simp))
      (headIn_printMore more behind))
  rw [ObjectPath.print, ObjectPath.print, List.append_assoc, List.append_assoc]
  refine (noInclude hp).alikeFrom (noInclude hq) ?_
  rintro _ _ rfl rfl
  refine (starts hp).alikeFrom (starts hq) ?_
  rintro _ _ rfl rfl
  exact alikeFrom_object hp hq inBlock h (View.opens_seen first _) (View.opens_seen first' _)

/-- Statements of which the first one leads with a path: the others do not see which path it is. -/
theorem alikeFrom_statements (hp : p.Leads) (hq : q.Leads) (room : Nat) (inBlock : Bool) :
    AlikeFrom (.at (p.print ++ ' ' :: '=' :: output)) (.at (q.print ++ ' ' :: '=' :: output))
      (FirstRenamed p q) (statements room inBlock) (statements room inBlock) := by
  have goesOn {p : ObjectPath} (hp : p.Leads) : (endOfStatements inBlock).Reads
      (.at (p.print ++ ' ' :: '=' :: output)) (· = false)
      (.at (p.print ++ ' ' :: '=' :: output)) := by
    obtain ⟨c, text, eq, hc⟩ := hp.1.exists_head
    rw [eq]
    exact reads_endOfStatements_false inBlock .nil hc _
  have contents : ∀ p, contentsIn room = some p → AlikeUpTo Statement.bareAll p p := by
    cases room with
    | zero => exact nofun
    | succ room =>
      rintro _ ⟨⟩
      exact alike_statements room true
  have others := alike_statements room inBlock
  rw [statements_eq] at others ⊢
  rw [repeatUntil_eq]
  refine (goesOn hp).alikeFrom (goesOn hq) ?_
  rintro _ _ rfl rfl
  refine (alikeFrom_statement hp hq inBlock contents).bind ?_
  rintro _ s' ⟨path, op, block, rfl, same, eq⟩
  refine others.bind fun rest rest' sames => alike_pure ⟨path, op, block, rest, rfl, same, ?_⟩
  rw [Statement.bareAll, Statement.bareAll, eq, sames]

end Parser

/-- A text behind two paths and equals signs: both times it cannot be read, or the statements read
differ in the path of the first one and in places only. -/
theorem Source.parse_assigning {p q : ObjectPath} (hp : p.Leads) (hq : q.Leads) (output : String) :
    Parser.Outcome.Alike (fun d d' => Parser.FirstRenamed p q d.statements d'.statements)
      (assigning p output).parse (assigning q output).parse := by
  have start {p : ObjectPath} (hp : p.Leads) : (Lexer.ofSource (assigning p output)).Shows
      (.at (p.print ++ ' ' :: '=' :: ' ' :: normalizeNewlines output.toList)) :=
    ⟨text_assigning hp.1 output, .inl rfl⟩
  refine (Parser.alikeFrom_statements hp hq maxNesting false _ _ (start hp) (start hq)).bind ?_
  intro ss ss' s t _ renamed alike
  exact (Parser.alike_getLexer s t alike).bind fun _ _ _ _ _ _ behind => .ok renamed behind

end FusionTree
