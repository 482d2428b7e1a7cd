import FusionTree.Proofs.Parser.Printing

/-!
# Reading paths back

A path that is written out is read back. Several kinds of token may stand at its start, and one text
may be a token of more than one of them, so the order in which they are asked for decides; what may
stand behind a path keeps its last segment from going on.
-/

namespace FusionTree

open FusionTree.Parser

/-! ### Paths -/

def afterPath : List Char := [' ', '\t', '/', '=', '<', '>', '\x7b', '\n']

namespace PathSegment

/-- The kind of the first token of the segment, its text, and the rest of the segment. -/
def opening : PathSegment → TokenKind × List Char × List Char
  | plain key _ => (.pathPart, key.toList, [])
  | quoted key _ => (.singleQuoted, Text.singleQuoted key, [])
  | metaProperty name _ => (.metaStart, ['@'], name.toList)
  | prototype name _ => (.prototypeStart, "prototype(".toList, name.toList ++ [')'])

theorem print_eq (s : PathSegment) : s.print = s.opening.2.1 ++ s.opening.2.2 := by
  cases s with
  | plain | quoted => exact (List.append_nil _).symm
  | metaProperty | prototype => rfl

end PathSegment

/-- The segment is next, looked at or not. The kind that opens a prototype is asked for before all
others. -/
structure View.Opens (s : PathSegment) (rest : List Char) (v : View) : Prop where
  offers : v.Offers s.opening.1 s.opening.2.1 (s.opening.2.2 ++ rest)
  others : ∀ k ∈ pathStarts, k ≠ s.opening.1 → s.opening.1 ≠ .prototypeStart → v.Lacks k

theorem View.opens_seen (s : PathSegment) (rest : List Char) :
    (View.seen s.opening.1 s.opening.2.1 (s.opening.2.2 ++ rest)).Opens s rest where
  offers := ⟨rfl, rfl, rfl⟩
  others _ _ other _ := other.symm

variable {s : PathSegment} {rest : List Char} {v : View}

theorem lexeme?_pathPart {name : List Char} (h : TokenKind.pathPart.IsLexeme name)
    (after : HeadIn ('.' :: afterPath) rest) :
    TokenKind.pathPart.lexeme? (name ++ rest) = some name := by
  obtain ⟨ne_nil, all⟩ := Rule.forall_mem_of_run h
  exact Rule.run_append ne_nil all (.of_headIn after (by decide))

theorem lexeme?_singleQuoted (key : String) (rest : List Char) :
    TokenKind.singleQuoted.lexeme? (Text.singleQuoted key ++ rest) =
      some (Text.singleQuoted key) := by
  have noNewline (c : Char) : Text.singleCode c ≠ some '\n' := by
    unfold Text.singleCode
    split
    · rename_i h
      rcases h with rfl | rfl <;> decide
    · simp
  have backslash : Text.singleCode '\\' ≠ none := by decide
  have quote : Text.singleCode '\'' ≠ none := by decide
  have quoted := Rule.quoted_escapeWith backslash quote (by decide) noNewline key.toList rest
  simpa [TokenKind.lexeme?, Text.singleQuoted] using quoted

theorem View.lacks_of_lexeme? {kind : TokenKind} {text : List Char} (ne_nil : text ≠ [])
    (h : kind.lexeme? text = none) : (View.at text).Lacks kind := by
  obtain ⟨c, text, rfl⟩ := List.exists_cons_of_ne_nil ne_nil
  exact h

/-- No other kind that a path starts with is offered where a bare key stands. -/
theorem View.lacks_pathStart {key : List Char} (h : TokenKind.pathPart.IsLexeme key)
    (after : HeadIn ('.' :: afterPath) rest) {k : TokenKind} (mem : k ∈ pathStarts)
    (other : k ≠ .pathPart) : (View.at (key ++ rest)).Lacks k := by
  obtain ⟨ne_nil, all⟩ := Rule.forall_mem_of_run h
  by_cases prototype : k = .prototypeStart
  · subst prototype
    refine lacks_of_lexeme? (by simp [ne_nil]) (Rule.literal_append_eq_none ?_ ?_)
    · intro le
      have outside : Rule.isPathPart '(' = true := all '(' (le.subset (by decide))
      exact absurd outside (by decide)
    · exact fun c hc => not_mem_of_apart (by decide) (after c hc)
  · obtain ⟨c, key, rfl⟩ := List.exists_cons_of_ne_nil ne_nil
    have hc : Rule.isPathPart c = true := all c (by simp)
    refine lacks_cons ?_ _
    simp only [pathStarts, List.mem_cons, List.not_mem_nil, or_false] at mem
    rcases mem with rfl | rfl | rfl | rfl | rfl
    · exact absurd rfl prototype
    · exact absurd rfl other
    all_goals
      refine beq_eq_false_iff_ne.mpr ?_
      rintro rfl
      exact absurd hc (by decide)

/-- A segment is next where it is written. -/
theorem View.opens_at (h : s.Printable) (after : HeadIn ('.' :: afterPath) rest) :
    (View.at (s.print ++ rest)).Opens s rest := by
  cases s with
  | plain key span =>
    exact ⟨⟨rfl, (Rule.forall_mem_of_run h).1, lexeme?_pathPart h after⟩,
      fun k mem other _ => lacks_pathStart h after mem other⟩
  | quoted key span =>
    refine ⟨⟨rfl, List.cons_ne_nil _ _, lexeme?_singleQuoted key rest⟩, fun k mem other _ => ?_⟩
    exact lacks_cons
      ((by decide : ∀ k ∈ pathStarts, k ≠ .singleQuoted → k.mayBegin '\'' = false) k mem other) _
  | metaProperty name span =>
    refine ⟨⟨rfl, List.cons_ne_nil _ _, Rule.literal_append ['@'] _⟩, fun k mem other _ => ?_⟩
    exact lacks_cons
      ((by decide : ∀ k ∈ pathStarts, k ≠ .metaStart → k.mayBegin '@' = false) k mem other) _
  | prototype name span =>
    refine ⟨⟨?_, List.cons_ne_nil _ _, ?_⟩, fun _ _ _ notPrototype => absurd rfl notPrototype⟩
    · rw [PathSegment.print_eq, List.append_assoc]
    · rw [PathSegment.print_eq, List.append_assoc]
      exact Rule.literal_append _ _

theorem Token.inner_of_lexeme {t : Token} {first last : Char} {text : List Char}
    (h : t.lexeme = first :: (text ++ [last])) : t.inner 1 = text := by
  simp [Token.inner, h]

namespace Parser

theorem reads_acceptAny {kinds : List TokenKind} {kind : TokenKind} {lexeme rest : List Char}
    (mem : kind ∈ kinds) (offers : v.Offers kind lexeme rest)
    (others : ∀ k ∈ kinds, k ≠ kind → v.Lacks k) :
    (acceptAny kinds).Reads v (· = true) (.seen kind lexeme rest) := by
  induction kinds with
  | nil => cases mem
  | cons k kinds ih =>
    rw [acceptAny]
    by_cases same : k = kind
    · subst same
      refine (reads_accept offers).bind ?_
      rintro _ rfl
      rw [if_pos rfl]
      exact reads_pure (by rfl) _
    · obtain ⟨head, tail⟩ := List.forall_mem_cons.mp others
      refine (reads_accept_false (head same)).bind ?_
      rintro _ rfl
      exact ih ((List.mem_cons.mp mem).resolve_left (Ne.symm same)) tail

theorem reads_acceptAny_pathStarts (h : v.Opens s rest) :
    (acceptAny pathStarts).Reads v (· = true)
      (.seen s.opening.1 s.opening.2.1 (s.opening.2.2 ++ rest)) := by
  by_cases prototype : s.opening.1 = .prototypeStart
  · have offers := h.offers
    rw [prototype] at offers ⊢
    refine (reads_accept offers).bind ?_
    rintro _ rfl
    rw [if_pos rfl]
    exact reads_pure (by rfl) _
  · refine reads_acceptAny ?_ h.offers fun k mem other => h.others k mem other prototype
    cases s <;> simp [PathSegment.opening, pathStarts]

theorem reads_pathSegment (opens : v.Opens s rest) (h : s.Printable)
    (after : HeadIn ('.' :: afterPath) rest) :
    pathSegment.Reads v (fun t => t.bare = s.bare) (.at rest) := by
  obtain ⟨offers, others⟩ := opens
  cases s with
  | plain key span =>
    have lacks {k : TokenKind} (mem : k ∈ pathStarts) (other : k ≠ .pathPart) : v.Lacks k :=
      others k mem other TokenKind.noConfusion
    refine reads_onToken_otherwise (lacks (by decide) (by decide)) <|
      reads_onToken_otherwise (lacks (by decide) (by decide)) <|
      reads_onToken_otherwise (lacks (by decide) (by decide)) <|
      reads_onToken_otherwise (lacks (by decide) (by decide)) <|
      reads_onToken offers fun token same => reads_pure ?_ _
    simp [PathSegment.bare, Token.text, same, PathSegment.opening]
  | quoted key span =>
    have lacks {k : TokenKind} (mem : k ∈ pathStarts) (other : k ≠ .singleQuoted) : v.Lacks k :=
      others k mem other TokenKind.noConfusion
    refine reads_onToken_otherwise (lacks (by decide) (by decide)) <|
      reads_onToken_otherwise (lacks (by decide) (by decide)) <|
      reads_onToken_otherwise (lacks (by decide) (by decide)) <|
      reads_onToken offers fun token same => reads_pure ?_ _
    simp [PathSegment.bare, Token.inner_of_lexeme same, Text.stripSlashes_escapeWith]
  | metaProperty name span =>
    have lacks {k : TokenKind} (mem : k ∈ pathStarts) (other : k ≠ .metaStart) : v.Lacks k :=
      others k mem other TokenKind.noConfusion
    have named : (View.at (name.toList ++ rest)).Offers .pathPart name.toList rest :=
      ⟨rfl, (Rule.forall_mem_of_run h).1, lexeme?_pathPart h after⟩
    refine reads_onToken_otherwise (lacks (by decide) (by decide)) <|
      reads_onToken offers fun start _ => (reads_expect named).bind fun token same =>
        reads_pure ?_ _
    simp [PathSegment.bare, Token.text, same]
  | prototype name span =>
    have stops : Rule.Stops Rule.isNamePart (')' :: rest) := .cons (by decide) rest
    have named : (View.at (name.toList ++ ')' :: rest)).Offers .objectName name.toList
        (')' :: rest) := by
      refine ⟨rfl, ?_, Rule.objectName_append h stops⟩
      obtain ⟨left, right, ⟨left_ne_nil, _⟩, _, eq⟩ := Rule.exists_of_objectName h
      simp [eq]
    have closes : (View.at (')' :: rest)).Offers .closeParen [')'] rest :=
      ⟨rfl, List.cons_ne_nil _ _, Rule.literal_append [')'] rest⟩
    have name_token : (onToken .objectName pure (failHere .expectedPrototypeName)).Reads
        (.at (name.toList ++ ')' :: rest)) (fun token => token.lexeme = name.toList)
        (.at (')' :: rest)) :=
      reads_onToken named fun token same => reads_pure (by exact same) _
    rw [PathSegment.opening, List.append_assoc] at offers
    refine reads_onToken offers fun start _ => name_token.bind fun token same =>
      (reads_expect closes).bind fun close _ => reads_pure ?_ _
    simp [PathSegment.bare, Token.text, same]

theorem lacks_dot {cs : List Char} (after : HeadIn cs rest) (h : '.' ∉ cs) :
    (View.at rest).Lacks .dot := by
  cases rest with
  | nil => exact TokenKind.noConfusion
  | cons c rest =>
    refine View.lacks_cons (beq_eq_false_iff_ne.mpr ?_) rest
    rintro rfl
    exact h (after '.' rfl)

theorem headIn_printMore (more : List PathSegment) (after : HeadIn afterPath rest) :
    HeadIn ('.' :: afterPath) (ObjectPath.printMore more ++ rest) := by
  cases more with
  | nil => exact after.mono (List.subset_cons_self _ _)
  | cons s more => exact headIn_cons (List.mem_cons_self) _

theorem reads_moreSegments {more : List PathSegment} (h : ∀ s ∈ more, s.Printable)
    (after : HeadIn afterPath rest) :
    (eachAfter .dot (by decide) pathSegment).Reads (.at (ObjectPath.printMore more ++ rest))
      (fun out => out.map PathSegment.bare = more.map PathSegment.bare) (.at rest) := by
  induction more with
  | nil =>
    refine (reads_eachAfter_nil (lacks_dot after (by decide))).mono ?_
    rintro _ rfl
    rfl
  | cons s more ih =>
    obtain ⟨hs, hmore⟩ := List.forall_mem_cons.mp h
    have behind := headIn_printMore more after
    have dot : (View.at (ObjectPath.printMore (s :: more) ++ rest)).Offers .dot ['.']
        (s.print ++ (ObjectPath.printMore more ++ rest)) := by
      have text : ObjectPath.printMore (s :: more) ++ rest =
          ['.'] ++ (s.print ++ (ObjectPath.printMore more ++ rest)) := by
        simp [ObjectPath.printMore]
      rw [text]
      exact ⟨rfl, List.cons_ne_nil _ _, Rule.literal_append ['.'] _⟩
    refine (reads_eachAfter_cons dot (reads_pathSegment (View.opens_at hs behind) hs behind)
      (ih hmore)).mono ?_
    rintro _ ⟨t, out, rfl, ht, hout⟩
    rw [List.map_cons, List.map_cons, ht, hout]

theorem reads_objectPath {first : PathSegment} {more : List PathSegment}
    (opens : v.Opens first (ObjectPath.printMore more ++ rest))
    (h : ∀ s ∈ first :: more, s.Printable) (after : HeadIn afterPath rest) :
    objectPath.Reads v (fun p => p.bare = ObjectPath.bare ⟨first :: more⟩) (.at rest) := by
  obtain ⟨hfirst, hmore⟩ := List.forall_mem_cons.mp h
  refine (reads_pathSegment opens hfirst (headIn_printMore more after)).bind fun s hs =>
    (reads_moreSegments hmore after).bind fun out hout => reads_pure ?_ _
  simp only [ObjectPath.bare, List.map_cons, hs, hout]

end Parser

end FusionTree
