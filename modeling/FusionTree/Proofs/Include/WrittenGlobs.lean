import FusionTree.Proofs.FileTree.Spelling
import FusionTree.Proofs.Include.Selection
import FusionTree.Proofs.Source.Parents

/-!
# Globs in include statements

A documented glob is joined to the directory of the including file, and what comes out is folded. It
is read as a glob again with the folded directory, unless nothing is left of that directory, or only
the root: then the stars have no directory in front of them. The files do not depend on whether the
including file is spelled by a relative path or by an absolute one. -/

namespace FusionTree

open FusionTree.Path

/-- A glob as it is written in an include statement. -/
structure WrittenGlob where
  /-- What is written in front of the stars and the slash before them, if there is a slash. -/
  directory : Option String
  deep : Bool
  suffix : String

namespace WrittenGlob

def ending (g : WrittenGlob) : List String :=
  if g.deep then ["**", "*" ++ g.suffix] else ["*" ++ g.suffix]

def text (g : WrittenGlob) : String :=
  match g.directory with
  | none => "/".intercalate g.ending
  | some directory => directory ++ "/" ++ "/".intercalate g.ending

/-- The glob is one of the documented forms: the directory is relative and has no star, the suffix
has neither star nor slash, and there are no blanks around the pattern. -/
structure Documented (g : WrittenGlob) : Prop where
  directory : ∀ d ∈ g.directory, d ≠ "" ∧ d.toList.head? ≠ some '/' ∧ '*' ∉ d.toList
  suffix : ∀ c ∈ g.suffix.toList, c ≠ '*' ∧ c ≠ '/'
  trimmed : Text.trim g.text.toList = g.text.toList

def base (g : WrittenGlob) (current : Path) : Path :=
  current.directory.join (g.directory.getD "")

def walk (g : WrittenGlob) (current : Path) : Walk :=
  .along (g.base current)

/-- The directory of the glob as it is folded. -/
def searched (g : WrittenGlob) (current : Path) : Path :=
  (g.base current).normalize

/-- More than the root is left of the directory when it is folded. -/
def KeepsDirectory (g : WrittenGlob) (current : Path) : Prop :=
  g.searched current ≠ ⟨""⟩ ∧ g.searched current ≠ ⟨"/"⟩

variable {g : WrittenGlob} {current : Path} {tree : FileTree} {extension : String}

/-! ### The text of a glob -/

theorem intercalate_ending (g : WrittenGlob) :
    "/".intercalate g.ending = Glob.stars g.deep ++ g.suffix := by
  rw [ending]
  cases g.deep with
  | false => exact String.intercalate_singleton
  | true =>
    rw [if_pos rfl, String.intercalate_cons_cons, String.intercalate_singleton,
      ← String.append_assoc]
    rfl

theorem ending_ne_nil (g : WrittenGlob) : g.ending ≠ [] := by
  rw [ending]
  split <;> simp

theorem Documented.isStep_ending (h : g.Documented) :
    ∀ name ∈ g.ending, (Component.name name).IsStep := by
  have last : (Component.name ("*" ++ g.suffix)).IsStep := by
    have text : ("*" ++ g.suffix).toList = '*' :: g.suffix.toList := String.toList_append
    refine ⟨component?_eq_some_iff.mpr (.inr ?_), ?_⟩
    · rw [Component.text, text]
      exact ⟨by simp, by simp, by simp, by rw [← text, String.ofList_toList]⟩
    · rw [Component.text, text]
      exact List.not_mem_cons_of_ne_of_not_mem (by decide) fun slash => (h.suffix _ slash).2 rfl
  rw [ending]
  split
  · exact List.forall_mem_cons.mpr ⟨⟨rfl, by decide⟩, List.forall_mem_singleton.mpr last⟩
  · exact List.forall_mem_singleton.mpr last

theorem exists_ending_eq (g : WrittenGlob) :
    ∃ rest, ("/".intercalate g.ending).toList = '*' :: rest := by
  rw [intercalate_ending]
  exact Glob.stars_append _ _

/-- The text of a documented glob starts with something else than a slash. -/
theorem Documented.exists_text_eq (h : g.Documented) :
    ∃ c rest, g.text.toList = c :: rest ∧ c ≠ '/' := by
  obtain ⟨stars, eq⟩ := g.exists_ending_eq
  rw [text]
  split
  · exact ⟨_, _, eq, by decide⟩
  · rename_i d written
    obtain ⟨given, relative, _⟩ := h.directory d written
    obtain ⟨c, rest, split⟩ := List.exists_cons_of_ne_nil (mt String.toList_eq_nil_iff.mp given)
    refine ⟨c, _, by rw [String.toList_append, String.toList_append, split]; rfl, ?_⟩
    rw [split] at relative
    simpa using relative

theorem Documented.stepsOf_text (h : g.Documented) :
    stepsOf g.text.toList = stepsOf (g.directory.getD "").toList ++ g.ending.map .name := by
  rw [text]
  split
  · rename_i none
    rw [stepsOf_names h.isStep_ending, none]
    rfl
  · rename_i d written
    have slash : "/".toList = ['/'] := rfl
    rw [String.toList_append, String.toList_append, slash, List.append_assoc, List.singleton_append,
      stepsOf_append_slash, stepsOf_names h.isStep_ending, written, Option.getD_some]

/-! ### The folded pattern -/

theorem Documented.head?_text (h : g.Documented) : g.text.toList.head? ≠ some '/' := by
  obtain ⟨c, rest, eq, slash⟩ := h.exists_text_eq
  rw [eq, List.head?_cons]
  simpa using slash

theorem Documented.head?_directory (h : g.Documented) :
    (g.directory.getD "").toList.head? ≠ some '/' := by
  cases written : g.directory with
  | none => simp
  | some d => exact (h.directory d written).2.1

theorem Documented.text_target (h : g.Documented) (current : Path) :
    (current.directory.join g.text).normalize.text =
      if g.searched current = ⟨""⟩ then "/".intercalate g.ending
      else if g.searched current = ⟨"/"⟩ then "/" ++ "/".intercalate g.ending
      else (g.searched current).text ++ "/" ++ "/".intercalate g.ending := by
  refine text_normalize_of_steps ?_ ?_ g.ending_ne_nil
  · rw [base, isAbsolute_join _ h.head?_text, isAbsolute_join _ h.head?_directory]
  · rw [base, steps_join _ h.head?_text, steps_join _ h.head?_directory, h.stepsOf_text,
      List.append_assoc]

theorem Documented.includeTarget_text (h : g.Documented) (current : Path) :
    includeTarget g.text (some current) = .ok (current.directory.join g.text).normalize := by
  obtain ⟨c, rest, eq, slash⟩ := h.exists_text_eq
  have read : String.ofList (c :: rest) = g.text := eq ▸ String.ofList_toList
  rw [includeTarget.eq_def, h.trimmed, eq]
  simp only [read]
  split
  · rename_i empty
    cases empty
  · rename_i absolute
    cases absolute
    exact absurd rfl slash
  · rename_i nothing _ _
    cases nothing
  · rename_i given _ _
    cases given
    rfl

/-- The directory of a documented glob has no star if that of the including file has none. -/
theorem Documented.not_mem_searched (h : g.Documented)
    (noStar : '*' ∉ current.directory.text.toList) : '*' ∉ (g.searched current).text.toList := by
  have slash : '*' ≠ '/' := by decide
  have dot : '*' ≠ '.' := by decide
  intro star
  rw [mem_text_iff slash dot, searched, steps_normalize, Walk.exists_mem_components_iff dot,
    Walk.names_folded] at star
  obtain ⟨name, mem, star⟩ := star
  have walked := Walk.mem_names_along mem
  rw [base, steps_join _ h.head?_directory] at walked
  rcases List.mem_append.mp walked with outer | inner
  · exact noStar ((mem_text_iff slash dot).mpr ⟨_, outer, star⟩)
  · cases written : g.directory with
    | none =>
      rw [written] at inner
      cases inner
    | some d =>
      rw [written] at inner
      have : '*' ∈ (⟨d⟩ : Path).text.toList := (mem_text_iff slash dot).mpr ⟨_, inner, star⟩
      exact (h.directory d written).2.2 this

/-! ### What a pattern is resolved to -/

theorem star_mem_target (h : g.Documented) (current : Path) :
    '*' ∈ (current.directory.join g.text).normalize.text.toList := by
  obtain ⟨rest, ending⟩ := g.exists_ending_eq
  rw [h.text_target]
  split
  · rw [ending]
    exact List.mem_cons_self
  split
  all_goals
    rw [String.toList_append, ending]
    exact List.mem_append_right _ List.mem_cons_self

theorem ofPath?_ending (g : WrittenGlob) : Glob.ofPath? ⟨"/".intercalate g.ending⟩ = none := by
  obtain ⟨rest, ending⟩ := g.exists_ending_eq
  have before : ('*' :: rest).takeWhile (· ≠ '*') = [] := by simp
  rw [Glob.ofPath?, ending]
  simp only [before, List.getLast?_nil, reduceCtorEq, if_false]

theorem ofPath?_directory (h : g.Documented) (directory : Path)
    (noStar : '*' ∉ directory.text.toList) :
    Glob.ofPath? ⟨directory.text ++ "/" ++ "/".intercalate g.ending⟩ =
      some ⟨directory, g.deep, g.suffix⟩ := by
  have plain : Glob.Plain ⟨directory, g.deep, g.suffix⟩ := ⟨noStar, h.suffix⟩
  have read := Glob.ofPath?_pattern plain
  rwa [Glob.pattern, ← intercalate_ending] at read

theorem Documented.resolve_eq_expand (h : g.Documented) (tree : FileTree) (extension : String)
    {text : String} (target : (current.directory.join g.text).normalize.text = text) :
    tree.resolve extension g.text (some current) = tree.expand extension ⟨text⟩ := by
  have star : text.contains '*' = true := by
    rw [String.contains_char_eq, decide_eq_true_eq, ← target]
    exact star_mem_target h current
  rw [FileTree.resolve, h.includeTarget_text, eq_of_text target]
  exact if_pos star

theorem Documented.resolve_text (h : g.Documented) (tree : FileTree) (extension : String)
    (noStar : '*' ∉ current.directory.text.toList) :
    tree.resolve extension g.text (some current) =
      if g.searched current = ⟨""⟩ then .error (.unsupportedGlob ("/".intercalate g.ending))
      else if g.searched current = ⟨"/"⟩ then .error (.notADirectory ⟨""⟩)
      else tree.filesOf extension ⟨g.searched current, g.deep, g.suffix⟩ := by
  have target := h.text_target current
  by_cases nothing : g.searched current = ⟨""⟩
  · rw [if_pos nothing] at target ⊢
    rw [h.resolve_eq_expand tree extension target, FileTree.expand, ofPath?_ending]
  by_cases root : g.searched current = ⟨"/"⟩
  · rw [if_neg nothing, if_pos root] at target ⊢
    have read := ofPath?_directory h ⟨""⟩ List.not_mem_nil
    simp only [String.empty_append] at read
    rw [h.resolve_eq_expand tree extension target, FileTree.expand, read]
    simp only [FileTree.filesOf, FileTree.select?, FileTree.isDirectory_empty, Bool.false_eq_true,
      if_false]
  · rw [if_neg nothing, if_neg root] at target ⊢
    rw [h.resolve_eq_expand tree extension target, FileTree.expand,
      ofPath?_directory h _ (h.not_mem_searched noStar)]

/-! ### The folded directory -/

theorem components_searched (once : (g.walk current).climbs ≤ 1) :
    (g.searched current).components = (g.base current).anchor ++ (g.walk current).components := by
  rw [searched, components_normalize, ← walk, Walk.folded_eq_self_iff.mpr once]

theorem searched_eq (once : (g.walk current).climbs ≤ 1) :
    g.searched current = ofComponents ((g.base current).anchor ++ (g.walk current).components) := by
  rw [searched, normalize_eq, ← walk, Walk.folded_eq_self_iff.mpr once]

end WrittenGlob

namespace FileTree

/-! ### Relative and absolute names of the including file -/

/-- A file is named from the working directory on, and from the root on. -/
structure TwoNames (tree : FileTree) (near far : Path) : Prop where
  file : near.steps ≠ []
  relative : near.isAbsolute = false
  absolute : far.isAbsolute = true
  steps : far.steps = tree.workingDirectory.map .name ++ near.steps

/-- The working directory is there, without any link on the way to it. -/
def Rooted (tree : FileTree) : Prop :=
  ∃ children, (FileEntry.directory tree.children).at? tree.workingDirectory =
    some (.directory children)

variable {tree : FileTree} {g : WrittenGlob} {near far : Path}

theorem exists_workingPlace (sound : tree.Sound) (rooted : tree.Rooted) :
    ∃ here, tree.Place tree.workingDirectory.reverse here := by
  obtain ⟨children, leads⟩ := rooted
  obtain ⟨here, place⟩ := exists_place .root (FileEntry.Sound.at? sound leads).2 leads
  exact ⟨here, by rwa [List.append_nil] at place⟩

namespace TwoNames

theorem file_far (names : tree.TwoNames near far) : far.steps ≠ [] := by
  rw [names.steps]
  exact List.append_ne_nil_of_right_ne_nil _ names.file

theorem steps_base (names : tree.TwoNames near far) (h : g.Documented) :
    (g.base far).steps = tree.workingDirectory.map .name ++ (g.base near).steps := by
  rw [WrittenGlob.base, WrittenGlob.base, steps_join _ h.head?_directory,
    steps_join _ h.head?_directory, steps_directory names.file_far, steps_directory names.file,
    names.steps, List.dropLast_append_of_ne_nil names.file, List.append_assoc]

theorem anchor_base_near (names : tree.TwoNames near far) (h : g.Documented) :
    (g.base near).anchor = [] := by
  rw [anchor, WrittenGlob.base, isAbsolute_join _ h.head?_directory,
    isAbsolute_directory names.file, names.relative, if_neg Bool.false_ne_true]

theorem anchor_base_far (names : tree.TwoNames near far) (h : g.Documented) :
    (g.base far).anchor = [.root] := by
  rw [anchor, WrittenGlob.base, isAbsolute_join _ h.head?_directory,
    isAbsolute_directory names.file_far, names.absolute, if_pos rfl]

theorem walk_far (names : tree.TwoNames near far) (h : g.Documented) :
    g.walk far = (g.walk near).below tree.workingDirectory.reverse :=
  Walk.along_of_steps (names.steps_base h)

/-- The directory of a glob is one place, whichever name the including file goes by. -/
theorem locate_searched (names : tree.TwoNames near far) (h : g.Documented) (sound : tree.Sound)
    (rooted : tree.Rooted) (once : (g.walk near).climbs ≤ 1) (given : g.searched near ≠ ⟨""⟩)
    (given' : g.searched far ≠ ⟨"/"⟩)
    (short : (g.searched near).text.utf8ByteSize ≤ maxPathBytes)
    (short' : (g.searched far).text.utf8ByteSize ≤ maxPathBytes) :
    tree.locate (g.searched near) = tree.locate (g.searched far) := by
  obtain ⟨here, place⟩ := exists_workingPlace sound rooted
  have once' : (g.walk far).climbs ≤ 1 := by
    rw [names.walk_far h]
    exact (Nat.sub_le _ _).trans once
  rw [locate_eq_trace short, locate_eq_trace short']
  rw [WrittenGlob.searched_eq once, names.anchor_base_near h, List.nil_append] at given ⊢
  rw [WrittenGlob.searched_eq once', names.anchor_base_far h, names.walk_far h] at given' ⊢
  refine trace_below place (List.reverse_reverse _).symm (Walk.proper_along _) ?_ ?_
  · rintro nothing
    rw [nothing] at given
    exact given rfl
  · rintro nothing
    rw [nothing] at given'
    exact given' rfl

end TwoNames

theorem select?_congr {extension suffix : String} {deep : Bool} {p q : Path}
    (same : tree.locate p = tree.locate q) :
    tree.select? extension ⟨p, deep, suffix⟩ = tree.select? extension ⟨q, deep, suffix⟩ := by
  rw [select?, select?, isDirectory, isDirectory, filesIn, filesIn, same]

theorem filesOf_ne_unsupportedGlob (tree : FileTree) (extension : String) (glob : Glob)
    (pattern : String) : tree.filesOf extension glob ≠ .error (.unsupportedGlob pattern) := by
  rw [filesOf]
  split <;> simp

variable {current : Path} {extension : String}

/-- A documented glob is resolved to the files that it selects in its directory, unless nothing or
only the root is left of that directory when it is folded: then it is refused, or said to have no
directory. The directory is where the walk from the including file leads, and the same place whether
the including file is named from the working directory or from the root, as long as the walk does
not go above its start twice. -/
theorem resolve_documented_glob (documented : g.Documented)
    (noStar : '*' ∉ current.directory.text.toList) :
    ((∃ pattern, tree.resolve extension g.text (some current) = .error (.unsupportedGlob pattern)) ↔
      g.searched current = ⟨""⟩) ∧
    (g.searched current = ⟨"/"⟩ →
      tree.resolve extension g.text (some current) = .error (.notADirectory ⟨""⟩)) ∧
    (g.KeepsDirectory current → tree.resolve extension g.text (some current) =
      tree.filesOf extension ⟨g.searched current, g.deep, g.suffix⟩) ∧
    ((g.walk current).climbs ≤ 1 → (g.searched current).components =
      (g.base current).anchor ++ (g.walk current).components) ∧
    ∀ far, tree.Sound → tree.Rooted → tree.TwoNames current far → (g.walk current).climbs ≤ 1 →
      g.KeepsDirectory current → g.KeepsDirectory far →
      (g.searched current).text.utf8ByteSize ≤ maxPathBytes →
      (g.searched far).text.utf8ByteSize ≤ maxPathBytes →
      tree.locate (g.searched current) = tree.locate (g.searched far) ∧
        tree.select? extension ⟨g.searched current, g.deep, g.suffix⟩ =
          tree.select? extension ⟨g.searched far, g.deep, g.suffix⟩ := by
  have resolved := documented.resolve_text tree extension noStar
  refine ⟨⟨?_, fun nothing => ⟨_, by rw [resolved, if_pos nothing]⟩⟩, fun root => ?_,
    fun kept => ?_, WrittenGlob.components_searched, ?_⟩
  · rintro ⟨pattern, refused⟩
    rw [resolved] at refused
    split at refused
    · assumption
    split at refused
    · cases refused
    · exact absurd refused (filesOf_ne_unsupportedGlob _ _ _ _)
  · rw [resolved, if_neg (by rw [root]; decide), if_pos root]
  · rw [resolved, if_neg kept.1, if_neg kept.2]
  · intro far sound rooted names once kept kept' short short'
    have same := names.locate_searched documented sound rooted once kept.1 kept'.2 short short'
    exact ⟨same, select?_congr same⟩

def sampleGlob : WrittenGlob where
  directory := some "../parts.fusion"
  deep := true
  suffix := ""

/-- The same directory is searched by either name of the including file. -/
theorem resolve_documented_glob_of_sample :
    sampleGlob.text = "../parts.fusion/**/*" ∧ sampleGlob.Documented ∧ sample.Rooted ∧
      sample.TwoNames ⟨"pages/Home.fusion"⟩ ⟨"/site/pages/Home.fusion"⟩ ∧
      sample.resolve ".fusion" sampleGlob.text (some ⟨"pages/Home.fusion"⟩) =
        sample.filesOf ".fusion" ⟨⟨"parts.fusion"⟩, true, ""⟩ ∧
      sample.select? ".fusion" ⟨⟨"parts.fusion"⟩, true, ""⟩ =
        sample.select? ".fusion" ⟨⟨"/site/parts.fusion"⟩, true, ""⟩ := by
  have documented : sampleGlob.Documented :=
    ⟨by decide, Glob.isSuffix_iff.mp (by decide), by decide⟩
  have rooted : sample.Rooted := ⟨_, rfl⟩
  have names : sample.TwoNames ⟨"pages/Home.fusion"⟩ ⟨"/site/pages/Home.fusion"⟩ :=
    ⟨by decide, by decide, by decide, by decide⟩
  have noStar : '*' ∉ (⟨"pages/Home.fusion"⟩ : Path).directory.text.toList := by decide
  have relative : "../parts.fusion".toList.head? ≠ some '/' := by decide
  have near : sampleGlob.base ⟨"pages/Home.fusion"⟩ = ⟨"pages/../parts.fusion"⟩ :=
    eq_of_text (String.toList_inj.mp ((join_text _ relative).trans (by decide)))
  have far : sampleGlob.base ⟨"/site/pages/Home.fusion"⟩ = ⟨"/site/pages/../parts.fusion"⟩ :=
    eq_of_text (String.toList_inj.mp ((join_text _ relative).trans (by decide)))
  have searched : sampleGlob.searched ⟨"pages/Home.fusion"⟩ = ⟨"parts.fusion"⟩ := by
    rw [WrittenGlob.searched, near]
    decide
  have searched' : sampleGlob.searched ⟨"/site/pages/Home.fusion"⟩ = ⟨"/site/parts.fusion"⟩ := by
    rw [WrittenGlob.searched, far]
    decide
  have once : (sampleGlob.walk ⟨"pages/Home.fusion"⟩).climbs ≤ 1 := by
    rw [WrittenGlob.walk, near]
    decide
  have kept : sampleGlob.KeepsDirectory ⟨"pages/Home.fusion"⟩ := by
    rw [WrittenGlob.KeepsDirectory, searched]
    decide
  have kept' : sampleGlob.KeepsDirectory ⟨"/site/pages/Home.fusion"⟩ := by
    rw [WrittenGlob.KeepsDirectory, searched']
    decide
  refine ⟨by decide, documented, rooted, names, ?_, ?_⟩
  · rw [← searched]
    exact (resolve_documented_glob documented noStar).2.2.1 kept
  · rw [← searched, ← searched']
    refine ((resolve_documented_glob documented noStar).2.2.2.2 _ sample_sound rooted names once
      kept kept' ?_ ?_).2
    · rw [searched]
      decide
    · rw [searched']
      decide

/-- A glob of a documented form is refused where nothing is left of its directory, and not if the
same including file is named from the root. -/
theorem documented_glob_refused :
    WrittenGlob.Documented ⟨some ".", false, ".txt"⟩ ∧
      WrittenGlob.text ⟨some ".", false, ".txt"⟩ = "./*.txt" ∧
      sample.TwoNames ⟨"Root.fusion"⟩ ⟨"/site/Root.fusion"⟩ ∧
      sample.resolve ".fusion" "./*.txt" (some ⟨"Root.fusion"⟩) =
        .error (.unsupportedGlob "*.txt") ∧
      sample.resolve ".fusion" "./*.txt" (some ⟨"/site/Root.fusion"⟩) =
        sample.filesOf ".fusion" ⟨⟨"/site"⟩, false, ".txt"⟩ := by
  have documented : WrittenGlob.Documented ⟨some ".", false, ".txt"⟩ :=
    ⟨by decide, Glob.isSuffix_iff.mp (by decide), by decide⟩
  have text : WrittenGlob.text ⟨some ".", false, ".txt"⟩ = "./*.txt" := by decide
  have ending : "/".intercalate (WrittenGlob.ending ⟨some ".", false, ".txt"⟩) = "*.txt" := by
    decide
  have relative : ".".toList.head? ≠ some '/' := by decide
  have near : WrittenGlob.searched ⟨some ".", false, ".txt"⟩ ⟨"Root.fusion"⟩ = ⟨""⟩ := by
    have base : WrittenGlob.base ⟨some ".", false, ".txt"⟩ ⟨"Root.fusion"⟩ = ⟨"."⟩ :=
      eq_of_text (String.toList_inj.mp ((join_text _ relative).trans (by decide)))
    rw [WrittenGlob.searched, base]
    decide
  have far : WrittenGlob.searched ⟨some ".", false, ".txt"⟩ ⟨"/site/Root.fusion"⟩ = ⟨"/site"⟩ := by
    have base : WrittenGlob.base ⟨some ".", false, ".txt"⟩ ⟨"/site/Root.fusion"⟩ = ⟨"/site/."⟩ :=
      eq_of_text (String.toList_inj.mp ((join_text _ relative).trans (by decide)))
    rw [WrittenGlob.searched, base]
    decide
  have noStar : '*' ∉ (⟨"Root.fusion"⟩ : Path).directory.text.toList := by decide
  have noStar' : '*' ∉ (⟨"/site/Root.fusion"⟩ : Path).directory.text.toList := by decide
  have refused := documented.resolve_text sample ".fusion" noStar
  have accepted := documented.resolve_text sample ".fusion" noStar'
  rw [text, if_pos near, ending] at refused
  rw [text, far, if_neg (by decide), if_neg (by decide)] at accepted
  exact ⟨documented, text, ⟨by decide, by decide, by decide, by decide⟩, refused, accepted⟩

end FileTree

end FusionTree
