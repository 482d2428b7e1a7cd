import FusionTree.Include.Resolver
import FusionTree.Proofs.FileTree.Lookup
import FusionTree.Proofs.Text.ByteOrder

/-!
# What globs select

The pattern of a glob is read as that glob. It selects what is no directory, directly in the
directory or at any depth, by the ends of the names; the files come in the order of the bytes of
their components. -/

namespace FusionTree

namespace Glob

/-- The part of a pattern that is neither directory nor suffix. -/
def stars (deep : Bool) : String :=
  if deep then "**/*" else "*"

def pattern (glob : Glob) : Path :=
  ⟨glob.directory.text ++ "/" ++ (stars glob.deep ++ glob.suffix)⟩

/-- The glob can be written: there are no further stars, and no slash in the suffix. -/
structure Plain (glob : Glob) : Prop where
  directory : '*' ∉ glob.directory.text.toList
  suffix : ∀ c ∈ glob.suffix.toList, c ≠ '*' ∧ c ≠ '/'

theorem isSuffix_iff {text : List Char} :
    isSuffix text = true ↔ ∀ c ∈ text, c ≠ '*' ∧ c ≠ '/' := by
  simp [isSuffix]

theorem selection?_stars (deep : Bool) {suffix : String}
    (plain : ∀ c ∈ suffix.toList, c ≠ '*' ∧ c ≠ '/') :
    selection? (stars deep ++ suffix).toList = some (deep, suffix.toList) := by
  have ending := isSuffix_iff.mpr plain
  cases deep with
  | false =>
    have text : (stars false ++ suffix).toList = '*' :: suffix.toList := String.toList_append
    rw [text, selection?.eq_def]
    exact if_pos ending
  | true =>
    have text : (stars true ++ suffix).toList = '*' :: '*' :: '/' :: '*' :: suffix.toList :=
      String.toList_append
    have star : ¬isSuffix ('*' :: '/' :: '*' :: suffix.toList) = true := by simp [isSuffix]
    rw [text, selection?.eq_def]
    exact (if_neg star).trans (if_pos ending)

theorem stars_append (deep : Bool) (suffix : String) :
    ∃ rest, (stars deep ++ suffix).toList = '*' :: rest := by
  cases deep with
  | false => exact ⟨_, String.toList_append⟩
  | true => exact ⟨_, String.toList_append⟩

/-- The pattern of a glob is read as the glob. -/
theorem ofPath?_pattern {glob : Glob} (plain : glob.Plain) :
    ofPath? glob.pattern = some glob := by
  obtain ⟨⟨directory⟩, deep, suffix⟩ := glob
  obtain ⟨rest, stars⟩ := stars_append deep suffix
  have text : (pattern ⟨⟨directory⟩, deep, suffix⟩).text.toList =
      (directory.toList ++ ['/']) ++ '*' :: rest := by
    rw [pattern, String.toList_append, String.toList_append, stars]
    rfl
  have noStar : ∀ c ∈ directory.toList ++ ['/'], decide (c ≠ '*') = true := by
    intro c mem
    refine decide_eq_true fun star => ?_
    rcases List.mem_append.mp mem with mem | mem
    · exact plain.directory (star ▸ mem)
    · rw [star] at mem
      cases List.mem_singleton.mp mem
  have before : ((directory.toList ++ ['/']) ++ '*' :: rest).takeWhile (· ≠ '*') =
      directory.toList ++ ['/'] := by
    rw [List.takeWhile_append_of_pos noStar]
    simp
  have behind : ((directory.toList ++ ['/']) ++ '*' :: rest).dropWhile (· ≠ '*') = '*' :: rest := by
    rw [List.dropWhile_append_of_pos noStar]
    simp
  have selected : selection? ('*' :: rest) = some (deep, suffix.toList) :=
    stars ▸ selection?_stars deep plain.suffix
  have slash : (directory.toList ++ ['/']).getLast? = some '/' := List.getLast?_concat
  rw [ofPath?, text]
  simp only [before, behind, selected, slash, if_true, List.dropLast_concat, Option.map_some,
    String.ofList_toList]

/-- The names lead from a directory to a file that the glob selects there. -/
structure Selects (glob : Glob) (extension : String) (directory : FileEntry)
    (names : List String) : Prop where
  file : ∃ found, directory.at? names = some found ∧ found.isDirectory = false
  depth : names.length = 1 ∨ glob.deep = true
  ending : ∃ name, names.getLast? = some name ∧
    (if glob.suffix = "" then extension else glob.suffix).toList <:+ name.toList

theorem Selects.isName {glob : Glob} {extension : String} {children : List (String × FileEntry)}
    {names : List String} (h : glob.Selects extension (.directory children) names)
    (sound : (FileEntry.directory children).Sound) : ∀ name ∈ names, FileEntry.IsName name := by
  obtain ⟨found, leads, _⟩ := h.file
  exact (sound.at? leads).2

end Glob

def Path.componentBytes (p : Path) : List (List UInt8) :=
  p.components.map fun c => Text.encode c.text.toList

namespace FileTree

variable {tree : FileTree} {extension : String} {glob : Glob} {names : List String}
  {children : List (String × FileEntry)}

def selected (glob : Glob) (extension : String) (directory : FileEntry) : List (List String) :=
  (directory.filesBelow.filter fun names => names.length = 1 || (glob.deep && names ≠ [])).filter
    fun names => (names.getLast?.getD "").endsWith
      (if glob.suffix.isEmpty then extension else glob.suffix)

theorem exists_locate {p : Path} {entry : FileEntry}
    (h : tree.entryAt <$> tree.locate p = .ok entry) :
    ∃ here, tree.locate p = .ok here ∧ tree.entryAt here = entry := by
  cases located : tree.locate p with
  | ok here =>
    rw [located] at h
    exact ⟨here, rfl, Except.ok.inj h⟩
  | error cause =>
    rw [located] at h
    cases h

theorem select?_eq (h : tree.entryAt <$> tree.locate glob.directory = .ok (.directory children)) :
    tree.select? extension glob = some (selected glob extension (.directory children)) := by
  obtain ⟨here, located, entry⟩ := exists_locate h
  have isDirectory : tree.isDirectory glob.directory = true := by
    rw [isDirectory, h]
  rw [select?, isDirectory, if_pos rfl, filesIn, located]
  simp only [entry]
  rfl

theorem mem_selected_iff (sound : (FileEntry.directory children).Sound) :
    names ∈ selected glob extension (.directory children) ↔
      glob.Selects extension (.directory children) names := by
  rw [selected, List.mem_filter, List.mem_filter, FileEntry.mem_filesBelow_iff sound,
    Text.endsWith_iff]
  simp only [String.isEmpty_iff, Bool.or_eq_true, Bool.and_eq_true, decide_eq_true_eq]
  constructor
  · rintro ⟨⟨file, depth⟩, ending⟩
    have ne : names ≠ [] := by
      rcases depth with one | ⟨_, ne⟩
      · rintro rfl
        cases one
      · exact ne
    refine ⟨file, depth.imp_right And.left, names.getLast ne, List.getLast?_eq_some_getLast ne, ?_⟩
    rwa [List.getLast?_eq_some_getLast ne] at ending
  · rintro ⟨file, depth, name, last, ending⟩
    have ne : names ≠ [] := by
      rintro rfl
      cases last
    rw [last]
    exact ⟨⟨file, depth.imp_right fun deep => ⟨deep, ne⟩⟩, ending⟩

theorem pairwise_selected (sound : (FileEntry.directory children).Sound) :
    (selected glob extension (.directory children)).Pairwise (· < ·) :=
  ((FileEntry.pairwise_filesBelow sound).filter _).filter _

theorem componentBytes_join {base : Path} (h : base.text ≠ "")
    (proper : ∀ name ∈ names, FileEntry.IsName name) :
    (base.join ("/".intercalate names)).componentBytes =
      base.componentBytes ++ names.map fun name => Text.encode name.toList := by
  have steps : ∀ name ∈ names, (Path.Component.name name).IsStep :=
    fun name mem => (proper name mem).isStep
  rw [Path.componentBytes, Path.components_join h (Path.head?_names steps),
    Path.stepsOf_names steps, List.map_append, List.map_map]
  rfl

theorem text_ne_empty_of_locate {p : Path} {here : Location} (h : tree.locate p = .ok here) :
    p.text ≠ "" := by
  intro empty
  rw [locate, trace_eq, empty] at h
  cases h

theorem isDirectory_empty (tree : FileTree) : tree.isDirectory ⟨""⟩ = false := by
  rw [isDirectory]
  cases located : tree.locate ⟨""⟩ with
  | ok here => exact absurd rfl (text_ne_empty_of_locate located)
  | error cause => rfl

/-- What a glob expands to are exactly the files that it selects, each once, in the order of the
bytes of their components. -/
theorem expand_lists_files (sound : tree.Sound) (plain : glob.Plain)
    (h : tree.entryAt <$> tree.locate glob.directory = .ok (.directory children)) :
    ∃ files, tree.expand extension glob.pattern = .ok files ∧
      (∀ file, file ∈ files ↔ ∃ names, glob.Selects extension (.directory children) names ∧
        file = glob.directory.join ("/".intercalate names)) ∧
      files.Nodup ∧ files.Pairwise fun f g => f.componentBytes < g.componentBytes := by
  obtain ⟨here, located, entry⟩ := exists_locate h
  have below : (FileEntry.directory children).Sound := entry ▸ sound.entryAt (sound.locate located)
  have given : glob.directory.text ≠ "" := text_ne_empty_of_locate located
  have increasing : ((selected glob extension (.directory children)).map fun names =>
      glob.directory.join ("/".intercalate names)).Pairwise
        fun f g => f.componentBytes < g.componentBytes := by
    refine List.pairwise_map.mpr ((pairwise_selected below).imp_of_mem fun mem mem' less => ?_)
    rw [componentBytes_join given (((mem_selected_iff below).mp mem).isName below),
      componentBytes_join given (((mem_selected_iff below).mp mem').isName below)]
    exact List.append_left_lt (List.map_lt (fun _ _ lt => Text.encode_lt_encode lt) less)
  refine ⟨_, ?_, fun file => ?_, ?_, increasing⟩
  · rw [expand, Glob.ofPath?_pattern plain]
    simp only [filesOf, select?_eq h]
  · simp only [List.mem_map, mem_selected_iff below, eq_comm]
  · refine increasing.imp fun less same => ?_
    rw [same] at less
    exact List.lt_irrefl _ less

/-- A directory that is named like a file, and a link to a file in it. -/
def sample : FileTree where
  children := [("site", .directory [
    ("parts.fusion", .directory [("b.fusion", .file .empty), ("a.txt", .file .empty)]),
    ("Root.fusion", .link "parts.fusion/b.fusion")])]
  workingDirectory := ["site"]

theorem sample_sound : sample.Sound := by
  refine .directory _ (by decide) (by decide) (List.forall_mem_singleton.mpr ?_)
  refine .directory _ (by decide) (by decide) (List.forall_mem_cons.mpr ⟨?_, ?_⟩)
  · refine .directory _ (by decide) (by decide) (List.forall_mem_cons.mpr ⟨.file _, ?_⟩)
    exact List.forall_mem_singleton.mpr (.file _)
  · exact List.forall_mem_singleton.mpr (.link _)

/-- What is in a directory that is named like a file is listed. -/
theorem expand_lists_files_of_sample :
    sample.Sound ∧ Glob.Plain ⟨⟨"."⟩, true, ""⟩ ∧
      (∃ children, sample.entryAt <$> sample.locate ⟨"."⟩ = .ok (.directory children)) ∧
      ∃ files, sample.expand ".fusion" ⟨"./**/*"⟩ = .ok files ∧
        ⟨"./parts.fusion/b.fusion"⟩ ∈ files ∧ files.Nodup ∧
        files.Pairwise fun f g => f.componentBytes < g.componentBytes := by
  have plain : Glob.Plain ⟨⟨"."⟩, true, ""⟩ :=
    ⟨by decide, Glob.isSuffix_iff.mp (by decide)⟩
  have place : sample.Place ["site"] [("site", .directory [
      ("parts.fusion", .directory [("b.fusion", .file .empty), ("a.txt", .file .empty)]),
      ("Root.fusion", .link "parts.fusion/b.fusion")])] :=
    .down .root (by decide) rfl rfl
  have found := congrArg (sample.entryAt <$> ·) (place.locate_current rfl)
  have relative : "parts.fusion/b.fusion".toList.head? ≠ some '/' := by decide
  have joined : (⟨"."⟩ : Path).join "parts.fusion/b.fusion" = ⟨"./parts.fusion/b.fusion"⟩ :=
    Path.eq_of_text (String.toList_inj.mp ((Path.join_text _ relative).trans (by decide)))
  obtain ⟨files, expanded, listed, once, sorted⟩ := expand_lists_files sample_sound plain found
  refine ⟨sample_sound, plain, ⟨_, found⟩, files, expanded, ?_, once, sorted⟩
  refine (listed _).mpr ⟨["parts.fusion", "b.fusion"], ?_, joined.symm⟩
  exact ⟨⟨_, rfl, rfl⟩, .inr rfl, "b.fusion", rfl, by decide⟩

end FileTree

end FusionTree
