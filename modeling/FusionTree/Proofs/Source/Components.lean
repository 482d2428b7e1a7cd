import FusionTree.Proofs.Text.Splitting
import FusionTree.Source.Path
import Mathlib.Tactic.SplitIfs

/-!
# The steps of a path

What a path goes on with behind the root: the components that stand between its slashes, `.` left
out wherever it is. Steps add up when paths are joined, and components that are written as a path
are read again as its steps. -/

namespace FusionTree

theorem Text.endsWith_iff {s t : String} : s.endsWith t = true ↔ t.toList <:+ s.toList := by
  rw [String.endsWith, String.Slice.endsWith_string_iff, String.copy_toSlice]

namespace Path

theorem segments_eq_splitOn (text : List Char) : segments text = text.splitOn '/' :=
  Text.eq_splitOn rfl (fun _ _ => rfl) text

/-- The components between the slashes of a text, without any `.`. -/
def stepsOf (text : List Char) : List Component :=
  (text.splitOn '/').filterMap component?

def steps (p : Path) : List Component :=
  stepsOf p.text.toList

def anchor (p : Path) : List Component :=
  if p.isAbsolute then [.root] else []

/-- The component is a step: it is read again from its own text. -/
def Component.IsStep (c : Component) : Prop :=
  component? c.text.toList = some c ∧ '/' ∉ c.text.toList

variable {p : Path} {c : Component} {cs : List Component} {piece a b : List Char}

theorem component?_eq_some_iff : component? piece = some c ↔
    (piece = ['.', '.'] ∧ c = .parent) ∨
      (piece ≠ [] ∧ piece ≠ ['.'] ∧ piece ≠ ['.', '.'] ∧ c = .name (String.ofList piece)) := by
  rw [component?]
  split_ifs with nothing parent
  · rcases nothing with rfl | rfl <;> simp
  · simp [parent, @eq_comm _ c]
  · simp only [not_or] at nothing
    simp [parent, nothing, @eq_comm _ c]

theorem component?_eq_none_iff : component? piece = none ↔ piece = [] ∨ piece = ['.'] := by
  rw [component?]
  split_ifs with nothing <;> simp [nothing]

theorem text_of_component? (h : component? piece = some c) : c.text.toList = piece := by
  rcases component?_eq_some_iff.mp h with ⟨rfl, rfl⟩ | ⟨_, _, _, rfl⟩
  · rfl
  · exact String.toList_ofList

theorem isStep_of_mem_stepsOf (h : c ∈ stepsOf a) : c.IsStep := by
  obtain ⟨piece, mem, read⟩ := List.mem_filterMap.mp h
  rw [Component.IsStep, text_of_component? read]
  exact ⟨read, Text.not_mem_of_mem_splitOn mem⟩

theorem isStep_of_mem_steps (h : c ∈ p.steps) : c.IsStep :=
  isStep_of_mem_stepsOf h

namespace Component.IsStep

theorem parent : Component.parent.IsStep := ⟨rfl, by decide⟩

theorem eq_parent_or_name (h : c.IsStep) : c = .parent ∨ ∃ name, c = .name name := by
  rcases component?_eq_some_iff.mp h.1 with ⟨_, eq⟩ | ⟨_, _, _, eq⟩
  · exact .inl eq
  · exact .inr ⟨_, eq⟩

theorem text_ne_nil (h : c.IsStep) : c.text.toList ≠ [] := by
  intro nothing
  have := h.1
  rw [nothing] at this
  cases this

theorem ne_root (h : c.IsStep) : c ≠ .root := by
  rcases h.eq_parent_or_name with rfl | ⟨_, rfl⟩ <;> simp

theorem head?_ne (h : c.IsStep) : c.text.toList.head? ≠ some '/' :=
  fun slash => h.2 (List.mem_of_mem_head? slash)

end Component.IsStep

theorem isStep_name {name : String} : (Component.name name).IsStep ↔
    name ≠ "" ∧ name ≠ "." ∧ name ≠ ".." ∧ '/' ∉ name.toList := by
  have same : component? name.toList = some (.name name) ↔
      name ≠ "" ∧ name ≠ "." ∧ name ≠ ".." := by
    simp only [component?_eq_some_iff, ne_eq, ← String.toList_inj]
    simp
  rw [Component.IsStep, Component.text, same, and_assoc, and_assoc]

theorem eq_of_text {text : String} (h : p.text = text) : p = ⟨text⟩ := by
  cases p
  cases h
  rfl

/-! ### Components and steps -/

theorem components_eq (p : Path) : p.components =
    (if p.isAbsolute then [.root]
      else if (p.text.toList.splitOn '/').head? = some ['.'] then [.current] else []) ++
        p.steps := by
  rw [components, segments_eq_splitOn]
  rfl

theorem stepsOf_append_slash (a b : List Char) :
    stepsOf (a ++ '/' :: b) = stepsOf a ++ stepsOf b := by
  rw [stepsOf, List.splitOn_append_cons_self, List.filterMap_append]
  rfl

@[simp] theorem stepsOf_nil : stepsOf [] = [] := rfl

/-- What is neither slash nor dot is found in a path where it is found in a step. -/
theorem mem_text_iff {x : Char} (slash : x ≠ '/') (dot : x ≠ '.') :
    x ∈ p.text.toList ↔ ∃ c ∈ p.steps, x ∈ c.text.toList := by
  have joined : ['/'].intercalate (p.text.toList.splitOn '/') = p.text.toList :=
    List.intercalate_splitOn '/'
  rw [← joined, Text.mem_intercalate slash]
  constructor
  · rintro ⟨piece, mem, found⟩
    cases read : component? piece with
    | none =>
      rcases component?_eq_none_iff.mp read with rfl | rfl
      · cases found
      · exact absurd (List.mem_singleton.mp found) dot
    | some c =>
      exact ⟨c, List.mem_filterMap.mpr ⟨piece, mem, read⟩, text_of_component? read ▸ found⟩
  · rintro ⟨c, mem, found⟩
    obtain ⟨piece, split, read⟩ := List.mem_filterMap.mp mem
    exact ⟨piece, split, text_of_component? read ▸ found⟩

/-! ### Joined paths -/

theorem join_text (p : Path) {child : String} (relative : child.toList.head? ≠ some '/') :
    (p.join child).text.toList =
      if p.text.toList = [] then child.toList
      else if p.text.toList.getLast? = some '/' then p.text.toList ++ child.toList
      else p.text.toList ++ '/' :: child.toList := by
  have starts : child.startsWith "/" = false := by
    rw [String.startsWith_string_eq_false_iff]
    rintro ⟨rest, eq⟩
    rw [← eq] at relative
    simp at relative
  have empty : p.text.isEmpty = true ↔ p.text.toList = [] := by
    rw [String.isEmpty_iff, String.toList_eq_nil_iff]
  have ends : p.text.endsWith "/" = true ↔ p.text.toList.getLast? = some '/' := by
    rw [Text.endsWith_iff]
    constructor
    · rintro ⟨front, eq⟩
      rw [← eq]
      simp
    · intro last
      obtain ⟨front, eq⟩ := List.getLast?_eq_some_iff.mp last
      exact ⟨front, eq.symm⟩
  rw [join, starts, Bool.false_or]
  simp only [empty, ends]
  split_ifs <;> simp

theorem steps_join (p : Path) {child : String} (relative : child.toList.head? ≠ some '/') :
    (p.join child).steps = p.steps ++ stepsOf child.toList := by
  rw [steps, steps, join_text p relative]
  split_ifs with empty ends
  · rw [empty, stepsOf_nil, List.nil_append]
  · obtain ⟨front, eq⟩ := List.getLast?_eq_some_iff.mp ends
    rw [eq, List.append_assoc, List.singleton_append, stepsOf_append_slash, stepsOf_append_slash,
      stepsOf_nil, List.append_nil]
  · rw [stepsOf_append_slash]

theorem isAbsolute_join (p : Path) {child : String} (relative : child.toList.head? ≠ some '/') :
    (p.join child).isAbsolute = p.isAbsolute := by
  rw [isAbsolute, isAbsolute, join_text p relative]
  split_ifs with empty
  · rw [empty, List.head?_nil]
    simpa using relative
  all_goals
    obtain ⟨c, rest, eq⟩ := List.exists_cons_of_ne_nil empty
    rw [eq, List.cons_append, List.head?_cons, List.head?_cons]

theorem head?_splitOn_append (front back : List Char) :
    ((front ++ '/' :: back).splitOn '/').head? = (front.splitOn '/').head? := by
  obtain ⟨first, more, split⟩ := List.exists_cons_of_ne_nil (List.splitOn_ne_nil '/' front)
  rw [List.splitOn_append_cons_self, split, List.cons_append, List.head?_cons, List.head?_cons]

theorem components_join (h : p.text ≠ "") {child : String}
    (relative : child.toList.head? ≠ some '/') :
    (p.join child).components = p.components ++ stepsOf child.toList := by
  have same : ((p.join child).text.toList.splitOn '/').head? =
      (p.text.toList.splitOn '/').head? := by
    rw [join_text p relative, if_neg (mt String.toList_eq_nil_iff.mp h)]
    split
    · rename_i last
      obtain ⟨front, eq⟩ := List.getLast?_eq_some_iff.mp last
      rw [eq, List.append_assoc, List.singleton_append, head?_splitOn_append, head?_splitOn_append]
    · rw [head?_splitOn_append]
  rw [components_eq, components_eq, isAbsolute_join p relative, same, steps_join p relative,
    List.append_assoc]

/-! ### Written components -/

theorem ofComponents_eq (cs : List Component) (h : cs ≠ [.root]) :
    ofComponents cs = ⟨"/".intercalate (cs.map Component.text)⟩ := by
  match cs, h with
  | [], _ => rfl
  | [.current], _ | [.parent], _ | [.name _], _ => rfl
  | c :: d :: more, _ => cases c <;> rfl

theorem splitOn_intercalate_text (h : ∀ c ∈ cs, '/' ∉ c.text.toList) (ne : cs ≠ []) :
    ("/".intercalate (cs.map Component.text)).toList.splitOn '/' =
      cs.map fun c => c.text.toList := by
  have slash : "/".toList = ['/'] := rfl
  rw [String.toList_intercalate, List.map_map, slash, List.splitOn_intercalate]
  · rfl
  · simpa using h
  · simpa using ne

theorem filterMap_component?_texts (h : ∀ c ∈ cs, c.IsStep) :
    (cs.map fun c => c.text.toList).filterMap component? = cs := by
  induction cs with
  | nil => rfl
  | cons c cs ih =>
    rw [List.map_cons, List.filterMap_cons, (h c List.mem_cons_self).1]
    exact congrArg (c :: ·) (ih fun c mem => h c (List.mem_cons_of_mem _ mem))

theorem steps_ofComponents (h : ∀ c ∈ cs, c.IsStep) : (ofComponents cs).steps = cs := by
  have notRoot : cs ≠ [.root] := by
    rintro rfl
    exact (h .root List.mem_cons_self).ne_root rfl
  rw [ofComponents_eq cs notRoot, steps, stepsOf]
  by_cases nothing : cs = []
  · subst nothing
    rfl
  · rw [splitOn_intercalate_text (fun c mem => (h c mem).2) nothing, filterMap_component?_texts h]

theorem text_ofComponents_cons (c : Component) {cs : List Component} (ne : cs ≠ [])
    (h : ∀ d ∈ cs, d.IsStep) :
    (ofComponents (c :: cs)).text = c.text ++ "/" ++ (ofComponents cs).text := by
  obtain ⟨d, more, rfl⟩ := List.exists_cons_of_ne_nil ne
  have notRoot : d :: more ≠ [.root] := by
    rintro ⟨⟩
    exact Component.IsStep.ne_root (h _ List.mem_cons_self) rfl
  rw [ofComponents_eq (c :: d :: more) (by simp), ofComponents_eq _ notRoot, List.map_cons,
    List.map_cons, String.intercalate_cons_cons]

theorem isAbsolute_ofComponents (h : ∀ c ∈ cs, c.IsStep) :
    (ofComponents cs).isAbsolute = false := by
  match cs with
  | [] => rfl
  | [c] =>
    have step := h c List.mem_cons_self
    rw [ofComponents_eq _ (by simpa using step.ne_root), isAbsolute]
    simpa using step.head?_ne
  | c :: d :: more =>
    have step := h c List.mem_cons_self
    rw [isAbsolute, text_ofComponents_cons c (List.cons_ne_nil _ _)
      fun e mem => h e (List.mem_cons_of_mem _ mem)]
    obtain ⟨x, rest, eq⟩ := List.exists_cons_of_ne_nil step.text_ne_nil
    have := step.head?_ne
    simp_all

/-- Names written one below the other are read again as steps. -/
theorem ofComponents_names (names : List String) :
    ofComponents (names.map .name) = ⟨"/".intercalate names⟩ := by
  have notRoot : names.map Component.name ≠ [Component.root] := by
    cases names <;> simp
  rw [ofComponents_eq _ notRoot, List.map_map]
  exact congrArg (fun texts => Path.mk ("/".intercalate texts)) (List.map_id names)

theorem stepsOf_names {names : List String} (h : ∀ name ∈ names, (Component.name name).IsStep) :
    stepsOf ("/".intercalate names).toList = names.map .name := by
  have steps := steps_ofComponents (List.forall_mem_map.mpr h)
  rwa [ofComponents_names] at steps

theorem head?_names {names : List String} (h : ∀ name ∈ names, (Component.name name).IsStep) :
    ("/".intercalate names).toList.head? ≠ some '/' := by
  have relative := isAbsolute_ofComponents (List.forall_mem_map.mpr h)
  rw [ofComponents_names] at relative
  exact beq_eq_false_iff_ne.mp relative

theorem components_ofComponents (h : ∀ c ∈ cs, c.IsStep) : (ofComponents cs).components = cs := by
  have noDot : ((ofComponents cs).text.toList.splitOn '/').head? ≠ some ['.'] := by
    cases cs with
    | nil => decide
    | cons c more =>
      have step := h c List.mem_cons_self
      rw [ofComponents_eq _ (by rintro ⟨⟩; exact step.ne_root rfl),
        splitOn_intercalate_text (fun d mem => (h d mem).2) (List.cons_ne_nil _ _)]
      intro dot
      have text : c.text.toList = ['.'] := Option.some_inj.mp dot
      have read := step.1
      rw [text] at read
      cases read
  rw [components_eq, isAbsolute_ofComponents h, if_neg Bool.false_ne_true, if_neg noDot,
    steps_ofComponents h, List.nil_append]

theorem text_ofComponents_root (h : ∀ c ∈ cs, c.IsStep) :
    (ofComponents (.root :: cs)).text.toList = '/' :: (ofComponents cs).text.toList := by
  by_cases nothing : cs = []
  · subst nothing
    rfl
  · rw [text_ofComponents_cons _ nothing h]
    simp [Component.text]

theorem isAbsolute_ofComponents_root (h : ∀ c ∈ cs, c.IsStep) :
    (ofComponents (.root :: cs)).isAbsolute = true := by
  rw [isAbsolute, text_ofComponents_root h]
  rfl

theorem steps_ofComponents_root (h : ∀ c ∈ cs, c.IsStep) :
    (ofComponents (.root :: cs)).steps = cs := by
  rw [steps, text_ofComponents_root h]
  exact (stepsOf_append_slash [] _).trans (steps_ofComponents h)

theorem components_ofComponents_root (h : ∀ c ∈ cs, c.IsStep) :
    (ofComponents (.root :: cs)).components = .root :: cs := by
  rw [components_eq, isAbsolute_ofComponents_root h, if_pos rfl, steps_ofComponents_root h,
    List.singleton_append]

end Path

end FusionTree
