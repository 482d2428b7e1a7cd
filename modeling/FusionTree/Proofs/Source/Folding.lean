import FusionTree.Proofs.Source.Components

/-!
# Folding paths

A walk along a path goes down into each name, back up at a `..`, and above its start where there is
nothing to go back from. The folded path leads where the walk comes to, as long as the walk goes
above its start at most once: a step above the start is kept as a component, but the next one
takes it away again.
-/

namespace FusionTree.Path

/-- Where a walk has come to, seen from its start. -/
structure Walk where
  /-- How many levels above the start it has been. -/
  climbs : Nat
  /-- The names that lead down from there, the innermost first. -/
  names : List String
deriving DecidableEq

namespace Walk

/-- What a piece between slashes adds to a walk: a name leads down, `..` takes back the last name or
else leads above the start, and `.` leads nowhere. -/
def step (w : Walk) (piece : List Char) : Walk :=
  if piece = [] ∨ piece = ['.'] then w
  else if piece = ['.', '.'] then
    match w.names with
    | [] => { w with climbs := w.climbs + 1 }
    | _ :: outer => { w with names := outer }
  else { w with names := String.ofList piece :: w.names }

def along (p : Path) : Walk :=
  (p.text.toList.splitOn '/').foldl step ⟨0, []⟩

def components (w : Walk) : List Component :=
  List.replicate w.climbs .parent ++ w.names.reverse.map .name

def path (w : Walk) : Path :=
  ⟨"/".intercalate (List.replicate w.climbs ".." ++ w.names.reverse)⟩

/-- The walk as folding keeps it: every second step above the start takes back the one before. -/
def folded (w : Walk) : Walk :=
  { w with climbs := w.climbs % 2 }

def add (w : Walk) (c : Component) : Walk :=
  w.step c.text.toList

variable {w : Walk} {c : Component} {p : Path}

theorem step_eq (w : Walk) (piece : List Char) :
    w.step piece = (component? piece).elim w w.add := by
  cases read : component? piece with
  | none => rw [step, if_pos (component?_eq_none_iff.mp read), Option.elim_none]
  | some c => rw [Option.elim_some, add, text_of_component? read]

theorem along_eq (p : Path) : along p = p.steps.foldl add ⟨0, []⟩ := by
  rw [along, steps, stepsOf, List.foldl_filterMap]
  congr 1
  funext w piece
  rw [step_eq]
  cases component? piece <;> rfl

theorem add_parent (w : Walk) : w.add .parent =
    match w.names with
    | [] => { w with climbs := w.climbs + 1 }
    | _ :: outer => { w with names := outer } := rfl

theorem add_name {name : String} (h : (Component.name name).IsStep) (w : Walk) :
    w.add (.name name) = { w with names := name :: w.names } := by
  rcases component?_eq_some_iff.mp h.1 with ⟨_, ⟨⟩⟩ | ⟨empty, dot, dots, _⟩
  rw [add, step, if_neg (by simp [empty, dot]), if_neg dots, Component.text, String.ofList_toList]

/-- The components that a walk has been folded to, the innermost first. -/
def stack (w : Walk) (anchor : List Component) : List Component :=
  w.names.map .name ++ (List.replicate (w.climbs % 2) .parent ++ anchor)

theorem fold_stack {anchor : List Component} (root : anchor = [] ∨ anchor = [.root])
    (h : c.IsStep) : fold (w.stack anchor) c = (w.add c).stack anchor := by
  rcases h.eq_parent_or_name with rfl | ⟨name, rfl⟩
  · obtain ⟨climbs, names⟩ := w
    cases names with
    | cons name outer => rfl
    | nil =>
      rcases Nat.mod_two_eq_zero_or_one climbs with even | odd
      · have next : (climbs + 1) % 2 = 1 := by omega
        rcases root with rfl | rfl <;> simp [stack, add_parent, fold, even, next]
      · have next : (climbs + 1) % 2 = 0 := by omega
        simp [stack, add_parent, fold, odd, next]
  · rw [add_name h]
    rfl

theorem foldl_fold {anchor : List Component} (root : anchor = [] ∨ anchor = [.root])
    {cs : List Component} (h : ∀ c ∈ cs, c.IsStep) (w : Walk) :
    cs.foldl fold (w.stack anchor) = (cs.foldl add w).stack anchor := by
  induction cs generalizing w with
  | nil => rfl
  | cons c cs ih =>
    rw [List.foldl_cons, List.foldl_cons, fold_stack root (h c List.mem_cons_self)]
    exact ih (fun d mem => h d (List.mem_cons_of_mem _ mem)) _

theorem reverse_stack (w : Walk) (anchor : List Component) :
    (w.stack anchor).reverse = anchor.reverse ++ w.folded.components := by
  simp [stack, components, folded]

def Proper (w : Walk) : Prop :=
  ∀ name ∈ w.names, (Component.name name).IsStep

theorem mem_names_add {name : String} (h : c.IsStep) (mem : name ∈ (w.add c).names) :
    name ∈ w.names ∨ c = .name name := by
  rcases h.eq_parent_or_name with rfl | ⟨other, rfl⟩
  · obtain ⟨climbs, names⟩ := w
    cases names with
    | nil => exact .inl mem
    | cons inner outer => exact .inl (List.mem_cons_of_mem _ mem)
  · rw [add_name h] at mem
    exact (List.mem_cons.mp mem).symm.imp_right fun same => by rw [same]

/-- A name that is kept has been walked into. -/
theorem mem_names_foldl {name : String} {cs : List Component} (h : ∀ c ∈ cs, c.IsStep)
    (mem : name ∈ (cs.foldl add w).names) : name ∈ w.names ∨ .name name ∈ cs := by
  induction cs generalizing w with
  | nil => exact .inl mem
  | cons c cs ih =>
    rcases ih (fun d mem => h d (List.mem_cons_of_mem _ mem)) mem with kept | later
    · refine (mem_names_add (h c List.mem_cons_self) kept).imp_right fun eq => ?_
      rw [eq]
      exact List.mem_cons_self
    · exact .inr (List.mem_cons_of_mem _ later)

theorem Proper.isStep (hw : w.Proper) : ∀ c ∈ w.components, c.IsStep := by
  intro c mem
  rcases List.mem_append.mp mem with climb | down
  · rw [List.eq_of_mem_replicate climb]
    exact .parent
  · obtain ⟨name, kept, rfl⟩ := List.mem_map.mp down
    exact hw name (List.mem_reverse.mp kept)

theorem map_text_components (w : Walk) : w.components.map Component.text =
    List.replicate w.climbs ".." ++ w.names.reverse := by
  rw [components, List.map_append, List.map_replicate, List.map_map]
  exact congrArg _ (List.map_id _)

theorem exists_mem_components_iff {x : Char} (dot : x ≠ '.') :
    (∃ c ∈ w.components, x ∈ c.text.toList) ↔ ∃ name ∈ w.names, x ∈ name.toList := by
  constructor
  · rintro ⟨c, mem, found⟩
    rcases List.mem_append.mp mem with climb | down
    · rw [List.eq_of_mem_replicate climb] at found
      exact absurd found (by simp [Component.text, dot])
    · obtain ⟨name, kept, rfl⟩ := List.mem_map.mp down
      exact ⟨name, List.mem_reverse.mp kept, found⟩
  · rintro ⟨name, mem, found⟩
    exact ⟨.name name, List.mem_append_right _ (List.mem_map_of_mem (List.mem_reverse.mpr mem)),
      found⟩

theorem path_eq (hw : w.Proper) : w.path = ofComponents w.components := by
  have notRoot : w.components ≠ [.root] := by
    intro root
    exact (hw.isStep .root (by simp [root])).ne_root rfl
  rw [ofComponents_eq _ notRoot, map_text_components, path]

theorem foldl_add_names {front : List String}
    (h : ∀ name ∈ front, (Component.name name).IsStep) (w : Walk) :
    (front.map .name).foldl add w = { w with names := front.reverse ++ w.names } := by
  induction front generalizing w with
  | nil => rfl
  | cons name front ih =>
    rw [List.map_cons, List.foldl_cons, add_name (h name List.mem_cons_self),
      ih (fun other mem => h other (List.mem_cons_of_mem _ mem)), List.reverse_cons,
      List.append_assoc, List.singleton_append]

/-- A walk along the components that a walk has led to comes to the same place. -/
theorem foldl_add_components (hw : w.Proper) : w.components.foldl add ⟨0, []⟩ = w := by
  have up (n : Nat) : (List.replicate n Component.parent).foldl add ⟨0, []⟩ = ⟨n, []⟩ := by
    induction n with
    | zero => rfl
    | succ n ih => rw [List.replicate_succ', List.foldl_append, ih, List.foldl_cons, List.foldl_nil,
        add_parent]
  have proper : ∀ name ∈ w.names.reverse, (Component.name name).IsStep :=
    fun name mem => hw name (List.mem_reverse.mp mem)
  rw [components, List.foldl_append, up, foldl_add_names proper, List.reverse_reverse,
    List.append_nil]

@[simp] theorem names_folded (w : Walk) : w.folded.names = w.names := rfl

theorem Proper.folded (hw : w.Proper) : w.folded.Proper := hw

theorem folded_folded (w : Walk) : w.folded.folded = w.folded := by
  simp [Walk.folded]

theorem folded_eq_self_iff : w.folded = w ↔ w.climbs ≤ 1 := by
  obtain ⟨climbs, names⟩ := w
  simp only [folded, mk.injEq, and_true]
  omega

theorem path_inj {v : Walk} (hv : v.Proper) (hw : w.Proper) : v.path = w.path ↔ v = w := by
  refine ⟨fun same => ?_, congrArg path⟩
  rw [path_eq hv, path_eq hw] at same
  have components := congrArg Path.components same
  rw [components_ofComponents hv.isStep, components_ofComponents hw.isStep] at components
  rw [← foldl_add_components hv, components, foldl_add_components hw]

theorem mem_names_along {name : String} (mem : name ∈ (along p).names) : .name name ∈ p.steps := by
  rw [along_eq] at mem
  have steps : ∀ c ∈ p.steps, c.IsStep := fun _ => isStep_of_mem_steps
  exact (mem_names_foldl steps mem).resolve_left List.not_mem_nil

theorem proper_along (p : Path) : (along p).Proper :=
  fun _ mem => isStep_of_mem_steps (mem_names_along mem)

/-! ### Walks that start deeper -/

/-- The walk seen from a place from which `outer`, the innermost name first, leads down to its
start. -/
def below (w : Walk) (outer : List String) : Walk :=
  ⟨w.climbs - outer.length, w.names ++ outer.drop w.climbs⟩

theorem below_add (h : c.IsStep) (w : Walk) (outer : List String) :
    (w.add c).below outer = (w.below outer).add c := by
  rcases h.eq_parent_or_name with rfl | ⟨name, rfl⟩
  · obtain ⟨climbs, names⟩ := w
    cases names with
    | cons name names => rfl
    | nil =>
      rw [add_parent, add_parent]
      by_cases within : climbs < outer.length
      · have inner := List.drop_eq_getElem_cons within
        have same : climbs + 1 - outer.length = climbs - outer.length := by omega
        rw [below, below, List.nil_append, List.nil_append, inner, same]
      · have past : outer.length ≤ climbs := Nat.le_of_not_lt within
        have more : climbs + 1 - outer.length = climbs - outer.length + 1 := by omega
        simp [below, List.drop_eq_nil_of_le past, List.drop_eq_nil_of_le (Nat.le_succ_of_le past),
          more]
  · rw [add_name h, add_name h]
    rfl

theorem below_foldl {cs : List Component} (h : ∀ c ∈ cs, c.IsStep) (w : Walk)
    (outer : List String) : (cs.foldl add w).below outer = cs.foldl add (w.below outer) := by
  induction cs generalizing w with
  | nil => rfl
  | cons c cs ih =>
    rw [List.foldl_cons, List.foldl_cons, ih fun d mem => h d (List.mem_cons_of_mem _ mem),
      below_add (h c List.mem_cons_self)]

/-- A path that goes down some names and then the way of another path. -/
theorem along_of_steps {q : Path} {outer : List String} (h : q.steps = outer.map .name ++ p.steps) :
    along q = (along p).below outer.reverse := by
  have proper : ∀ name ∈ outer, (Component.name name).IsStep := fun name mem =>
    isStep_of_mem_steps (h ▸ List.mem_append_left _ (List.mem_map_of_mem mem))
  rw [along_eq, along_eq, h, List.foldl_append, foldl_add_names proper,
    below_foldl fun _ => isStep_of_mem_steps]
  simp [below]

end Walk

open Walk

variable {p : Path}

/-! ### What is folded -/

theorem anchor_cases (p : Path) : p.anchor = [] ∨ p.anchor = [.root] := by
  rw [anchor]
  split <;> simp

theorem normalize_eq (p : Path) :
    p.normalize = ofComponents (p.anchor ++ (along p).folded.components) := by
  have start : p.components.foldl fold [] = p.steps.foldl fold (stack ⟨0, []⟩ p.anchor) := by
    rw [components_eq, List.foldl_append, anchor]
    split
    · rfl
    · split <;> rfl
  have root : p.anchor.reverse = p.anchor := by
    rcases p.anchor_cases with none | root <;> simp [*]
  rw [normalize, start, foldl_fold p.anchor_cases fun _ => isStep_of_mem_steps, ← along_eq,
    reverse_stack, root]

theorem isAbsolute_normalize (p : Path) : p.normalize.isAbsolute = p.isAbsolute := by
  have proper := (proper_along p).folded
  rw [normalize_eq, anchor]
  split
  · rename_i absolute
    rw [List.singleton_append, isAbsolute_ofComponents_root proper.isStep, absolute]
  · rename_i relative
    rw [List.nil_append, isAbsolute_ofComponents proper.isStep, eq_false_of_ne_true relative]

theorem steps_normalize (p : Path) : p.normalize.steps = (along p).folded.components := by
  have proper := (proper_along p).folded
  rw [normalize_eq]
  rcases p.anchor_cases with none | root
  · rw [none, List.nil_append, steps_ofComponents proper.isStep]
  · rw [root, List.singleton_append, steps_ofComponents_root proper.isStep]

theorem components_normalize (p : Path) :
    p.normalize.components = p.anchor ++ (along p).folded.components := by
  have proper := (proper_along p).folded
  rw [normalize_eq]
  rcases p.anchor_cases with none | root
  · rw [none, List.nil_append, components_ofComponents proper.isStep]
  · rw [root, List.singleton_append, components_ofComponents_root proper.isStep]

theorem along_normalize (p : Path) : along p.normalize = (along p).folded := by
  rw [along_eq, steps_normalize, foldl_add_components (proper_along p).folded]

theorem normalize_eq_empty_iff :
    p.normalize = ⟨""⟩ ↔ p.anchor ++ (along p).folded.components = [] := by
  constructor
  · intro eq
    rw [← components_normalize, eq]
    rfl
  · intro eq
    rw [normalize_eq, eq]
    rfl

theorem normalize_eq_root_iff :
    p.normalize = ⟨"/"⟩ ↔ p.anchor ++ (along p).folded.components = [.root] := by
  constructor
  · intro eq
    rw [← components_normalize, eq]
    rfl
  · intro eq
    rw [normalize_eq, eq]
    rfl

/-- Names at the end of a path are not folded: they stand behind what the path in front of them is
folded to. -/
theorem text_normalize_of_steps {q : Path} {names : List String}
    (start : q.isAbsolute = p.isAbsolute) (steps : q.steps = p.steps ++ names.map .name)
    (ne : names ≠ []) :
    q.normalize.text =
      if p.normalize = ⟨""⟩ then "/".intercalate names
      else if p.normalize = ⟨"/"⟩ then "/" ++ "/".intercalate names
      else p.normalize.text ++ "/" ++ "/".intercalate names := by
  have proper : ∀ name ∈ names, (Component.name name).IsStep := fun name mem =>
    isStep_of_mem_steps (steps ▸ List.mem_append_right _ (List.mem_map_of_mem mem))
  have folded : q.normalize = ofComponents (p.anchor ++ (along p).folded.components ++
      names.map .name) := by
    have same : q.anchor = p.anchor := by rw [anchor, anchor, start]
    have walked : along q = { along p with names := names.reverse ++ (along p).names } := by
      rw [along_eq, along_eq, steps, List.foldl_append, foldl_add_names proper]
    rw [normalize_eq, same, walked, List.append_assoc]
    simp [Walk.folded, Walk.components]
  have notRoot : p.anchor ++ (along p).folded.components ++ names.map .name ≠ [.root] := by
    intro root
    obtain ⟨name, mem⟩ := List.exists_mem_of_ne_nil names ne
    have only : Component.name name ∈ [Component.root] :=
      root ▸ List.mem_append_right _ (List.mem_map_of_mem mem)
    cases List.mem_singleton.mp only
  have texts : (names.map Component.name).map Component.text = names := by
    rw [List.map_map]
    exact List.map_id _
  rw [folded, ofComponents_eq _ notRoot, List.map_append, texts]
  split
  · rename_i empty
    rw [normalize_eq_empty_iff.mp empty, List.map_nil, List.nil_append]
  split
  · rename_i root
    rw [normalize_eq_root_iff.mp root]
    exact String.intercalate_cons_of_ne_nil ne
  · rename_i notEmpty notRoot
    rw [normalize_eq p, ofComponents_eq _ (mt normalize_eq_root_iff.mpr notRoot)]
    refine String.intercalate_append_of_ne_nil (fun none => notEmpty ?_) ne
    exact normalize_eq_empty_iff.mpr (List.map_eq_nil_iff.mp none)

/-- Folding a path that is folded already changes nothing. -/
theorem normalize_normalize (p : Path) : p.normalize.normalize = p.normalize := by
  rw [normalize_eq p.normalize, anchor, isAbsolute_normalize, ← anchor, along_normalize,
    folded_folded, ← normalize_eq]

/-- A relative path is folded to where a walk along it leads, less the pairs of steps above the
start: what is left are the names behind at most one `..`. That is the place where the walk leads
exactly if the walk goes above its start at most once. -/
theorem normalize_follows_walk (p : Path) (relative : p.isAbsolute = false) :
    p.normalize.components =
        List.replicate ((along p).climbs % 2) .parent ++ (along p).names.reverse.map .name ∧
      p.normalize = (along p).folded.path ∧
      p.normalize.normalize = p.normalize ∧
      (p.normalize = (along p).path ↔ (along p).climbs ≤ 1) := by
  have proper := proper_along p
  have none : p.anchor = [] := by rw [anchor, relative, if_neg Bool.false_ne_true]
  have folded : p.normalize = (along p).folded.path := by
    rw [normalize_eq, none, List.nil_append, path_eq proper.folded]
  refine ⟨?_, folded, normalize_normalize p, ?_⟩
  · rw [components_normalize, none]
    rfl
  · rw [folded, path_inj proper.folded proper, folded_eq_self_iff]

/-- A walk that comes back and then goes above its start once is folded to where it leads. -/
theorem normalize_follows_walk_above_start :
    (⟨"a/../../b/./c"⟩ : Path).isAbsolute = false ∧
      (along ⟨"a/../../b/./c"⟩).climbs ≤ 1 ∧
      (⟨"a/../../b/./c"⟩ : Path).normalize = (along ⟨"a/../../b/./c"⟩).path := by
  have relative : (⟨"a/../../b/./c"⟩ : Path).isAbsolute = false := by decide
  have once : (along ⟨"a/../../b/./c"⟩).climbs ≤ 1 := by decide
  exact ⟨relative, once, (normalize_follows_walk _ relative).2.2.2.mpr once⟩

/-- The second step above the start takes back the first. -/
theorem normalize_forgets_climbs :
    (⟨"../../x"⟩ : Path).normalize = ⟨"x"⟩ ∧ (along ⟨"../../x"⟩).path = ⟨"../../x"⟩ := by
  decide

end FusionTree.Path
