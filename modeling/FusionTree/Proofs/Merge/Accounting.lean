import FusionTree.Proofs.Merge.Effect

/-!
# Reported problems

A merge `Reports` by a property if it reports nothing while it goes on, and reports exactly the
problem it stops for when it stops, which then has the property. Whatever is put together from such
merges is one too. A merge that runs apart has a list of problems of its own; the list tells how it
ended.
-/

namespace FusionTree

def Stop.problems : Stop → List Problem
  | .problem p => [p]
  | .depthExceeded => []

namespace Merge

variable {α β : Type} {B C : Problem → Prop}

/-- After `problems` have been reported, the end adds what has to be reported for it. -/
def Accounted (problems : List Problem) (B : Problem → Prop) :
    EStateM.Result Stop MergeState α → Prop
  | .ok _ s => s.journal.problems = problems
  | .error stop s => s.journal.problems = problems ++ stop.problems ∧ ∀ p ∈ stop.problems, B p

/-- From every state the merge reports the problem it stops for, which has the property, and nothing
else. -/
def Reports (m : Merge α) (B : Problem → Prop) : Prop :=
  ∀ s : MergeState, Accounted s.journal.problems B (m s)

theorem Reports.mono {m : Merge α} (h : Reports m B) (imp : ∀ p, B p → C p) : Reports m C := by
  intro s
  have accounted := h s
  cases hm : m s with
  | ok a s' => rwa [hm] at accounted
  | error stop s' =>
    rw [hm] at accounted
    exact ⟨accounted.1, fun p hp => imp p (accounted.2 p hp)⟩

/-- A problem that is reported is one for which the merge has stopped. -/
theorem Reports.and_stops {m : Merge α} (h : Reports m B) :
    Reports m fun p => B p ∧ ∃ s s', m s = .error (.problem p) s' := by
  intro s
  have accounted := h s
  cases hm : m s with
  | ok a s' => rwa [hm] at accounted
  | error stop s' =>
    rw [hm] at accounted
    refine ⟨accounted.1, fun p hp => ⟨accounted.2 p hp, s, s', ?_⟩⟩
    cases stop with
    | problem q =>
      obtain rfl := List.mem_singleton.mp hp
      exact hm
    | depthExceeded => cases hp

/-! ### Putting merges together -/

theorem reports_pure (a : α) : Reports (pure a : Merge α) B := fun _ => rfl

theorem reports_record {f : Journal → Journal} (h : ∀ j, (f j).problems = j.problems) :
    Reports (record f) B :=
  fun s => h s.journal

theorem reports_note (step : Step) : Reports (note step) B := reports_record fun _ => rfl

theorem reports_update (f : Entries → Entries) : Reports (update f) B := fun _ => rfl

theorem reports_fail {cause : Cause} {span : Span} (h : B ⟨cause, span⟩) :
    Reports (fail cause span : Merge α) B :=
  fun _ => ⟨rfl, by simpa [Stop.problems] using h⟩

theorem reports_depthExceeded : Reports (throw .depthExceeded : Merge α) B :=
  fun _ => ⟨(List.append_nil _).symm, fun _ hp => by cases hp⟩

/-- A merge and another one, which only has to do for the values that the first one gives. -/
theorem Reports.bind_of_ok {m : Merge α} {k : α → Merge β} (h : Reports m B)
    (h' : ∀ s a s', m s = .ok a s' → Reports (k a) B) : Reports (m >>= k) B := by
  intro s
  have first := h s
  rw [bind_apply]
  cases hm : m s with
  | error stop s' => rwa [hm] at first
  | ok a s' =>
    rw [hm] at first
    have second := h' s a s' hm s'
    rwa [show s'.journal.problems = s.journal.problems from first] at second

theorem Reports.bind {m : Merge α} {k : α → Merge β} (h : Reports m B)
    (h' : ∀ a, Reports (k a) B) : Reports (m >>= k) B :=
  h.bind_of_ok fun _ a _ _ => h' a

theorem Reports.ite {c : Prop} [Decidable c] {m n : Merge α} (hm : Reports m B)
    (hn : Reports n B) : Reports (if c then m else n) B := by
  split
  · exact hm
  · exact hn

/-! ### Merges with problems of their own -/

theorem reports_apart (m : Merge Unit) : Reports (apart m) B := by
  intro s
  unfold apart
  split <;> rfl

/-- What a merge gives that runs apart: a tree without problems, or a reason with what has to be
reported for it. -/
theorem Reports.of_apart {m : Merge Unit} (h : Reports m B) {s s' : MergeState}
    {ended : Except Stop Entries} {problems : List Problem}
    (ok : apart m s = .ok (ended, problems) s') :
    (∃ tree, ended = .ok tree ∧ problems = []) ∨
      ∃ stop, ended = .error stop ∧ problems = stop.problems ∧ ∀ p ∈ stop.problems, B p := by
  have inside := h { tree := [], journal := { s.journal with problems := [] } }
  unfold apart at ok
  split at ok
  · rename_i inner hm
    rw [hm] at inside
    cases ok
    exact .inl ⟨_, rfl, inside⟩
  · rename_i stop inner hm
    rw [hm] at inside
    cases ok
    exact .inr ⟨_, rfl, inside.1, inside.2⟩

theorem Performs.apart {m : Merge Unit} {f : Entries → Entries} (h : Performs m () f)
    (reports : Reports m B) : Performs (apart m) (.ok (f []), []) id := by
  intro s
  obtain ⟨j, hj⟩ := h { tree := [], journal := { s.journal with problems := [] } }
  have inside := reports { tree := [], journal := { s.journal with problems := [] } }
  rw [hj] at inside
  have silent : j.problems = [] := inside
  refine ⟨{ j with problems := s.journal.problems }, ?_⟩
  simp only [Merge.apart, hj, silent, id]

theorem Stops.apart {m : Merge Unit} {stop : Stop} (h : Stops m stop) (reports : Reports m B) :
    Performs (apart m) (.error stop, stop.problems) id := by
  intro s
  obtain ⟨inner, hm⟩ := h { tree := [], journal := { s.journal with problems := [] } }
  have inside := reports { tree := [], journal := { s.journal with problems := [] } }
  rw [hm] at inside
  have reported : inner.journal.problems = stop.problems := inside.1
  refine ⟨{ inner.journal with problems := s.journal.problems }, ?_⟩
  simp only [Merge.apart, hm, reported, id]

end Merge

/-- Whatever source is entered from the context, its merge reports by the property that the source
and the files that lead to it have. -/
def Context.Reports (ctx : Context) (B : Source → List Path → Problem → Prop) : Prop :=
  ∀ source chain, Merge.Reports (ctx.enter source chain) (B source chain)

end FusionTree
