import FusionTree.Merge.Basic

/-!
# The effect of a merge

A merge never looks at the tree it changes, and only adds to the journal. So what it does is the
same from every state: it gives one value and changes the tree by one function, or it stops for one
reason. A merge of which this holds is `Steady`; whatever is put together from steady merges is
steady, and what the whole performs is what the parts perform one after another.
-/

namespace FusionTree

namespace Merge

variable {α β : Type}

/-- From every state the merge gives the value and changes the tree by the function. -/
def Performs (m : Merge α) (a : α) (f : Entries → Entries) : Prop :=
  ∀ s : MergeState, ∃ j, m s = .ok a { tree := f s.tree, journal := j }

/-- From every state the merge stops for the reason. -/
def Stops (m : Merge α) (stop : Stop) : Prop :=
  ∀ s : MergeState, ∃ s', m s = .error stop s'

/-- What the merge does does not depend on the state. -/
def Steady (m : Merge α) : Prop :=
  (∃ a f, Performs m a f) ∨ ∃ stop, Stops m stop

theorem bind_apply (m : Merge α) (k : α → Merge β) (s : MergeState) :
    (m >>= k) s = match m s with
      | .ok a s' => k a s'
      | .error e s' => .error e s' := by
  change EStateM.bind m k s = _
  unfold EStateM.bind
  cases m s <;> rfl

/-! ### One merge -/

theorem Performs.unique {m : Merge α} {a b : α} {f g : Entries → Entries} (h : Performs m a f)
    (h' : Performs m b g) : a = b ∧ f = g := by
  have same (t : Entries) : a = b ∧ f t = g t := by
    obtain ⟨j, hj⟩ := h { tree := t }
    obtain ⟨j', hj'⟩ := h' { tree := t }
    rw [hj] at hj'
    injection hj' with ha hs
    exact ⟨ha, congrArg MergeState.tree hs⟩
  exact ⟨(same []).1, funext fun t => (same t).2⟩

theorem Stops.not_performs {m : Merge α} {stop : Stop} {a : α} {f : Entries → Entries}
    (h : Stops m stop) : ¬Performs m a f := by
  intro h'
  obtain ⟨s, hs⟩ := h {}
  obtain ⟨j, hj⟩ := h' {}
  rw [hs] at hj
  cases hj

theorem Stops.unique {m : Merge α} {stop stop' : Stop} (h : Stops m stop) (h' : Stops m stop') :
    stop = stop' := by
  obtain ⟨s, hs⟩ := h {}
  obtain ⟨s', hs'⟩ := h' {}
  rw [hs] at hs'
  cases hs'
  rfl

/-- A steady merge that succeeds once succeeds from every state in the same way. -/
theorem Steady.performs_of_ok {m : Merge α} (h : Steady m) {s s' : MergeState} {a : α}
    (ok : m s = .ok a s') : ∃ f, Performs m a f ∧ s'.tree = f s.tree := by
  rcases h with ⟨b, f, hf⟩ | ⟨stop, hstop⟩
  · obtain ⟨j, hj⟩ := hf s
    rw [hj] at ok
    cases ok
    exact ⟨f, hf, rfl⟩
  · obtain ⟨t, ht⟩ := hstop s
    rw [ht] at ok
    cases ok

def succeeds (m : Merge α) (s : MergeState) : Bool :=
  match m s with
  | .ok .. => true
  | .error .. => false

theorem exists_of_succeeds {m : Merge α} {s : MergeState} (h : m.succeeds s = true) :
    ∃ a s', m s = .ok a s' := by
  unfold succeeds at h
  split at h
  · rename_i a s' ok
    exact ⟨a, s', ok⟩
  · cases h

theorem performs_pure (a : α) : Performs (pure a : Merge α) a id := fun s => ⟨s.journal, rfl⟩

theorem performs_record (f : Journal → Journal) : Performs (record f) () id :=
  fun s => ⟨f s.journal, rfl⟩

theorem performs_note (step : Step) : Performs (note step) () id := performs_record _

theorem performs_update (f : Entries → Entries) : Performs (update f) () f :=
  fun s => ⟨s.journal, rfl⟩

theorem stops_throw (stop : Stop) : Stops (throw stop : Merge α) stop := fun s => ⟨s, rfl⟩

theorem stops_fail (cause : Cause) (span : Span) :
    Stops (fail cause span : Merge α) (.problem ⟨cause, span⟩) := fun _ => ⟨_, rfl⟩

theorem Performs.steady {m : Merge α} {a : α} {f : Entries → Entries} (h : Performs m a f) :
    Steady m := .inl ⟨a, f, h⟩

theorem Stops.steady {m : Merge α} {stop : Stop} (h : Stops m stop) : Steady m := .inr ⟨stop, h⟩

theorem performs_pure_iff {a b : α} {f : Entries → Entries} :
    Performs (pure a : Merge α) b f ↔ b = a ∧ f = id := by
  constructor
  · intro h
    exact h.unique (performs_pure a)
  · rintro ⟨rfl, rfl⟩
    exact performs_pure b

/-! ### One merge after another -/

theorem Performs.bind {m : Merge α} {k : α → Merge β} {a : α} {b : β} {f g : Entries → Entries}
    (h : Performs m a f) (h' : Performs (k a) b g) : Performs (m >>= k) b (g ∘ f) := by
  intro s
  obtain ⟨j, hj⟩ := h s
  obtain ⟨j', hj'⟩ := h' { tree := f s.tree, journal := j }
  refine ⟨j', ?_⟩
  rw [bind_apply, hj]
  exact hj'

theorem Performs.bind_quiet {m : Merge α} {k : α → Merge β} {a : α} {b : β}
    {f : Entries → Entries} (h : Performs m a id) (h' : Performs (k a) b f) :
    Performs (m >>= k) b f :=
  h.bind h'

theorem Performs.bind_stops {m : Merge α} {k : α → Merge β} {a : α} {stop : Stop}
    {f : Entries → Entries} (h : Performs m a f) (h' : Stops (k a) stop) :
    Stops (m >>= k) stop := by
  intro s
  obtain ⟨j, hj⟩ := h s
  obtain ⟨s', hs'⟩ := h' { tree := f s.tree, journal := j }
  refine ⟨s', ?_⟩
  rw [bind_apply, hj]
  exact hs'

theorem Stops.bind {m : Merge α} {stop : Stop} (h : Stops m stop) (k : α → Merge β) :
    Stops (m >>= k) stop := by
  intro s
  obtain ⟨s', hs'⟩ := h s
  exact ⟨s', by rw [bind_apply, hs']⟩

theorem Steady.bind {m : Merge α} {k : α → Merge β} (h : Steady m) (h' : ∀ a, Steady (k a)) :
    Steady (m >>= k) := by
  rcases h with ⟨a, f, hf⟩ | ⟨stop, hstop⟩
  · rcases h' a with ⟨b, g, hg⟩ | ⟨stop, hstop⟩
    · exact (hf.bind hg).steady
    · exact (hf.bind_stops hstop).steady
  · exact (hstop.bind k).steady

/-- What comes after a steady merge matters only for the value that the merge gives. -/
theorem Steady.bind_congr {m : Merge α} {k k' : α → Merge β} (h : Steady m)
    (same : ∀ a f, Performs m a f → k a = k' a) : m >>= k = m >>= k' := by
  funext s
  rw [bind_apply, bind_apply]
  rcases h with ⟨a, f, hf⟩ | ⟨stop, hstop⟩
  · obtain ⟨j, hj⟩ := hf s
    rw [hj]
    exact congrFun (same a f hf) _
  · obtain ⟨s', hs'⟩ := hstop s
    rw [hs']

/-- What two merges perform one after another. -/
theorem performs_bind_iff {m : Merge α} {k : α → Merge β} {b : β} {h : Entries → Entries}
    (hm : Steady m) (hk : ∀ a, Steady (k a)) :
    Performs (m >>= k) b h ↔ ∃ a f g, Performs m a f ∧ Performs (k a) b g ∧ h = g ∘ f := by
  constructor
  · intro hb
    rcases hm with ⟨a, f, hf⟩ | ⟨stop, hstop⟩
    · rcases hk a with ⟨b', g, hg⟩ | ⟨stop, hstop⟩
      · obtain ⟨rfl, rfl⟩ := hb.unique (hf.bind hg)
        exact ⟨a, f, g, hf, hg, rfl⟩
      · exact absurd hb (hf.bind_stops hstop).not_performs
    · exact absurd hb (hstop.bind k).not_performs
  · rintro ⟨a, f, g, hf, hg, rfl⟩
    exact hf.bind hg

/-- What stops two merges one after another. -/
theorem stops_bind_iff {m : Merge α} {k : α → Merge β} {stop : Stop} (hm : Steady m)
    (hk : ∀ a, Steady (k a)) :
    Stops (m >>= k) stop ↔ Stops m stop ∨ ∃ a f, Performs m a f ∧ Stops (k a) stop := by
  constructor
  · intro hb
    rcases hm with ⟨a, f, hf⟩ | ⟨stop', hstop⟩
    · rcases hk a with ⟨b, g, hg⟩ | ⟨stop', hstop⟩
      · exact absurd (hf.bind hg) hb.not_performs
      · obtain rfl := hb.unique (hf.bind_stops hstop)
        exact .inr ⟨a, f, hf, hstop⟩
    · obtain rfl := hb.unique (hstop.bind k)
      exact .inl hstop
  · rintro (h | ⟨a, f, hf, h⟩)
    · exact h.bind k
    · exact hf.bind_stops h

/-- What stops two merges stops the second one if the first one succeeds. -/
theorem Stops.behind {m : Merge α} {k : α → Merge β} {a : α} {f : Entries → Entries} {stop : Stop}
    (h : Stops (m >>= k) stop) (hm : Performs m a f) (hk : Steady (k a)) : Stops (k a) stop := by
  rcases hk with ⟨b, g, hg⟩ | ⟨stop', hstop⟩
  · exact absurd (hm.bind hg) h.not_performs
  · rwa [h.unique (hm.bind_stops hstop)]

/-- What stops two merges stops the first one if the second one never stops. -/
theorem Stops.before {m : Merge α} {k : α → Merge β} {stop : Stop} (h : Stops (m >>= k) stop)
    (hm : Steady m) (hk : ∀ a, ∃ b g, Performs (k a) b g) : Stops m stop := by
  rcases hm with ⟨a, f, hf⟩ | ⟨stop', hstop⟩
  · obtain ⟨b, g, hg⟩ := hk a
    exact absurd (hf.bind hg) h.not_performs
  · rwa [h.unique (hstop.bind k)]

/-- What two changes of the tree perform one after another. -/
theorem performs_seq_iff {m n : Merge Unit} {f : Entries → Entries} (hm : Steady m)
    (hn : Steady n) :
    Performs (m >>= fun _ => n) () f ↔
      ∃ g h, Performs m () g ∧ Performs n () h ∧ f = h ∘ g := by
  rw [performs_bind_iff hm fun _ => hn]
  constructor
  · rintro ⟨⟨⟩, g, h, hg, hh, rfl⟩
    exact ⟨g, h, hg, hh, rfl⟩
  · rintro ⟨g, h, hg, hh, rfl⟩
    exact ⟨(), g, h, hg, hh, rfl⟩

theorem performs_bind_pure_iff {m : Merge Unit} (hm : Steady m) {a b : α}
    {f : Entries → Entries} :
    Performs (m >>= fun _ => pure a) b f ↔ b = a ∧ Performs m () f := by
  rw [performs_bind_iff hm fun _ => (performs_pure a).steady]
  constructor
  · rintro ⟨⟨⟩, g, h, hg, hh, rfl⟩
    obtain ⟨rfl, rfl⟩ := performs_pure_iff.mp hh
    exact ⟨rfl, hg⟩
  · rintro ⟨rfl, hf⟩
    exact ⟨(), f, id, hf, performs_pure b, rfl⟩

/-! ### Causes -/

/-- From every state the merge stops for the cause, and shows the same place for it. -/
def StopsFor (m : Merge α) (cause : Cause) : Prop :=
  ∃ span, Stops m (.problem ⟨cause, span⟩)

theorem stopsFor_fail (cause : Cause) (span : Span) : StopsFor (fail cause span : Merge α) cause :=
  ⟨span, stops_fail cause span⟩

theorem StopsFor.bind {m : Merge α} {cause : Cause} (h : StopsFor m cause) (k : α → Merge β) :
    StopsFor (m >>= k) cause := by
  obtain ⟨span, hs⟩ := h
  exact ⟨span, hs.bind k⟩

theorem Performs.bind_stopsFor {m : Merge α} {k : α → Merge β} {a : α} {cause : Cause}
    {f : Entries → Entries} (h : Performs m a f) (h' : StopsFor (k a) cause) :
    StopsFor (m >>= k) cause := by
  obtain ⟨span, hs⟩ := h'
  exact ⟨span, h.bind_stops hs⟩

/-! ### Merges that leave the tree alone -/

/-- The merge gives a value or stops, and never changes the tree. -/
def Quiet (m : Merge α) : Prop :=
  (∃ a, Performs m a id) ∨ ∃ stop, Stops m stop

theorem Performs.quiet {m : Merge α} {a : α} (h : Performs m a id) : Quiet m := .inl ⟨a, h⟩

theorem Stops.quiet {m : Merge α} {stop : Stop} (h : Stops m stop) : Quiet m := .inr ⟨stop, h⟩

theorem Quiet.steady {m : Merge α} (h : Quiet m) : Steady m := by
  rcases h with ⟨a, ha⟩ | ⟨stop, hstop⟩
  · exact ha.steady
  · exact hstop.steady

theorem Quiet.eq_id {m : Merge α} (h : Quiet m) {a : α} {f : Entries → Entries}
    (hf : Performs m a f) : f = id := by
  rcases h with ⟨b, hb⟩ | ⟨stop, hstop⟩
  · exact (hf.unique hb).2
  · exact absurd hf hstop.not_performs

theorem Quiet.bind {m : Merge α} {k : α → Merge β} (h : Quiet m) (h' : ∀ a, Quiet (k a)) :
    Quiet (m >>= k) := by
  rcases h with ⟨a, ha⟩ | ⟨stop, hstop⟩
  · rcases h' a with ⟨b, hb⟩ | ⟨stop, hstop⟩
    · exact (ha.bind hb).quiet
    · exact (ha.bind_stops hstop).quiet
  · exact (hstop.bind k).quiet

theorem Quiet.performs_bind_iff {m : Merge α} {k : α → Merge β} (h : Quiet m)
    (h' : ∀ a, Steady (k a)) {b : β} {f : Entries → Entries} :
    Performs (m >>= k) b f ↔ ∃ a, Performs m a id ∧ Performs (k a) b f := by
  rw [Merge.performs_bind_iff h.steady h']
  constructor
  · rintro ⟨a, g, i, hg, hi, rfl⟩
    obtain rfl := h.eq_id hg
    exact ⟨a, hg, hi⟩
  · rintro ⟨a, ha, hf⟩
    exact ⟨a, id, f, ha, hf, rfl⟩

/-- A first merge that performs nothing but a value may be dropped. -/
theorem Performs.performs_bind_iff {m : Merge α} {k : α → Merge β} {a : α} (h : Performs m a id)
    (h' : ∀ a, Steady (k a)) {b : β} {f : Entries → Entries} :
    Performs (m >>= k) b f ↔ Performs (k a) b f := by
  rw [h.quiet.performs_bind_iff h']
  constructor
  · rintro ⟨c, hc, hf⟩
    rwa [← (hc.unique h).1]
  · intro hf
    exact ⟨a, h, hf⟩

end Merge

end FusionTree
