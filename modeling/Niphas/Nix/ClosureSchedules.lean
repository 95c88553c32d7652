import Niphas.Nix.ClosureRuns

/-!
# Closure resolution on any schedule

The deadline is only looked at when there is something left to fetch, and the order of the fetches
is that of the network.  Neither changes what is returned.

In `Closure` the results are about calls whose deadline is not hit.  Here the clock may say
anything.  Then one more thing may be returned, an error that the call has timed out, and
`Explained` says that there is nothing else.  Two calls for one root can be compared by what
explains them, so that no run of the one has to be related to a run of the other, event by event.

The sizes in a result are sums over its narinfos, in the order in which these have come.  Addition
modulo 2^64 does not depend on the order, and so neither do they.

* `ResolveState.Explained` — what a call has returned by whatever schedule: the closure, the failure
  of a fetch in it, or a timeout behind the deadline.
* `resolveClosure_confluent` — where one schedule resolves a closure, every other one resolves it to
  the same paths, narinfos and sizes, or runs into its own deadline, or has none.
-/

namespace Niphas

namespace ResolvedClosure

/-- The sum of a size over the closure, in `u64` of a release build. -/
def totalSize (c : ResolvedClosure) (size : NarInfo → ℕ) : ℕ :=
  (c.narinfos.entries.map fun entry => size entry.2).sum % 2 ^ 64

/-- `nar_size`. -/
def narSize (c : ResolvedClosure) : ℕ := c.totalSize NarInfo.narSize

/-- `file_size`. -/
def fileSize (c : ResolvedClosure) : ℕ := c.totalSize NarInfo.fileSize

variable {client : NarInfoClient} {root : StorePath} {c c' : ResolvedClosure}

/-- Two results for one root have the same narinfos. -/
lemma Is.lookup_eq (h : c.Is client root) (h' : c'.Is client root) (s : String) :
    c.narinfos.lookup s = c'.narinfos.lookup s := by
  by_cases hs : s ∈ c.paths
  · obtain ⟨p, hp, rfl⟩ := (h.mem_paths s).mp hs
    obtain ⟨info, hfetch, hlookup⟩ := h.lookup p hp
    obtain ⟨info', hfetch', hlookup'⟩ := h'.lookup p hp
    cases hfetch.symm.trans hfetch'
    rw [hlookup, hlookup']
  · have hs' : s ∉ c'.paths := by rwa [h'.mem_paths, ← h.mem_paths]
    rw [AList.lookup_eq_none.mpr fun hkey => hs ((h.keys s).mp hkey),
      AList.lookup_eq_none.mpr fun hkey => hs' ((h'.keys s).mp hkey)]

/-- So any sum over them is the same. -/
lemma Is.totalSize_eq (h : c.Is client root) (h' : c'.Is client root) (size : NarInfo → ℕ) :
    c.totalSize size = c'.totalSize size := by
  have hperm : c.narinfos.entries.Perm c'.narinfos.entries := by
    refine List.lookup_ext c.narinfos.nodupKeys c'.narinfos.nodupKeys fun s info => ?_
    rw [Option.mem_def, Option.mem_def]
    exact iff_of_eq (congrArg (· = some info) (h.lookup_eq h' s))
  exact congrArg (· % 2 ^ 64) (hperm.map _).sum_eq

end ResolvedClosure

/-! ## What a call returns -/

namespace ResolveState

variable {a : ResolveArgs}

/-- The error of a call that has run into its deadline. -/
def timedOut (a : ResolveArgs) : Fault :=
  .err (.timeout ("closure resolution timed out after " ++ Nat.repr a.timeoutSecs ++ "s"))

/-- What holds of a call after `evs`, in time or late, or without a deadline. -/
def Explained (a : ResolveArgs) (evs : List ResolveEvent) : ResolveState → Prop
  | .running l => ∃ w, l.Sim a.client w ∧ Worklist.Inv (expandPath a.client) a.root w
  | .returned (.ok c) => c.Is a.client a.root ∧ AllFetched a.client a.root
  | .returned (.error f) =>
      f = .panic ∧ ¬ a.HasDeadline ∨
        f = timedOut a ∧ (∃ now, evs.getLast? = some (.poll now) ∧ a.deadline < now) ∨
        ¬ AllFetched a.client a.root ∧ (returned (.error f)).Blamed a

/-- In time, that is what is known already. -/
lemma Sound.explained {s : ResolveState} (hs : s.Sound a) (hb : s.Blamed a)
    (evs : List ResolveEvent) : s.Explained a evs := by
  cases s with
  | running l => exact hs
  | returned r =>
      cases r with
      | ok c => exact hs
      | error f => exact .inr (.inr ⟨hs, hb⟩)

/-- A late head of the loop ends the call, with the closure where it is complete. -/
lemma explained_late {l : ClosureLoop} {w : Worklist.State StorePath} (hsim : l.Sim a.client w)
    (hinv : Worklist.Inv (expandPath a.client) a.root w) {now : ℕ} (hlate : a.deadline < now)
    {s' : ResolveState} (h : (running l).step a (.poll now) = some s') (evs : List ResolveEvent) :
    s'.Explained a (evs ++ [.poll now]) := by
  simp only [step, if_pos hlate] at h
  split at h
  · cases h
  next hidle =>
  split at h
  next hqueue =>
    cases h
    rw [hsim.queue] at hqueue
    rw [hsim.futures] at hidle
    exact sound_finished hsim hinv ⟨hqueue, not_not.mp hidle⟩
  · cases h
    exact .inr (.inl ⟨rfl, now, List.getLast?_concat .., hlate⟩)

/-- **Run lemma**: every run is explained. -/
lemma explained_run {evs : List ResolveEvent} :
    ∀ {s : ResolveState}, (start a).run a evs = some s → s.Explained a evs := by
  induction evs using List.reverseRecOn with
  | nil =>
      intro s h
      by_cases hdeadline : a.HasDeadline
      · rw [start_eq hdeadline] at h
        cases h
        exact ⟨_, ClosureLoop.Sim.start a.root, Worklist.Inv.start⟩
      · obtain ⟨-, rfl⟩ := run_overflow hdeadline h
        exact .inl ⟨rfl, hdeadline⟩
  | append_singleton evs ev ih =>
      intro s h
      obtain ⟨l, hl, hstep⟩ := run_concat_eq_some.mp h
      obtain ⟨w, hsim, hinv⟩ := ih hl
      have hsound : (running l).Sound a := ⟨w, hsim, hinv⟩
      by_cases htime : ev.InTime a
      · exact (hsound.step htime hstep).explained (blamed_step hsound htime hstep) _
      · cases ev with
        | poll now => exact explained_late hsim hinv (Nat.lt_of_not_le htime) hstep evs
        | fetched sp => exact absurd trivial htime

end ResolveState

/-- **Where one schedule resolves a closure**, any other one (with another batch size, another order
of the fetches, another clock, another timeout) resolves it to the same, or times out behind its own
deadline, or has panicked because it has none. -/
theorem resolveClosure_confluent {a b : ResolveArgs} (hclient : b.client = a.client)
    (hroot : b.root = a.root) {evs evs' : List ResolveEvent} {c : ResolvedClosure}
    {r : Result ResolvedClosure}
    (h : (ResolveState.start a).run a evs = some (.returned (.ok c)))
    (h' : (ResolveState.start b).run b evs' = some (.returned r)) :
    (∃ c', r = .ok c' ∧ c'.paths.Perm c.paths ∧ c'.paths.head? = some a.root.toString ∧
        (∀ s, c'.narinfos.lookup s = c.narinfos.lookup s) ∧
        c'.narSize = c.narSize ∧ c'.fileSize = c.fileSize) ∨
      (r = .error (ResolveState.timedOut b) ∧
        ∃ now, evs'.getLast? = some (.poll now) ∧ b.deadline < now) ∨
      r = .error .panic ∧ evs' = [] ∧ ¬ b.HasDeadline := by
  obtain ⟨his, hall⟩ := ResolveState.explained_run h
  have hexplained := ResolveState.explained_run h'
  cases r with
  | ok c' =>
      obtain ⟨his', -⟩ := hexplained
      rw [hclient, hroot] at his'
      exact .inl ⟨c', rfl, his'.perm his, his'.root_first, his'.lookup_eq his,
        his'.totalSize_eq his _, his'.totalSize_eq his _⟩
  | error f =>
      rcases hexplained with ⟨rfl, hdeadline⟩ | ⟨rfl, hlate⟩ | ⟨hnot, -⟩
      · exact .inr (.inr ⟨rfl, (ResolveState.run_overflow hdeadline h').1, hdeadline⟩)
      · exact .inr (.inl ⟨rfl, hlate⟩)
      · rw [hclient, hroot] at hnot
        exact absurd hall hnot

/-- The order of the fetches, and the last look at the clock. -/
def programEvents (last : ℕ) : List ResolveEvent :=
  [.poll 0, .fetched programPath, .poll 0, .fetched libraryPath, .poll 0, .fetched toolPath,
    .poll last]

/-- A program with its library and its tool, resolved in batches and one path at a time.  The second
call looks at the clock after its deadline, when it has the closure. -/
theorem resolveClosure_confluent_program :
    ∃ c c', (ResolveState.start programArgs).run programArgs [.poll 0, .fetched programPath,
        .poll 0, .fetched libraryPath, .fetched toolPath, .poll 0] = some (.returned (.ok c)) ∧
      (ResolveState.start { programArgs with concurrency := 1 }).run
          { programArgs with concurrency := 1 } (programEvents 20000000000) =
        some (.returned (.ok c')) ∧
      c'.paths.Perm c.paths ∧ c'.narSize = c.narSize := by
  obtain ⟨c, hc⟩ : ∃ c, (ResolveState.start programArgs).run programArgs [.poll 0,
      .fetched programPath, .poll 0, .fetched libraryPath, .fetched toolPath, .poll 0] =
        some (.returned (.ok c)) := ⟨_, rfl⟩
  obtain ⟨c', hc'⟩ : ∃ c', (ResolveState.start { programArgs with concurrency := 1 }).run
      { programArgs with concurrency := 1 } (programEvents 20000000000) =
        some (.returned (.ok c')) := ⟨_, rfl⟩
  refine ⟨c, c', hc, hc', ?_⟩
  rcases resolveClosure_confluent (a := programArgs) (b := { programArgs with concurrency := 1 })
    rfl rfl hc hc' with ⟨_, ⟨⟩, hperm, -, -, hsize, -⟩ | ⟨hlate, -⟩ | ⟨hpanic, -⟩
  · exact ⟨hperm, hsize⟩
  · cases hlate
  · cases hpanic

end Niphas
