import Niphas.Lib.WorklistOrder
import Niphas.Nix.Closure

/-!
# The order and the length of a closure resolution

`resolve_closure` returns the paths in the order in which their fetches complete, and takes its
batches off a queue that the completions refill.

The comment on `ResolvedClosure` promises topological order.  Whether the paths come out like this
is not decided by the graph alone, since a batch holds paths of which one may reference another, and
they complete in any order.  So there are two statements.  One is about a call: if each of its
batches is `Ready`, that is, waits for nothing that is still to be fetched, its paths are sorted.
The other is about all calls with the same arguments: they are all sorted exactly when all their
batches are ready.  Whether a batch is ready is seen when it is taken, from the references, before
anything in it has completed.

For the length, what a turn takes off the queue was put into it by a completion, and each reference
of each path is put in at most once.  This bounds the number of turns, provided that a turn takes
off something at all.

* `resolveClosure_sorted` — in which calls the paths come out in topological order.
* `resolveClosure_unsorted` — a program, its tool, and a library of both.
* `resolveClosure_progress` — for which batch sizes every turn of the loop makes progress, and how
  many turns there are.  A call without a deadline never comes to its loop.
-/

namespace Niphas

namespace ResolveState

variable {a : ResolveArgs}

/-! ## The loop -/

/-- **Staying in the loop**: the head of the loop takes a batch, or a fetch that has succeeded
completes. -/
lemma step_eq_running {l l' : ClosureLoop} {ev : ResolveEvent}
    (h : (running l).step a ev = some (.running l')) :
    (∃ now, ev = .poll now ∧ l.futures = [] ∧ l.queue ≠ [] ∧ l' = l.nextBatch a.concurrency) ∨
      ∃ sp, ev = .fetched sp ∧ sp ∈ l.futures ∧ l.complete a.client sp = .ok l' := by
  cases ev with
  | poll now =>
      simp only [step] at h
      split at h
      · cases h
      next hidle =>
      split at h
      · cases h
      next hqueue =>
      split at h
      · cases h
      · cases h
        exact .inl ⟨now, rfl, not_not.mp hidle, hqueue, rfl⟩
  | fetched sp =>
      simp only [step] at h
      split at h
      next hmem =>
        cases hl : l.complete a.client sp with
        | ok l₁ =>
            rw [hl] at h
            cases h
            exact .inr ⟨sp, rfl, hmem, hl⟩
        | error e =>
            rw [hl] at h
            cases h
      · cases h

/-- A fetch that completes in the loop is the end of an expansion. -/
lemma complete_sim {l l' : ClosureLoop} {w : Worklist.State StorePath} (hsim : l.Sim a.client w)
    {sp : StorePath} (h : l.complete a.client sp = .ok l') :
    ∃ succs, expandPath a.client sp = .ok succs ∧ l'.Sim a.client (w.finish sp succs) := by
  cases hf : a.client.fetchNarinfo sp with
  | ok info =>
      obtain ⟨l₁, hl₁, hsim'⟩ := hsim.complete hf
      cases h.symm.trans hl₁
      exact ⟨_, expandPath_eq_ok hf, hsim'⟩
  | error e =>
      simp only [ClosureLoop.complete, hf] at h
      cases e <;> cases h

/-- **Run lemma**: what a batch and the end of an expansion preserve holds of every search a call is
in.  `J` may speak of the events so far. -/
lemma running_induction {J : List ResolveEvent → Worklist.State StorePath → Prop}
    (hstart : J [] (Worklist.State.start a.root))
    (hbatch : ∀ evs now l w, (start a).run a evs = some (.running l) → l.Sim a.client w →
      Worklist.Inv (expandPath a.client) a.root w → w.inFlight = [] → w.queue ≠ [] → J evs w →
        J (evs ++ [.poll now]) (w.batch a.concurrency))
    (hfinish : ∀ evs sp succs w, Worklist.Inv (expandPath a.client) a.root w → sp ∈ w.inFlight →
      expandPath a.client sp = .ok succs → J evs w → J (evs ++ [.fetched sp]) (w.finish sp succs))
    {evs : List ResolveEvent} {l : ClosureLoop} (h : (start a).run a evs = some (.running l)) :
    ∃ w, l.Sim a.client w ∧ Worklist.Inv (expandPath a.client) a.root w ∧ J evs w := by
  induction evs using List.reverseRecOn generalizing l with
  | nil =>
      rw [start_eq (hasDeadline_of_running h)] at h
      cases h
      exact ⟨_, ClosureLoop.Sim.start a.root, Worklist.Inv.start, hstart⟩
  | append_singleton evs ev ih =>
      obtain ⟨l₁, hrun, hstep⟩ := run_concat_eq_some.mp h
      obtain ⟨w, hsim, hinv, hJ⟩ := ih hrun
      rcases step_eq_running hstep with ⟨now, rfl, hidle, hqueue, rfl⟩ | ⟨sp, rfl, hmem, hl⟩
      · rw [hsim.futures] at hidle
        rw [hsim.queue] at hqueue
        exact ⟨_, hsim.nextBatch _, hinv.batch hidle, hbatch _ _ _ _ hrun hsim hinv hidle hqueue hJ⟩
      · rw [hsim.futures] at hmem
        obtain ⟨succs, hexp, hsim'⟩ := complete_sim hsim hl
        exact ⟨_, hsim', hinv.finish hmem hexp, hfinish _ _ _ _ hinv hmem hexp hJ⟩

/-- A call returns a closure out of a finished search. -/
lemma step_eq_returned_ok {l : ClosureLoop} {w : Worklist.State StorePath} {ev : ResolveEvent}
    {c : ResolvedClosure} (hsim : l.Sim a.client w)
    (h : (running l).step a ev = some (.returned (.ok c))) :
    c = { narinfos := l.narinfos, paths := l.order } ∧ w.Finished := by
  rcases step_running hsim h with ⟨l', w', hl', -⟩ | ⟨hc, hfin⟩ | ⟨e, he, -⟩
  · cases hl'
  · cases hc
    exact ⟨rfl, hfin⟩
  · cases he

end ResolveState

/-! ## Topological order

The condition is on the batches, because it is when a batch is started that the order of its paths
is given away: from then on they may complete in any order.
-/

/-- `q` is among the references of `p`. -/
def References (client : NarInfoClient) (p q : StorePath) : Prop :=
  ∃ info, client.fetchNarinfo p = .ok info ∧ ∃ r ∈ info.references, r.path = q

/-- Every path comes before the other paths it references. -/
def ResolvedClosure.Sorted (client : NarInfoClient) (root : StorePath)
    (c : ResolvedClosure) : Prop :=
  ∀ p q, InClosure client root p → p ≠ q → References client p q →
    [p.toString, q.toString].Sublist c.paths

/-- The paths that the next batch starts to fetch are referenced by no path that has not been
fetched yet, except by themselves. -/
def ClosureLoop.Ready (a : ResolveArgs) (l : ClosureLoop) : Prop :=
  ∀ q ∈ l.queue.take a.concurrency, q.toString ∉ l.visited →
    ∀ p, InClosure a.client a.root p → p ≠ q → References a.client p q → p.toString ∈ l.order

/-- Whenever the call is at the head of its loop, the next batch is ready. -/
def ReadyAlong (a : ResolveArgs) (evs : List ResolveEvent) : Prop :=
  ∀ pre post l, evs = pre ++ post → (ResolveState.start a).run a pre = some (.running l) →
    l.futures = [] → l.Ready a

/-- The references are where a fetch leads. -/
lemma exists_expandPath_iff {client : NarInfoClient} {p q : StorePath} :
    (∃ succs, expandPath client p = .ok succs ∧ q ∈ succs) ↔ References client p q := by
  constructor
  · rintro ⟨succs, hexp, hq⟩
    cases hf : client.fetchNarinfo p with
    | ok info =>
        rw [expandPath_eq_ok hf] at hexp
        cases hexp
        obtain ⟨r, hr, heq⟩ := List.mem_map.mp hq
        exact ⟨info, hf, r, hr, heq⟩
    | error e =>
        rw [expandPath, hf] at hexp
        cases hexp
  · rintro ⟨info, hf, r, hr, rfl⟩
    exact ⟨_, expandPath_eq_ok hf, List.mem_map_of_mem hr⟩

lemma edge_expandPath {client : NarInfoClient} {p q : StorePath} :
    Worklist.Edge (expandPath client) p q ↔ p ≠ q ∧ References client p q :=
  and_congr_right fun _ => exists_expandPath_iff

namespace ClosureLoop

variable {a : ResolveArgs} {l : ClosureLoop} {w : Worklist.State StorePath}

lemma Sim.toString_mem_order (h : Sim a.client l w) (p : StorePath) :
    p.toString ∈ l.order ↔ p ∈ w.order := by
  rw [h.order, List.mem_map_of_injective StorePath.toString_injective]

lemma Sim.ready (h : Sim a.client l w) :
    l.Ready a ↔ w.Ready (expandPath a.client) a.root a.concurrency := by
  simp only [Ready, Worklist.State.Ready, h.queue, h.toString_mem_visited, h.toString_mem_order,
    edge_expandPath, and_imp]

end ClosureLoop

namespace ResolveState

variable {a : ResolveArgs}

/-- A call whose batches are all ready finishes its fetches in topological order. -/
lemma ordered_running {evs : List ResolveEvent} (hready : ReadyAlong a evs) {l : ClosureLoop}
    (h : (start a).run a evs = some (.running l)) :
    ∃ w, l.Sim a.client w ∧ Worklist.Ordered (expandPath a.client) a.root w := by
  obtain ⟨w, hsim, -, hordered⟩ := running_induction (a := a)
    (J := fun evs w => ReadyAlong a evs → Worklist.Ordered (expandPath a.client) a.root w)
    (fun _ => Worklist.Ordered.start)
    (fun evs now l w hrun hsim _ hidle _ hJ hready => by
      have hpre : ReadyAlong a evs := fun pre post l heq =>
        hready pre (post ++ [.poll now]) l (by rw [heq, List.append_assoc])
      have hnext := hready evs [.poll now] l rfl hrun (hsim.futures.trans hidle)
      exact (hJ hpre).batch (hsim.ready.mp hnext))
    (fun evs sp succs w hinv hmem _ hJ hready => by
      have hpre : ReadyAlong a evs := fun pre post l heq =>
        hready pre (post ++ [.fetched sp]) l (by rw [heq, List.append_assoc])
      exact (hJ hpre).finish hinv hmem succs) h
  exact ⟨w, hsim, hordered hready⟩

/-- The loop of a call is in a search, whatever the clock says. -/
lemma sound_running {evs : List ResolveEvent} {l : ClosureLoop}
    (h : (start a).run a evs = some (.running l)) :
    ∃ w, l.Sim a.client w ∧ Worklist.Inv (expandPath a.client) a.root w := by
  obtain ⟨w, hsim, hinv, -⟩ := running_induction (a := a) (J := fun _ _ => True) trivial
    (fun _ _ _ _ _ _ _ _ _ _ => trivial) (fun _ _ _ _ _ _ _ _ => trivial) h
  exact ⟨w, hsim, hinv⟩

/-- What is in the queue, but for the root, is referenced by a path that has been fetched. -/
lemma queue_referenced {evs : List ResolveEvent} {l : ClosureLoop}
    (h : (start a).run a evs = some (.running l)) :
    ∃ w, l.Sim a.client w ∧ Worklist.Inv (expandPath a.client) a.root w ∧
      ∀ q ∈ w.queue, q = a.root ∨ ∃ p ∈ w.order, References a.client p q := by
  refine running_induction (a := a)
    (J := fun _ w => ∀ q ∈ w.queue, q = a.root ∨ ∃ p ∈ w.order, References a.client p q)
    (fun q hq => .inl (List.mem_singleton.mp hq)) (fun _ _ _ w _ _ _ _ _ hJ q hq => ?_)
    (fun _ sp succs w _ _ hexp hJ q hq => ?_) h
  · rw [Worklist.batch_queue] at hq
    rw [Worklist.batch_order]
    exact hJ q (List.mem_of_mem_drop hq)
  · simp only [Worklist.State.finish, List.mem_append] at hq ⊢
    rcases hq with hq | hq
    · rcases hJ q hq with rfl | ⟨p, hp, href⟩
      · exact .inl rfl
      · exact .inr ⟨p, .inl hp, href⟩
    · have hmem : q ∈ succs := (List.mem_filter.mp hq).1
      exact .inr ⟨sp, .inr (List.mem_singleton.mpr rfl),
        exists_expandPath_iff.mp ⟨succs, hexp, hmem⟩⟩

/-- Where every path is referenced by one other path at most, and the root by none, all batches are
ready. -/
lemma readyAlong_of_tree (hroot : ∀ p, p ≠ a.root → ¬ References a.client p a.root)
    (honce : ∀ p p' q, p ≠ q → p' ≠ q → References a.client p q → References a.client p' q → p = p')
    (evs : List ResolveEvent) : ReadyAlong a evs := by
  intro pre post l _ hrun _ q hq hnew p _ hne href
  obtain ⟨w, hsim, hinv, hqueue⟩ := queue_referenced hrun
  rcases hqueue q (hsim.queue ▸ List.mem_of_mem_take hq) with rfl | ⟨p', hp', href'⟩
  · exact absurd href (hroot p hne)
  · have hne' : p' ≠ q := by
      rintro rfl
      exact hnew ((hsim.toString_mem_visited p').mpr ((hinv.visited_iff p').mpr (.inl hp')))
    rw [honce p p' q hne hne' href href']
    exact (hsim.toString_mem_order p').mpr hp'

/-- What a call returns is what its search has finished. -/
lemma returned_ok {evs : List ResolveEvent} {c : ResolvedClosure}
    (h : (start a).run a evs = some (.returned (.ok c))) :
    ∃ evs' ev l w, evs = evs' ++ [ev] ∧ (start a).run a evs' = some (.running l) ∧
      l.Sim a.client w ∧ Worklist.Inv (expandPath a.client) a.root w ∧ w.Finished ∧
        c = { narinfos := l.narinfos, paths := l.order } := by
  rcases List.eq_nil_or_concat evs with rfl | ⟨evs, ev, rfl⟩
  · by_cases hdeadline : a.HasDeadline
    · rw [start_eq hdeadline] at h
      cases h
    · rw [start_overflow hdeadline] at h
      cases h
  rw [List.concat_eq_append] at h ⊢
  obtain ⟨l, hrun, hstep⟩ := run_concat_eq_some.mp h
  obtain ⟨w, hsim, hinv⟩ := sound_running hrun
  obtain ⟨hc, hfin⟩ := step_eq_returned_ok hsim hstep
  exact ⟨evs, ev, l, w, rfl, hrun, hsim, hinv, hfin, hc⟩

/-- **The root comes first.** -/
lemma head_paths {evs : List ResolveEvent} {c : ResolvedClosure}
    (h : (start a).run a evs = some (.returned (.ok c))) :
    c.paths.head? = some a.root.toString := by
  obtain ⟨-, -, l, w, -, -, hsim, hinv, hfin, rfl⟩ := returned_ok h
  show l.order.head? = _
  rw [hsim.order, List.head?_map, (hinv.of_finished hfin).1, Option.map_some]

/-- **The paths of such a call are sorted.** -/
lemma sorted_of_readyAlong {evs : List ResolveEvent} (hready : ReadyAlong a evs)
    {c : ResolvedClosure} (h : (start a).run a evs = some (.returned (.ok c))) :
    c.Sorted a.client a.root := by
  obtain ⟨evs, ev, l, w', rfl, hrun, hsim', hinv, hfin, rfl⟩ := returned_ok h
  have hpre : ReadyAlong a evs := fun pre post l heq =>
    hready pre (post ++ [ev]) l (by rw [heq, List.append_assoc])
  obtain ⟨w, hsim, hordered⟩ := ordered_running hpre hrun
  obtain ⟨-, -, hmem, -⟩ := hinv.of_finished hfin
  intro p q hp hne href
  have hedge : Worklist.Edge (expandPath a.client) p q := edge_expandPath.mpr ⟨hne, href⟩
  obtain ⟨-, succs, hexp, hq⟩ := id hedge
  have hqmem : q ∈ w.order := by
    rw [← hsim.toString_mem_order, hsim'.toString_mem_order]
    exact (hmem q).mpr (.step hp hexp hq)
  have hsub := (hordered.sorted p q hp hedge hqmem).map StorePath.toString
  rw [← hsim.order] at hsub
  exact hsub

/-- What has been fetched keeps its place up to the end. -/
lemma order_prefix {evs : List ResolveEvent} {l : ClosureLoop} {w : Worklist.State StorePath}
    {c : ResolvedClosure} (hsim : l.Sim a.client w)
    (h : (running l).run a evs = some (.returned (.ok c))) : l.order <+: c.paths := by
  induction evs generalizing l w with
  | nil => cases h
  | cons ev evs ih =>
      obtain ⟨s, hstep, hrun⟩ := Option.bind_eq_some_iff.mp h
      rcases step_running hsim hstep with ⟨l', w', rfl, hsim', hw⟩ | ⟨rfl, -⟩ | ⟨e, rfl, -⟩
      · have hpre : l.order <+: l'.order := by
          rw [hsim.order, hsim'.order]
          exact hw.order_prefix.map StorePath.toString
        exact hpre.trans (ih hsim' hrun)
      · obtain rfl : evs = [] := by
          cases evs with
          | nil => rfl
          | cons ev _ => cases ev <;> cases hrun
        cases hrun
        exact List.prefix_refl _
      · cases evs with
        | nil => cases hrun
        | cons ev _ => cases ev <;> cases hrun

lemma acc_run {evs : List ResolveEvent} {s s' : ResolveState}
    (hacc : Acc (fun t s : ResolveState => ∃ ev, s.step a ev = some t) s)
    (h : s.run a evs = some s') :
    Acc (fun t s : ResolveState => ∃ ev, s.step a ev = some t) s' := by
  induction evs generalizing s with
  | nil => exact Option.some.inj h ▸ hacc
  | cons ev evs ih =>
      obtain ⟨s₁, hstep, hrun⟩ := Option.bind_eq_some_iff.mp h
      exact ih (hacc.inv ⟨ev, hstep⟩) hrun

/-- A call in its loop may go on to return the closure. -/
lemma exists_returned_ok (hc : 1 ≤ a.concurrency)
    (hfin : {p | InClosure a.client a.root p}.Finite) (hall : AllFetched a.client a.root)
    {evs : List ResolveEvent} {l : ClosureLoop} (h : (start a).run a evs = some (.running l)) :
    ∃ evs' c, (start a).run a (evs ++ evs') = some (.returned (.ok c)) ∧
      (running l).run a evs' = some (.returned (.ok c)) ∧ c.Is a.client a.root := by
  obtain ⟨evs', r, htime, hret⟩ := exists_returned_of_acc (acc_run (acc_step hc hfin) h)
  have hsound : (returned r).Sound a := Sound.run (s := .running l) (sound_running h) htime hret
  have hrun : (start a).run a (evs ++ evs') = some (.returned r) := by
    rw [run_append, h, Option.bind_some, hret]
  cases r with
  | ok c => exact ⟨evs', c, hrun, hret, hsound.1⟩
  | error e => exact absurd hall hsound

/-- **A batch that is not ready** may put the paths out of order: a path of the batch completes
first. -/
lemma exists_unsorted (hc : 1 ≤ a.concurrency)
    (hfin : {p | InClosure a.client a.root p}.Finite) (hall : AllFetched a.client a.root)
    {evs : List ResolveEvent} {l : ClosureLoop} (h : (start a).run a evs = some (.running l))
    (hidle : l.futures = []) (hnot : ¬ l.Ready a) :
    ∃ evs' c, (start a).run a evs' = some (.returned (.ok c)) ∧ ¬ c.Sorted a.client a.root := by
  simp only [ClosureLoop.Ready, not_forall] at hnot
  obtain ⟨q, hq, hnew, p, hp, hne, href, hpend⟩ := hnot
  obtain ⟨w, hsim, hinv⟩ := sound_running h
  have hqueue : l.queue ≠ [] := List.ne_nil_of_mem (List.mem_of_mem_take hq)
  have hpoll : (running l).step a (.poll a.now) = some (.running (l.nextBatch a.concurrency)) := by
    have htime : ¬ a.deadline < a.now := Nat.not_lt.mpr (Nat.le_add_right _ _)
    simp only [step, hidle, ne_eq, not_true_eq_false, if_false, hqueue, htime]
  have hsim₁ := hsim.nextBatch a.concurrency
  have hinv₁ := hinv.batch (k := a.concurrency) (hsim.futures.symm.trans hidle)
  have hflight : q ∈ (w.batch a.concurrency).inFlight := by
    have hvisited : q ∈ (w.batch a.concurrency).visited :=
      Worklist.mem_batch_visited.mpr (.inl (hsim.queue ▸ hq))
    refine ((hinv₁.visited_iff q).mp hvisited).resolve_left fun horder => hnew ?_
    rw [Worklist.batch_order] at horder
    exact (hsim.toString_mem_visited q).mpr ((hinv.visited_iff q).mpr (.inl horder))
  obtain ⟨info, hinfo⟩ := hall q (hinv.reachable q (.inr (hsim.queue ▸ List.mem_of_mem_take hq)))
  obtain ⟨l₂, hl₂, hsim₂⟩ := hsim₁.complete hinfo
  have hfetched :
      (running (l.nextBatch a.concurrency)).step a (.fetched q) = some (.running l₂) := by
    rw [← hsim₁.futures] at hflight
    simp only [step, if_pos hflight, hl₂]
  have hrun := run_concat_eq_some.mpr ⟨_, run_concat_eq_some.mpr ⟨l, h, hpoll⟩, hfetched⟩
  obtain ⟨evs', c, hret, hrest, his⟩ := exists_returned_ok hc hfin hall hrun
  have hplace : l.order ++ [q.toString] <+: c.paths := by
    have horder : l₂.order = l.order ++ [q.toString] := by
      rw [hsim₂.order, hsim.order, Worklist.State.finish, Worklist.batch_order, List.map_append]
      rfl
    exact horder ▸ order_prefix hsim₂ hrest
  exact ⟨_, c, hret, fun hsorted =>
    Worklist.not_sublist_of_first his.nodup hplace hpend (hsorted p q hp hne href)⟩

end ResolveState

/-- **Topological order.**  The paths of a closure begin with the root, and they are sorted if
every batch was ready.  They are sorted in all calls with these arguments, whatever completes first,
exactly when every batch of all these calls is ready. -/
theorem resolveClosure_sorted (a : ResolveArgs) (hc : 1 ≤ a.concurrency)
    (hfin : {p | InClosure a.client a.root p}.Finite) :
    (∀ evs c, (ResolveState.start a).run a evs = some (.returned (.ok c)) →
      c.paths.head? = some a.root.toString ∧ (ReadyAlong a evs → c.Sorted a.client a.root)) ∧
    (AllFetched a.client a.root →
      ((∀ evs c, (ResolveState.start a).run a evs = some (.returned (.ok c)) →
        c.Sorted a.client a.root) ↔ ∀ evs, ReadyAlong a evs)) := by
  refine ⟨fun evs c h => ⟨?_, fun hready => ResolveState.sorted_of_readyAlong hready h⟩,
    fun hall => ⟨fun hsorted evs pre post l _ hrun hidle => ?_, fun hready evs c h => ?_⟩⟩
  · exact ResolveState.head_paths h
  · by_contra hnot
    obtain ⟨evs', c, hret, hnot⟩ := ResolveState.exists_unsorted hc hfin hall hrun hidle hnot
    exact hnot (hsorted evs' c hret)
  · exact ResolveState.sorted_of_readyAlong (hready evs) h

/-! A program that uses a tool, which uses a library, which references itself. -/

/-- The references of each path. -/
def chainRefs (p : StorePath) : List StorePathRef :=
  if p = programPath then [toolRef]
  else if p = toolPath then [libraryRef]
  else if p = libraryPath then [libraryRef]
  else []

/-- In these examples a path references what it is given. -/
lemma references_argsOf {refs : StorePath → List StorePathRef} {p q : StorePath} :
    References (argsOf refs).client p q ↔ ∃ r ∈ refs p, r.path = q := by
  constructor
  · rintro ⟨info, hinfo, href⟩
    cases hinfo
    exact href
  · exact fun href => ⟨_, rfl, href⟩

lemma references_chain {p q : StorePath} (h : References (argsOf chainRefs).client p q) :
    p = programPath ∧ q = toolPath ∨ (p = toolPath ∨ p = libraryPath) ∧ q = libraryPath := by
  obtain ⟨r, hr, rfl⟩ := references_argsOf.mp h
  simp only [chainRefs] at hr
  split at hr
  next hp =>
    obtain rfl := List.mem_singleton.mp hr
    exact .inl ⟨hp, path_toolRef⟩
  split at hr
  next hp =>
    obtain rfl := List.mem_singleton.mp hr
    exact .inr ⟨.inl hp, path_libraryRef⟩
  split at hr
  next hp =>
    obtain rfl := List.mem_singleton.mp hr
    exact .inr ⟨.inr hp, path_libraryRef⟩
  · cases hr

lemma path_chainRefs (p : StorePath) :
    ∀ r ∈ chainRefs p, r.path ∈ [programPath, toolPath, libraryPath] := by
  intro r hr
  rcases references_chain (references_argsOf.mpr ⟨r, hr, rfl⟩) with ⟨-, h⟩ | ⟨-, h⟩ <;> rw [h] <;>
    decide

/-- Each of the three comes before the path that it references, in every call that succeeds, and
there is such a call. -/
theorem resolveClosure_sorted_chain :
    (∃ evs c, (ResolveState.start (argsOf chainRefs)).run (argsOf chainRefs) evs =
        some (.returned (.ok c)) ∧
      c.paths = [programPath.toString, toolPath.toString, libraryPath.toString]) ∧
      ∀ evs c, (ResolveState.start (argsOf chainRefs)).run (argsOf chainRefs) evs =
          some (.returned (.ok c)) →
        c.paths.head? = some programPath.toString ∧
          [programPath.toString, toolPath.toString].Sublist c.paths ∧
          [toolPath.toString, libraryPath.toString].Sublist c.paths := by
  have href : References (argsOf chainRefs).client programPath toolPath := by
    have hmem : toolRef ∈ chainRefs programPath := by simp [chainRefs]
    exact references_argsOf.mpr ⟨_, hmem, path_toolRef⟩
  have href' : References (argsOf chainRefs).client toolPath libraryPath := by
    have hmem : libraryRef ∈ chainRefs toolPath := by
      rw [chainRefs, if_neg (by decide), if_pos rfl]
      exact List.mem_cons_self
    exact references_argsOf.mpr ⟨_, hmem, path_libraryRef⟩
  have htool : InClosure (argsOf chainRefs).client programPath toolPath := by
    obtain ⟨succs, hexp, hmem⟩ := exists_expandPath_iff.mpr href
    exact .step .root hexp hmem
  have hready : ∀ evs, ReadyAlong (argsOf chainRefs) evs := by
    refine ResolveState.readyAlong_of_tree (fun p _ h => ?_) fun p p' q hne hne' h h' => ?_
    · rcases references_chain h with ⟨-, h⟩ | ⟨-, h⟩ <;> exact absurd h (by decide)
    · rcases references_chain h with ⟨rfl, rfl⟩ | ⟨hp, rfl⟩ <;>
        rcases references_chain h' with ⟨rfl, hq⟩ | ⟨hp', hq⟩
      · rfl
      · exact absurd hq (by decide)
      · exact absurd hq (by decide)
      · rw [hp.resolve_right hne, hp'.resolve_right hne']
  refine ⟨⟨[.poll 0, .fetched programPath, .poll 0, .fetched toolPath, .poll 0,
    .fetched libraryPath, .poll 0], _, rfl, by decide +kernel⟩, fun evs c h => ?_⟩
  obtain ⟨hhead, hsorted⟩ := (resolveClosure_sorted (argsOf chainRefs) (by decide)
    (finite_inClosure_argsOf path_chainRefs)).1 evs c h
  exact ⟨hhead, hsorted (hready evs) _ _ .root (by decide) href,
    hsorted (hready evs) _ _ htool (by decide) href'⟩

/-! A program that uses a library by itself and through a tool: the library is both a reference of
the root and of a reference of the root. -/

/-- The references of each path. -/
def programRefs (p : StorePath) : List StorePathRef :=
  if p = programPath then [libraryRef, toolRef]
  else if p = toolPath then [libraryRef]
  else []

/-- A call of `resolve_closure` for the program. -/
def programArgs : ResolveArgs := argsOf programRefs

lemma references_program {p q : StorePath} (h : References programArgs.client p q) :
    p = programPath ∧ (q = libraryPath ∨ q = toolPath) ∨ p = toolPath ∧ q = libraryPath := by
  obtain ⟨r, hr, rfl⟩ := references_argsOf.mp h
  simp only [programRefs] at hr
  split at hr
  next hp =>
    simp only [List.mem_cons, List.not_mem_nil, or_false] at hr
    rcases hr with rfl | rfl
    · exact .inl ⟨hp, .inl path_libraryRef⟩
    · exact .inl ⟨hp, .inr path_toolRef⟩
  split at hr
  next hp =>
    obtain rfl := List.mem_singleton.mp hr
    exact .inr ⟨hp, path_libraryRef⟩
  · cases hr

lemma path_programRefs (p : StorePath) :
    ∀ r ∈ programRefs p, r.path ∈ [programPath, toolPath, libraryPath] := by
  intro r hr
  rcases references_program (references_argsOf.mpr ⟨r, hr, rfl⟩) with ⟨-, h | h⟩ | ⟨-, h⟩ <;>
    rw [h] <;> decide

/-- **A closure out of order**: the graph is finite and has no cycle, and the library comes before
the tool that references it. -/
theorem resolveClosure_unsorted :
    {p | InClosure programArgs.client programPath p}.Finite ∧
      (∃ rank : StorePath → ℕ, ∀ p q, References programArgs.client p q → rank q < rank p) ∧
      ∃ c, (ResolveState.start programArgs).run programArgs [.poll 0, .fetched programPath, .poll 0,
          .fetched libraryPath, .fetched toolPath, .poll 0] = some (.returned (.ok c)) ∧
        c.paths = [programPath.toString, libraryPath.toString, toolPath.toString] ∧
        References programArgs.client toolPath libraryPath ∧
          ¬ c.Sorted programArgs.client programPath := by
  have htool : References programArgs.client toolPath libraryPath := by
    have hmem : libraryRef ∈ programRefs toolPath := by
      rw [programRefs, if_neg (by decide), if_pos rfl]
      exact List.mem_cons_self
    exact references_argsOf.mpr ⟨_, hmem, path_libraryRef⟩
  have hroot : References programArgs.client programPath toolPath := by
    have hmem : toolRef ∈ programRefs programPath := by simp [programRefs]
    exact references_argsOf.mpr ⟨_, hmem, path_toolRef⟩
  obtain ⟨succs, hexp, hmem⟩ := exists_expandPath_iff.mpr hroot
  refine ⟨finite_inClosure_argsOf path_programRefs,
    ⟨fun p => if p = programPath then 2 else if p = toolPath then 1 else 0, ?_⟩, _, rfl,
    by decide +kernel, htool, fun hsorted => ?_⟩
  · intro p q h
    rcases references_program h with ⟨rfl, rfl | rfl⟩ | ⟨rfl, rfl⟩ <;> decide +kernel
  · have hsub := hsorted toolPath libraryPath (.step .root hexp hmem) (by decide) htool
    revert hsub
    decide +kernel

/-! ## Progress

With batches of no path the loop turns without taking anything off its queue, and each turn looks at
the clock only.
-/

/-- How many references the `.narinfo` of a path has. -/
def refCount (client : NarInfoClient) (p : StorePath) : ℕ :=
  match client.fetchNarinfo p with
  | .ok info => info.references.length
  | .error _ => 0

/-- The number of references of all paths of the closure together. -/
noncomputable def totalReferences (a : ResolveArgs)
    (hfin : {p | InClosure a.client a.root p}.Finite) : ℕ :=
  ∑ p ∈ hfin.toFinset, refCount a.client p

/-- The head of the outer loop. -/
def ResolveEvent.isPoll : ResolveEvent → Bool
  | .poll _ => true
  | .fetched _ => false

/-- How often the head of the loop has been passed. -/
def turns (evs : List ResolveEvent) : ℕ := evs.countP ResolveEvent.isPoll

lemma turns_concat (evs : List ResolveEvent) (ev : ResolveEvent) :
    turns (evs ++ [ev]) = turns evs + if ev.isPoll then 1 else 0 := by
  rw [turns, List.countP_append, List.countP_singleton]
  rfl

/-- What the loop should do whatever the clock says: take something off the queue in every turn,
make no more turns than there are references and one, and come to an end. -/
structure Progress (a : ResolveArgs) (hfin : {p | InClosure a.client a.root p}.Finite) : Prop where
  shrinks : ∀ evs l now l', (ResolveState.start a).run a evs = some (.running l) →
    (ResolveState.running l).step a (.poll now) = some (.running l') →
      l'.queue.length < l.queue.length
  turns_le : ∀ evs l, (ResolveState.start a).run a evs = some (.running l) →
    turns evs ≤ 1 + totalReferences a hfin
  ends : Acc (fun t s : ResolveState => ∃ ev, s.step a ev = some t) (.start a)

lemma degree_expandPath (client : NarInfoClient) :
    Worklist.degree (expandPath client) = refCount client := by
  funext p
  rw [Worklist.degree, expandPath, refCount]
  cases client.fetchNarinfo p with
  | ok info => exact List.length_map _
  | error e => rfl

namespace ResolveState

variable {a : ResolveArgs}

/-- What the turns so far have taken off the queue was once put into it. -/
lemma spent_running (hc : 1 ≤ a.concurrency) {evs : List ResolveEvent} {l : ClosureLoop}
    (h : (start a).run a evs = some (.running l)) :
    ∃ w, Worklist.Inv (expandPath a.client) a.root w ∧
      Worklist.Spent (expandPath a.client) (turns evs) w := by
  obtain ⟨w, -, hinv, hspent⟩ := running_induction (a := a)
    (J := fun evs w => Worklist.Spent (expandPath a.client) (turns evs) w)
    (Worklist.Spent.start a.root)
    (fun evs now l w _ _ _ _ hqueue hJ => by
      rw [turns_concat]
      exact hJ.batch hc hqueue)
    (fun evs sp succs w _ _ hexp hJ => by
      rw [turns_concat]
      exact hJ.finish hexp) h
  exact ⟨w, hinv, hspent⟩

end ResolveState

/-- **Progress.**  Every turn of the loop makes progress exactly when the batches have a size, or
there is no loop: over a finite closure, for every order of completions. -/
theorem resolveClosure_progress (a : ResolveArgs)
    (hfin : {p | InClosure a.client a.root p}.Finite) :
    (Progress a hfin ↔ 1 ≤ a.concurrency ∨ ¬ a.HasDeadline) ∧
      (¬ a.HasDeadline → ResolveState.start a = .returned (.error .panic)) := by
  refine ⟨⟨fun h => ?_, ?_⟩, ResolveState.start_overflow⟩
  · by_contra! hnot
    obtain ⟨hlt, hdeadline⟩ := hnot
    have hc : a.concurrency = 0 := by omega
    have hstart := ResolveState.start_eq hdeadline
    have htime : ¬ a.deadline < a.now := Nat.not_lt.mpr (Nat.le_add_right _ _)
    have hpoll : (ResolveState.running (.start a.root)).step a (.poll a.now) =
        some (.running ((ClosureLoop.start a.root).nextBatch a.concurrency)) := by
      simp [ResolveState.step, ClosureLoop.start, htime]
    have hshrinks := h.shrinks [] _ _ _ (congrArg some hstart) hpoll
    rw [hc] at hshrinks
    exact absurd hshrinks (Nat.lt_irrefl _)
  · rintro (hc | hnot)
    · refine ⟨fun evs l now l' hrun hstep => ?_, fun evs l hrun => ?_,
        ResolveState.acc_step hc hfin⟩
      · obtain ⟨w, hsim, -⟩ := ResolveState.sound_running hrun
        rcases ResolveState.step_eq_running hstep with ⟨-, -, -, hqueue, rfl⟩ | ⟨sp, hev, -⟩
        · rw [hsim.queue] at hqueue
          rw [(hsim.nextBatch a.concurrency).queue, hsim.queue]
          exact Worklist.batch_queue_lt hc hqueue
        · cases hev
      · obtain ⟨w, hinv, hspent⟩ := ResolveState.spent_running hc hrun
        have hsum := Worklist.sum_degree_le hfin hinv
        rw [degree_expandPath] at hsum
        rw [Worklist.Spent, degree_expandPath] at hspent
        rw [totalReferences]
        omega
    · -- the call panics before its loop
      have hnone : ∀ evs l, (ResolveState.start a).run a evs ≠ some (.running l) :=
        fun evs l hrun => hnot (ResolveState.hasDeadline_of_running hrun)
      exact ⟨fun evs l _ _ hrun => absurd hrun (hnone evs l),
        fun evs l hrun => absurd hrun (hnone evs l), ResolveState.acc_overflow hnot⟩

/-- The loop makes progress on a diamond with cycles, one path at a time. -/
theorem resolveClosure_progress_loop : ∃ hfin, Progress loopArgs hfin :=
  ⟨finite_inClosure_loop,
    (resolveClosure_progress loopArgs finite_inClosure_loop).1.mpr (.inl (by decide))⟩

/-- A call that takes nothing off its queue. -/
def stalledArgs : ResolveArgs := { loopArgs with concurrency := 0 }

/-- **A loop that makes no progress**: with batches of no path it turns as often as the clock lets
it, and its queue stays as it is. -/
theorem resolveClosure_stalled :
    (∀ n, (ResolveState.start stalledArgs).run stalledArgs (List.replicate n (.poll 0)) =
        some (ResolveState.start stalledArgs)) ∧
      ∀ hfin, ¬ Progress stalledArgs hfin := by
  have hpoll : (ResolveState.start stalledArgs).step stalledArgs (.poll 0) =
      some (ResolveState.start stalledArgs) := rfl
  refine ⟨fun n => ?_, fun hfin h => ?_⟩
  · induction n with
    | zero => rfl
    | succ n ih => rw [List.replicate_succ, ResolveState.run, hpoll, Option.bind_some, ih]
  · exact absurd (h.shrinks [] _ 0 _ rfl hpoll) (Nat.lt_irrefl _)

end Niphas
